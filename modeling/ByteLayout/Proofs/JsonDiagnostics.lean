import Mathlib.Data.List.Nodup
import ByteLayout.Diagnostic.Style
import ByteLayout.Proofs.Encoding
import ByteLayout.Proofs.JsonGrammar
import ByteLayout.Proofs.Quoting
import ByteLayout.Proofs.Spelling

/-!
# Diagnostics in JSON

An object in JSON is read back by the grammar of JSON: its text denotes the object of its members
and nothing else (`document_jsonObject`), and holds no control character (`visible_jsonObject`).

`Diagnostic.member?` is what a diagnostic has under a name as an object: what every diagnostic has,
the place if there is one, and each circumstance that is there and not empty. The main result is
`Diagnostic.json_faithful`: the text of a diagnostic denotes an object of exactly these members, and
two diagnostics have the same text only if they agree in all but whether a missing circumstance is
empty. The limit on the digits of a number does not touch this text, because an offset into a text
is a number of 64 bits (`Diagnostic.writeDecimal_member`).
-/

namespace ByteLayout

/-! ## Objects are read back -/

namespace Text

open Json

/-- What a member's value denotes. -/
def JsonScalar.value : JsonScalar → Value
  | text s => .text s
  | number n => .number n

@[simp] theorem JsonScalar.value_text (s : Text) : (text s).value = .text s := rfl

@[simp] theorem JsonScalar.value_number (n : Int) : (number n).value = .number n := rfl

/-- The characters of a control character's code. -/
theorem codeText_hexOfWidth {n : Nat} (h : n < 0x20) : CodeText (hexOfWidth 4 n) n := by
  have hcode := CodeText.mk (length_hexOfWidth 4 n) (isHexDigit_hexOfWidth 4 n)
  rw [ofDigits_hexOfWidth, Nat.mod_eq_of_lt (Nat.lt_trans h (by decide))] at hcode
  exact hcode

/-- A character is written as a text of it, escaped where it has to be. -/
theorem charText_jsonChar (c : CodePoint) : CharText (jsonChar c) c := by
  have hletter : ∀ {letter c}, (letter, c) ∈ shortEscapes → CharText [scalar '\\', letter] c :=
    fun h => .escaped (.letter h)
  unfold jsonChar
  split_ifs with hmark hescape hfeed hreturn htab hform hback hlow
  · rw [hmark]
    exact hletter (by decide)
  · rw [hescape]
    exact hletter (by decide)
  · exact hfeed ▸ hletter (by decide)
  · exact hreturn ▸ hletter (by decide)
  · exact htab ▸ hletter (by decide)
  · exact hform ▸ hletter (by decide)
  · exact hback ▸ hletter (by decide)
  · cases c with
    | scalar c =>
      have hcode := CharText.escaped (.code (codeText_hexOfWidth hlow) c.valid)
      rwa [CodePoint.toNat_scalar, Char.ofNat_toNat] at hcode
    | surrogate index =>
      have hnumber : 0xD800 + index.val < 0x20 := hlow
      omega
  · exact .plain (Nat.le_of_not_lt hlow) hmark hescape

/-- A text is written as a literal of it. -/
theorem textLiteral_jsonText (s : Text) : TextLiteral (jsonText s).toList s := by
  have hliteral := TextLiteral.mk (CodeRow.of_flatMap charText_jsonChar s.toList)
  rw [Text.ofList_toList] at hliteral
  rwa [jsonText, Text.toList_ofList]

/-- A natural number in decimal is a whole number, with no zero in front. -/
theorem isWhole_naturalDigits (n : Nat) : IsWhole (naturalDigits 10 n) :=
  ⟨⟨naturalDigits_ne_nil 10 n, isDecimalDigit_naturalDigits n⟩,
    (canonicalDigits_naturalDigits (by decide) (by decide) n).leading⟩

/-- An integer in decimal is a number without point and exponent. -/
theorem numberText_decimal (n : Int) : NumberText (decimal n).toList n := by
  have hdigits : ofDigits 10 (naturalDigits 10 n.natAbs) = n.natAbs :=
    ofDigits_naturalDigits (by decide) (by decide) n.natAbs
  have hnumber : ∀ {sign : List CodePoint} {s : ℤ}, SignText sign s → sign ≠ [scalar '+'] →
      s * n.natAbs = n → NumberText (sign ++ naturalDigits 10 n.natAbs) n := by
    intro sign s hsign hplus hn
    have h := NumberText.mk hsign hplus (isWhole_naturalDigits n.natAbs) .none .none
    have hvalue : (s : ℚ) * n.natAbs = n := by
      rw [← Int.cast_natCast, ← Int.cast_mul, hn]
    rw [List.append_nil, List.append_nil, hdigits, hvalue] at h
    simpa using h
  rw [decimal, numeral, Text.toList_ofList, numeralDigits]
  split
  · next hneg => exact hnumber .minus (by decide) (by omega)
  · next hneg => exact hnumber .none (by decide) (by omega)

/-- A member is written as a text of its value. -/
theorem spells_render (value : JsonScalar) : Spells value.render.toList value.value := by
  cases value with
  | text s => exact .text (textLiteral_jsonText s)
  | number n => exact .number (numberText_decimal n)

/-- The characters of a member. -/
def memberChars (member : Text × JsonScalar) : List CodePoint :=
  (jsonText member.1).toList ++ scalar ':' :: scalar ' ' :: member.2.render.toList

theorem isGap_nil : IsGap [] :=
  List.forall_mem_nil _

theorem isGap_space : IsGap [scalar ' '] :=
  List.forall_mem_singleton.2 rfl

/-- A name and a value with a colon between are a member. -/
theorem member_memberChars (member : Text × JsonScalar) :
    Member Spells (memberChars member) (member.1, member.2.value) :=
  .mk (textLiteral_jsonText member.1) isGap_nil isGap_space (spells_render member.2)

/-- A row of members, with a gap before the first. -/
theorem row_memberChars {gap : List CodePoint} (hgap : IsGap gap)
    (members : List (Text × JsonScalar)) :
    Row (Member Spells) (gap ++ [scalar ',', scalar ' '].intercalate (members.map memberChars))
      (members.map fun member => (member.1, member.2.value)) := by
  induction members generalizing gap with
  | nil =>
    rw [List.map_nil, List.intercalate_nil, List.append_nil]
    exact .nil hgap
  | cons member members ih =>
    cases members with
    | nil =>
      have hone := Row.one hgap (member_memberChars member) isGap_nil
      rw [List.append_nil] at hone
      rwa [List.map_singleton, List.map_singleton, List.intercalate_singleton]
    | cons next members =>
      have hcons := Row.cons hgap (member_memberChars member) isGap_nil (ih isGap_space)
        (List.cons_ne_nil _ _)
      rw [List.map_cons, List.map_cons, List.intercalate_cons_cons, List.append_assoc]
      exact hcons

/-- An object is its members, with commas between and braces around. -/
theorem toList_jsonObject (members : List (Text × JsonScalar)) : (jsonObject members).toList =
    scalar '\x7b' ::
      ([scalar ',', scalar ' '].intercalate (members.map memberChars) ++ [scalar '\x7d']) := by
  rw [jsonObject, Text.toList_append, Text.toList_append, Text.toList_intercalate,
    List.map_map]
  have hmember : memberChars = fun member : Text × JsonScalar =>
      (jsonText member.1).toList ++ scalar ':' :: scalar ' ' :: member.2.render.toList := rfl
  simp [hmember, Function.comp_def]

/-- An object in JSON denotes the object of its members. -/
theorem document_jsonObject (members : List (Text × JsonScalar)) :
    Document (jsonObject members).toList
      (.object (members.map fun member => (member.1, member.2.value))) := by
  have hobject := Spells.object (row_memberChars isGap_nil members)
  rw [toList_jsonObject]
  have hdocument := Document.mk isGap_nil hobject isGap_nil
  rwa [List.append_nil] at hdocument

/-! ## No control characters -/

/-- What is printable is no control character. -/
theorem visible_of_isPrintable {c : CodePoint} (h : isPrintable c) : 0x20 ≤ c.toNat := by
  by_contra hlow
  rw [isPrintable_of_ascii (by omega)] at h
  simp [hlow] at h

/-- No control character is left in what is written for a character. -/
theorem visible_jsonChar (c : CodePoint) : ∀ x ∈ jsonChar c, 0x20 ≤ x.toNat := by
  unfold jsonChar
  split_ifs with _ _ _ _ _ _ _ hlow
  · simp
  · simp
  · simp
  · simp
  · simp
  · simp
  · simp
  · simpa using fun x hx => visible_of_isPrintable (isPrintable_hexOfWidth 4 c.toNat x hx)
  · exact List.forall_mem_singleton.2 (Nat.le_of_not_lt hlow)

/-- Nor is one in what is written for a text. -/
theorem visible_jsonText (s : Text) : ∀ c ∈ (jsonText s).toList, 0x20 ≤ c.toNat := by
  have hbody : ∀ c ∈ s.toList.flatMap jsonChar, 0x20 ≤ c.toNat := by
    intro c hc
    obtain ⟨x, -, hc⟩ := List.mem_flatMap.1 hc
    exact visible_jsonChar x c hc
  rw [jsonText, Text.toList_ofList, List.forall_mem_cons, List.forall_mem_append]
  exact ⟨by decide, hbody, List.forall_mem_singleton.2 (by decide)⟩

/-- Nor is one in what is written for a value. -/
theorem visible_render (value : JsonScalar) : ∀ c ∈ value.render.toList, 0x20 ≤ c.toNat := by
  cases value with
  | text s => exact visible_jsonText s
  | number n =>
    intro c hc
    rw [JsonScalar.render, decimal, numeral, Text.toList_ofList] at hc
    exact visible_of_isPrintable (isPrintable_numeralDigits n c hc)

/-- An object in JSON holds no control character. -/
theorem visible_jsonObject (members : List (Text × JsonScalar)) :
    ∀ c ∈ (jsonObject members).toList, 0x20 ≤ c.toNat := by
  have hmember : ∀ member, ∀ c ∈ memberChars member, 0x20 ≤ c.toNat := by
    intro member
    rw [memberChars, List.forall_mem_append, List.forall_mem_cons, List.forall_mem_cons]
    exact ⟨visible_jsonText member.1, by decide, by decide, visible_render member.2⟩
  have hjoint : ∀ c ∈ [scalar ',', scalar ' '], 0x20 ≤ c.toNat := by simp
  intro c hc
  rw [toList_jsonObject, List.mem_cons, List.mem_append, List.mem_singleton] at hc
  rcases hc with rfl | hc | rfl
  · decide
  · rcases mem_intercalate hc with hc | ⟨part, hpart, hc⟩
    · exact hjoint c hc
    · obtain ⟨member, -, rfl⟩ := List.mem_map.1 hpart
      exact hmember member c hc
  · decide

end Text

/-! ## Diagnostics are read back -/

/-- Codes are told apart by their names. -/
theorem DiagnosticCode.name_injective {a b : DiagnosticCode} (h : a.name = b.name) : a = b := by
  have hnodup : (all.map name).Nodup := by decide +kernel
  exact List.inj_on_of_nodup_map hnodup (mem_all a) (mem_all b) h

namespace Diagnostic

variable {d e : Diagnostic} {name : Text} {v : Json.Value}

/-- A circumstance as a value: there is none if it is empty. -/
def told? : Option Text → Option Json.Value
  | none => none
  | some s => if s = "" then none else some (.text s)

/-- The value that a diagnostic has under a name. -/
def member? (d : Diagnostic) (name : Text) : Option Json.Value :=
  if name = "code" then some (.text d.code.name)
  else if name = "code_value" then some (.number d.code.number)
  else if name = "message" then some (.text d.message)
  else if name = "severity" then some (.text d.severity)
  else if name = "line" then d.location.map fun l => .number l.line
  else if name = "column" then d.location.map fun l => .number l.column
  else if name = "start" then d.location.map fun l => .number l.start
  else if name = "end" then d.location.map fun l => .number l.stop
  else if name = "attribute" then told? d.subject
  else if name = "expected" then told? d.expected
  else if name = "received" then told? d.received
  else if name = "hint" then told? d.hint
  else none

/-- Two diagnostics that tell the same: they differ at most in that a circumstance is missing in one
and empty in the other. -/
structure Agrees (d e : Diagnostic) : Prop where
  /-- The codes are the same. -/
  code : d.code = e.code
  /-- The messages are the same. -/
  message : d.message = e.message
  /-- The severities are the same. -/
  severity : d.severity = e.severity
  /-- The places are the same. -/
  location : d.location = e.location
  /-- They are about the same. -/
  subject : d.subject.getD "" = e.subject.getD ""
  /-- The same was expected. -/
  expected : d.expected.getD "" = e.expected.getD ""
  /-- The same was there. -/
  received : d.received.getD "" = e.received.getD ""
  /-- The same mends it. -/
  hint : d.hint.getD "" = e.hint.getD ""

/-- The names of members, in the order in which they stand. -/
def memberNames : List Text :=
  ["code", "code_value", "message", "severity", "line", "column", "start", "end", "attribute",
    "expected", "received", "hint"]

/-- The members of a diagnostic with what they denote. -/
def members (d : Diagnostic) : List (Text × Json.Value) :=
  d.jsonMembers.map fun member => (member.1, member.2.value)

/-- What is told of a text is the text, if it is present and not empty. -/
theorem told?_eq (text : Option Text) : told? text = (present? text).map .text := by
  cases text with
  | none => rfl
  | some s => by_cases h : s = "" <;> simp [told?, present?, h]

/-- The members are the values of the names, in their order. -/
theorem members_eq (d : Diagnostic) :
    d.members = memberNames.filterMap fun name => (d.member? name).map (Prod.mk name) := by
  have hcircumstance : ∀ (label : Text) (text : Option Text),
      (text.map fun s => (label, Text.JsonScalar.text s)).toList.map
        (fun member => (member.1, member.2.value)) =
      (text.map (Prod.mk label ∘ Json.Value.text)).toList := by
    intro label text
    cases text <;> rfl
  rw [List.filterMap_eq_flatMap_toList]
  cases hplace : d.location <;>
    simp [members, jsonMembers, memberNames, member?, hplace, told?_eq, hcircumstance]

/-- What a diagnostic has as a member is called by one of the names. -/
theorem mem_memberNames (h : d.member? name = some v) : name ∈ memberNames := by
  by_contra hnone
  simp only [memberNames, List.mem_cons, List.not_mem_nil, or_false, not_or] at hnone
  simp [member?, hnone] at h

/-- The members of a diagnostic are what it has under each name. -/
theorem mem_members : (name, v) ∈ d.members ↔ d.member? name = some v := by
  rw [members_eq, List.mem_filterMap]
  constructor
  · rintro ⟨name', -, h⟩
    obtain ⟨v', hv, heq⟩ := Option.map_eq_some_iff.1 h
    cases heq
    exact hv
  · intro h
    exact ⟨name, mem_memberNames h, by rw [h]; rfl⟩

/-- No two members have the same name. -/
theorem nodup_members (d : Diagnostic) : (d.members.map Prod.fst).Nodup := by
  have hnodup : memberNames.Nodup := by decide +kernel
  rw [members_eq, List.map_filterMap]
  refine hnodup.filterMap fun a a' name h h' => ?_
  simp only [Option.map_map, Option.mem_def, Option.map_eq_some_iff, Function.comp_apply] at h h'
  obtain ⟨-, -, rfl⟩ := h
  obtain ⟨-, -, rfl⟩ := h'
  rfl

/-- The text of a diagnostic denotes the object of its members. -/
theorem document_json (d : Diagnostic) : Json.Document d.json.toList (.object d.members) :=
  Text.document_jsonObject d.jsonMembers

/-- Diagnostics with the same text have the same values under all names. -/
theorem member?_eq_of_json_eq (h : d.json = e.json) : d.member? = e.member? := by
  have he := e.document_json
  rw [← h] at he
  have hmembers : d.members = e.members := Json.Value.object.inj (d.document_json.unique he)
  ext name v
  rw [← mem_members, ← mem_members, hmembers]

theorem present?_eq (text : Option Text) :
    present? text = if text.getD "" = "" then none else some (text.getD "") := by
  cases text with
  | none => rfl
  | some s => by_cases h : s = "" <;> simp [present?, h]

/-- A circumstance stays the same only if it stays the same text, a missing one being empty. -/
theorem told?_eq_iff {text text' : Option Text} :
    told? text = told? text' ↔ text.getD "" = text'.getD "" := by
  have hgetD : ∀ text : Option Text, (present? text).getD "" = text.getD "" := by
    intro text
    rw [present?_eq]
    split
    · next h => exact h.symm
    · rfl
  constructor
  · intro h
    rw [told?_eq, told?_eq] at h
    have hpresent := Option.map_injective (fun _ _ => Json.Value.text.inj) h
    rw [← hgetD text, hpresent, hgetD]
  · intro h
    rw [told?_eq, told?_eq, present?_eq, h, ← present?_eq]

/-- A location is told by its members. -/
theorem location_eq_of_member?_eq (h : ∀ name, d.member? name = e.member? name) :
    d.location = e.location := by
  have hline := h "line"
  have hcolumn := h "column"
  have hstart := h "start"
  have hstop := h "end"
  simp only [member?, Text.ofString_inj, String.reduceEq, if_true, if_false]
    at hline hcolumn hstart hstop
  generalize d.location = place at *
  generalize e.location = place' at *
  cases place with
  | none =>
    cases place' with
    | none => rfl
    | some l' => cases hline
  | some l =>
    cases place' with
    | none => cases hline
    | some l' =>
      simp only [Option.map_some, Option.some.injEq, Json.Value.number.injEq, Nat.cast_inj]
        at hline hcolumn hstart hstop
      obtain ⟨⟨start, stop, _⟩, line, column, _, _⟩ := l
      obtain ⟨⟨start', stop', _⟩, line', column', _, _⟩ := l'
      simp only at hline hcolumn hstart hstop
      subst hline hcolumn hstart hstop
      rfl

/-- Diagnostics that are written alike agree. -/
theorem agrees_of_json_eq (h : d.json = e.json) : d.Agrees e := by
  have hmember := congrFun (member?_eq_of_json_eq h)
  exact {
    code := DiagnosticCode.name_injective (by simpa [member?] using hmember "code")
    message := by simpa [member?] using hmember "message"
    severity := by simpa [member?] using hmember "severity"
    location := location_eq_of_member?_eq hmember
    subject := told?_eq_iff.1 (by simpa [member?] using hmember "attribute")
    expected := told?_eq_iff.1 (by simpa [member?] using hmember "expected")
    received := told?_eq_iff.1 (by simpa [member?] using hmember "received")
    hint := told?_eq_iff.1 (by simpa [member?] using hmember "hint") }

/-- Diagnostics that agree are written alike. -/
theorem json_eq_of_agrees (h : d.Agrees e) : d.json = e.json := by
  have hpresent : ∀ {text text' : Option Text}, text.getD "" = text'.getD "" →
      present? text = present? text' := by
    intro text text' h
    rw [present?_eq, h, ← present?_eq]
  simp only [json, jsonMembers, h.code, h.message, h.severity, h.location, hpresent h.subject,
    hpresent h.expected, hpresent h.received, hpresent h.hint]

/-- No number of the location has more than 64 bits. It is so wherever a text fits the memory. -/
structure Addressable (l : Location) : Prop where
  /-- The offsets have 64 bits. -/
  stop : l.stop ≤ 2 ^ 64
  /-- The line has 64 bits. -/
  line : l.line ≤ 2 ^ 64
  /-- The column has 64 bits. -/
  column : l.column ≤ 2 ^ 64

/-- No number of a diagnostic about such a place has more digits than are written. -/
theorem writeDecimal_member (h : ∀ l ∈ d.location, Addressable l) {n : Int}
    (hn : (name, .number n) ∈ d.jsonMembers) : Text.writeDecimal n = .ok (Text.decimal n) := by
  have hcode : d.code.number ≤ 2 ^ 64 := by cases d.code <;> decide
  refine Text.writeDecimal_of_not_tooLong (Text.not_tooLong_of_natAbs_le ?_)
  cases hplace : d.location with
  | none =>
    simp [jsonMembers, hplace] at hn
    omega
  | some l =>
    obtain ⟨hstop, hline, hcolumn⟩ := h l hplace
    have hstart := l.start_le_stop
    simp [jsonMembers, hplace] at hn
    omega

/-- The text of a diagnostic denotes an object with exactly its members, each once, and nothing
else; it holds no control character; and it is the text of those diagnostics only that tell the
same. -/
theorem json_faithful (d : Diagnostic) :
    (∃ members, (∀ v, Json.Document d.json.toList v ↔ v = .object members) ∧
      (members.map Prod.fst).Nodup ∧ ∀ name v, (name, v) ∈ members ↔ d.member? name = some v) ∧
    (∀ c ∈ d.json.toList, 0x20 ≤ c.toNat) ∧ ∀ e : Diagnostic, d.json = e.json ↔ d.Agrees e := by
  refine ⟨⟨d.members, fun v => ⟨fun h => h.unique d.document_json, ?_⟩, d.nodup_members,
    fun _ _ => mem_members⟩, Text.visible_jsonObject d.jsonMembers,
    fun e => ⟨agrees_of_json_eq, json_eq_of_agrees⟩⟩
  rintro rfl
  exact d.document_json

end Diagnostic

end ByteLayout
