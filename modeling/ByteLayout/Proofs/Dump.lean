import ByteLayout.CommandLine.Run
import ByteLayout.Proofs.Lists
import ByteLayout.Proofs.Quoting
import ByteLayout.Proofs.ReadBack

/-!
# Dumps of tokens

A dump shows every token on a line of its own, by its kind and, in parentheses, its value. Texts,
numbers, bytes and names with sizes are told apart by the character that they begin with
(`TokenValue.Leads`), so no two tokens are shown alike unless they agree in kind and value
(`Token.inspect_injective`). All that is shown is printable, and nothing printable breaks a line.

`tokenDump_faithful`: a dump tells the tokens that it shows, one on a line.
-/

namespace ByteLayout

/-- A number is told by its digits. -/
theorem Text.decimal_injective {n m : Int} (h : decimal n = decimal m) : n = m := by
  rw [decimal, decimal, numeral, numeral, Text.ofList_inj] at h
  have hread := readNumeral?_numeralDigits (by decide : 1 < 10) (by decide) n
  rw [h, readNumeral?_numeralDigits (by decide) (by decide) m] at hread
  exact (Option.some.inj hread).symm

/-! ## Values -/

namespace TokenValue

open Text

/-- What the form of a value may begin with. -/
def Leads : TokenValue → CodePoint → Prop
  | none, _ => False
  | text _, c => c = apostrophe ∨ c = '"'
  | integer _, c => c = '-' ∨ isDecimalDigit c
  | bytes _, c => c = 'b'
  | sized .., c => c = '('

/-- A name with a size is shown as a pair. -/
theorem inspect?_sized (name : Text) (size : Int) : (sized name size).inspect? =
    some ("(" ++ (quote name ++ ", " ++ decimal size) ++ ")") :=
  congrArg some (tuple_pair _ _)

/-- The form of a value begins with a character that tells what kind of value it is. -/
theorem leads_inspect? {v : TokenValue} :
    ∀ text ∈ v.inspect?, ∃ c ∈ text.toList.head?, v.Leads c := by
  intro shown hshown
  cases v with
  | none => cases hshown
  | text s =>
    cases hshown
    exact ⟨_, by rw [quote, Text.toList_ofList]; rfl, quotationMark_cases s.toList⟩
  | integer n =>
    cases hshown
    rw [decimal, numeral, Text.toList_ofList, numeralDigits]
    split
    · exact ⟨'-', rfl, .inl rfl⟩
    · cases hdigits : naturalDigits 10 n.natAbs with
      | nil => exact absurd hdigits (naturalDigits_ne_nil 10 _)
      | cons c cs =>
        have hc := isDecimalDigit_naturalDigits n.natAbs c (by simp [hdigits])
        exact ⟨c, rfl, .inr hc⟩
  | bytes bs =>
    cases hshown
    exact ⟨'b', by rw [quoteBytes, Text.toList_ofList]; rfl, rfl⟩
  | sized name size =>
    rw [inspect?_sized] at hshown
    cases hshown
    exact ⟨'(', by simp, rfl⟩

/-- A pair tells the name and the size. -/
theorem sized_injective {name name' : Text} {size size' : Int}
    (h : (sized name size).inspect? = (sized name' size').inspect?) :
    name = name' ∧ size = size' := by
  rw [inspect?_sized, inspect?_sized, Option.some.injEq, ← Text.toList_inj] at h
  simp only [Text.toList_append, quote, List.append_assoc] at h
  obtain ⟨hname, hrest⟩ := quoteChars_append_unique (List.append_cancel_left h)
  have hsize := List.append_cancel_right (List.append_cancel_left hrest)
  exact ⟨Text.toList_inj.1 hname, decimal_injective (Text.toList_inj.1 hsize)⟩

/-- Values of different types do not begin alike. -/
theorem Leads.ctorIdx_eq {v w : TokenValue} {c : CodePoint} (hv : v.Leads c) (hw : w.Leads c) :
    v.ctorIdx = w.ctorIdx := by
  have hdigit : ∀ x ∈ [scalar '-', apostrophe, scalar '"', scalar 'b', scalar '('],
      isDecimalDigit x = false := by decide
  cases v <;> cases w <;> simp only [Leads] at hv hw <;> grind [apostrophe]

/-- Only no value is not shown. -/
theorem inspect?_eq_none {v : TokenValue} (h : v.inspect? = .none) : v = none := by
  cases v with
  | none => rfl
  | _ => cases h

/-- The form of a value tells the value. -/
theorem inspect?_injective {v w : TokenValue} (h : v.inspect? = w.inspect?) : v = w := by
  have hidx : v.ctorIdx = w.ctorIdx := by
    cases hv : v.inspect? with
    | none => rw [inspect?_eq_none hv, inspect?_eq_none (h.symm.trans hv)]
    | some shown =>
      obtain ⟨c, hc, hcv⟩ := leads_inspect? shown hv
      obtain ⟨d, hd, hdw⟩ := leads_inspect? shown (h.symm.trans hv)
      obtain rfl : c = d := Option.mem_unique hc hd
      exact hcv.ctorIdx_eq hdw
  cases v <;> cases w <;> cases hidx
  · rfl
  · rw [quote_injective (Option.some.inj h)]
  · rw [decimal_injective (Option.some.inj h)]
  · rw [quoteBytes_injective (Option.some.inj h)]
  · obtain ⟨rfl, rfl⟩ := sized_injective h
    rfl

/-- No hidden character is left in the form of a value. -/
theorem isPrintable_inspect? {v : TokenValue} :
    ∀ text ∈ v.inspect?, ∀ c ∈ text.toList, isPrintable c := by
  intro shown hshown
  have hdecimal : ∀ n, ∀ c ∈ (decimal n).toList, isPrintable c := fun n => by
    rw [decimal, numeral, Text.toList_ofList]
    exact isPrintable_numeralDigits n
  cases v with
  | none => cases hshown
  | text s =>
    cases hshown
    exact isPrintable_quote s
  | integer n =>
    cases hshown
    exact hdecimal n
  | bytes bs =>
    cases hshown
    exact isPrintable_quoteBytes bs
  | sized name size =>
    rw [inspect?_sized] at hshown
    cases hshown
    simp only [Text.toList_append, List.forall_mem_append]
    have hmarks : ("(" : Text).toList.all isPrintable ∧ (", " : Text).toList.all isPrintable ∧
        (")" : Text).toList.all isPrintable := by decide
    rw [List.all_eq_true, List.all_eq_true, List.all_eq_true] at hmarks
    exact ⟨⟨hmarks.1, ⟨isPrintable_quote name, hmarks.2.1⟩, hdecimal size⟩, hmarks.2.2⟩

end TokenValue

/-! ## Tokens -/

namespace TokenKind

/-- Kinds are told apart by their names. -/
theorem name_injective {a b : TokenKind} (h : a.name = b.name) : a = b := by
  have hnodup : (all.map name).Nodup := by decide +kernel
  exact List.inj_on_of_nodup_map hnodup (mem_all a) (mem_all b) h

/-- The name of a kind is made of letters, so no parenthesis is part of it. -/
theorem isLetter_name (kind : TokenKind) : ∀ c ∈ kind.name.toList, Lexeme.isLetter c := by
  have hletters : all.all fun kind => kind.name.toList.all Lexeme.isLetter := by decide +kernel
  exact List.all_eq_true.1 (List.all_eq_true.1 hletters kind (mem_all kind))

/-- The name of a kind is printable. -/
theorem isPrintable_name (kind : TokenKind) : ∀ c ∈ kind.name.toList, Text.isPrintable c := by
  cases kind <;> exact List.all_eq_true.1 (by decide +kernel)

end TokenKind

namespace Token

/-- What is shown of a token behind the name of its kind. -/
def suffix (t : Token) : List CodePoint :=
  match t.value.inspect? with
  | none => []
  | some text => scalar '(' :: (text.toList ++ [scalar ')'])

/-- A token is shown by the name of its kind and what stands behind it. -/
theorem toList_inspect (t : Token) :
    t.inspect.toList = ("Token." : Text).toList ++ (t.kind.name.toList ++ t.suffix) := by
  cases hv : t.value.inspect? with
  | none => simp [inspect, suffix, hv]
  | some text => simp [inspect, suffix, hv]

/-- No letter stands right behind the name of the kind. -/
theorem head_suffix (t : Token) : ∀ c ∈ t.suffix.head?, Lexeme.isLetter c = false := by
  have hopening : Lexeme.isLetter (scalar '(') = false := by decide
  unfold suffix
  split <;> simp [hopening]

/-- What stands behind the name tells the value. -/
theorem suffix_injective {t u : Token} (h : t.suffix = u.suffix) : t.value = u.value := by
  refine TokenValue.inspect?_injective ?_
  unfold suffix at h
  cases ht : t.value.inspect? with
  | none =>
    cases hu : u.value.inspect? with
    | none => rfl
    | some text => simp [ht, hu] at h
  | some text =>
    cases hu : u.value.inspect? with
    | none => simp [ht, hu] at h
    | some text' =>
      rw [ht, hu] at h
      have htext := List.append_cancel_right (List.cons.inj h).2
      rw [Text.toList_inj.1 htext]

/-- What is shown of a token tells its kind and its value. -/
theorem inspect_injective {t u : Token} (h : t.inspect = u.inspect) :
    t.kind = u.kind ∧ t.value = u.value := by
  rw [← Text.toList_inj, toList_inspect, toList_inspect] at h
  obtain ⟨hname, hsuffix⟩ := append_stop_unique t.kind.isLetter_name t.head_suffix
    u.kind.isLetter_name u.head_suffix (List.append_cancel_left h)
  exact ⟨TokenKind.name_injective (Text.toList_inj.1 hname), suffix_injective hsuffix⟩

/-- No hidden character is left in what is shown of a token. -/
theorem isPrintable_inspect (t : Token) : ∀ c ∈ t.inspect.toList, Text.isPrintable c := by
  rw [toList_inspect, List.forall_mem_append, List.forall_mem_append]
  refine ⟨List.all_eq_true.1 (by decide), t.kind.isPrintable_name, ?_⟩
  unfold suffix
  split
  · simp
  · next text htext =>
    rw [List.forall_mem_cons, List.forall_mem_append]
    exact ⟨by decide, TokenValue.isPrintable_inspect? text htext,
      List.all_eq_true.1 (by decide)⟩

end Token

/-! ## Lines -/

/-- The characters at which readers of texts break lines: line feed, vertical tab, form feed,
return, the separators of files, groups and records, next line, and the separators of lines and
paragraphs. -/
def lineBreaks : List CodePoint :=
  [scalar '\n', scalar '\x0b', scalar '\x0c', scalar '\r', scalar '\x1c', scalar '\x1d',
    scalar '\x1e', scalar '\u0085', scalar '\u2028', scalar '\u2029']

/-- Whether a line breaks at a character. -/
def breaksLine (c : CodePoint) : Bool :=
  lineBreaks.contains c

/-- No line breaks at what is shown of a token. -/
theorem breaksLine_inspect (t : Token) : ∀ c ∈ t.inspect.toList, breaksLine c = false := by
  have hhidden : ∀ c ∈ lineBreaks, !Text.isPrintable c := List.all_eq_true.1 (by decide +kernel)
  intro c hc
  cases hbreak : breaksLine c with
  | false => rfl
  | true =>
    have hnot := hhidden c (List.contains_iff_mem.1 hbreak)
    rw [t.isPrintable_inspect c hc] at hnot
    cases hnot

/-- The line of a token in a dump. -/
def Token.dumpLine (t : Token) : List CodePoint :=
  t.inspect.toList ++ [scalar ',']

/-- Lines tell kinds and values, and nothing else. -/
theorem Token.dumpLine_eq_iff {t u : Token} :
    t.dumpLine = u.dumpLine ↔ t.kind = u.kind ∧ t.value = u.value := by
  constructor
  · intro h
    exact inspect_injective (Text.toList_inj.1 (List.append_cancel_right h))
  · rintro ⟨hkind, hvalue⟩
    rw [dumpLine, dumpLine, inspect, inspect, hkind, hvalue]

/-- A dump is the lines of its tokens, each ended by a line feed. -/
theorem toList_tokenDump (ts : List Token) : (CommandLine.tokenDump ts).toList =
    (ts.map Token.dumpLine).flatMap (· ++ [scalar '\n']) := by
  rw [CommandLine.tokenDump, Text.toList_join, List.flatMap_map, List.flatMap_map]
  simp [Token.dumpLine, Text.toList_append]

/-- A dump is broken into the lines of its tokens. -/
theorem lines_tokenDump (ts : List Token) :
    (CommandLine.tokenDump ts).toList.splitOnP breaksLine = ts.map Token.dumpLine ++ [[]] := by
  rw [toList_tokenDump]
  induction ts with
  | nil => rfl
  | cons t ts ih =>
    have hline : ∀ c ∈ t.dumpLine, breaksLine c = false :=
      List.forall_mem_append.2 ⟨breaksLine_inspect t, List.forall_mem_singleton.2 (by decide)⟩
    rw [List.map_cons, List.flatMap_cons, List.append_assoc, List.singleton_append,
      List.splitOnP_append_cons_of_forall_mem hline (scalar '\n') (by decide), ih]
    rfl

/-- Dumps are equal exactly if their lines are. -/
theorem tokenDump_eq_iff {ts us : List Token} :
    CommandLine.tokenDump ts = CommandLine.tokenDump us ↔
      ts.map Token.dumpLine = us.map Token.dumpLine := by
  constructor
  · intro h
    have hlines := lines_tokenDump ts
    rw [h, lines_tokenDump us] at hlines
    exact (List.append_cancel_right hlines).symm
  · intro h
    rw [← Text.toList_inj, toList_tokenDump, toList_tokenDump, h]

/-- Two rows of tokens are dumped alike exactly if they are equal token by token in kind and value.
What is shown of a token holds no line break, and so a dump has exactly one line for each of its
tokens. -/
theorem tokenDump_faithful :
    (∀ ts us, CommandLine.tokenDump ts = CommandLine.tokenDump us ↔
      List.Forall₂ (fun t u : Token => t.kind = u.kind ∧ t.value = u.value) ts us) ∧
    (∀ t : Token, ∀ c ∈ t.inspect.toList, breaksLine c = false) ∧
    ∀ ts, (CommandLine.tokenDump ts).toList.splitOnP breaksLine =
      ts.map (fun t => t.inspect.toList ++ [scalar ',']) ++ [[]] := by
  refine ⟨fun ts us => ?_, breaksLine_inspect, lines_tokenDump⟩
  have hsame : List.Forall₂ Eq (ts.map Token.dumpLine) (us.map Token.dumpLine) ↔
      List.Forall₂ (fun t u : Token => t.kind = u.kind ∧ t.value = u.value) ts us := by
    rw [List.forall₂_map_left_iff, List.forall₂_map_right_iff]
    exact ⟨fun h => h.imp fun _ _ => Token.dumpLine_eq_iff.1,
      fun h => h.imp fun _ _ => Token.dumpLine_eq_iff.2⟩
  rw [tokenDump_eq_iff, ← hsame, List.forall₂_eq_eq_eq]

end ByteLayout
