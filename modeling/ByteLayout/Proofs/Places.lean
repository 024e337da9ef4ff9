import ByteLayout.Proofs.Lexing
import ByteLayout.Program.Reader

/-!
# The readers see words only

A reader of programs looks at the kinds and the values of tokens and not at the places where they
stand: when the tokens change in nothing else, it answers with the same part and leaves the tokens
that it left before, changed in the same way (`Reader.form?_map`).

`parse_congr`: tokens with the same words are the same program, or they are none for the same cause
up to its place.
-/

namespace ByteLayout

variable {α : Type} {f : Token → Token}

namespace Reader

/-- A change of what a reader leaves. -/
abbrev onRest (f : Token → Token) (found : α × List Token) : α × List Token :=
  (found.1, found.2.map f)

section Places

variable (hf : ∀ t, (f t).word = t.word)

include hf

theorem kind_map (t : Token) : (f t).kind = t.kind :=
  Token.kind_eq_of_word (hf t)

theorem value_map (t : Token) : (f t).value = t.value :=
  Token.value_eq_of_word (hf t)

/-- A keyword is read wherever it stands. -/
theorem keyword?_map (kind : TokenKind) (ts : List Token) :
    keyword? kind (ts.map f) = (keyword? kind ts).map (List.map f) := by
  cases ts with
  | nil => rfl
  | cons t ts =>
    simp only [List.map_cons, keyword?, kind_map hf]
    split <;> rfl

/-- A text of a kind is read wherever it stands. -/
theorem textOf?_map (kind : TokenKind) (ts : List Token) :
    textOf? kind (ts.map f) = (textOf? kind ts).map (onRest f) := by
  cases ts with
  | nil => rfl
  | cons t ts =>
    simp only [List.map_cons, textOf?, kind_map hf, value_map hf]
    split
    · split <;> rfl
    · rfl

/-- A literal is the same wherever its token stands. -/
theorem literalOf?_map (t : Token) : literalOf? (f t) = literalOf? t := by
  rw [literalOf?, literalOf?, kind_map hf, value_map hf]

/-- A literal is read wherever it stands. -/
theorem literal?_map (ts : List Token) : literal? (ts.map f) = (literal? ts).map (onRest f) := by
  cases ts with
  | nil => rfl
  | cons t ts =>
    rw [List.map_cons, literal?, literal?, literalOf?_map hf]
    cases literalOf? t <;> rfl

/-- Literals are read wherever they stand. -/
theorem literals_map (ts : List Token) : literals (ts.map f) = onRest f (literals ts) := by
  have hcomp : literalOf? ∘ f = literalOf? := funext (literalOf?_map hf)
  have hsome : (fun t => (literalOf? t).isSome) ∘ f = fun t => (literalOf? t).isSome :=
    funext fun t => by rw [Function.comp_apply, literalOf?_map hf]
  rw [literals, literals, List.takeWhile_map, List.dropWhile_map, List.filterMap_map, hcomp, hsome]

/-- Arguments are read wherever they stand. -/
theorem arguments?_map (ts : List Token) :
    arguments? (ts.map f) = (arguments? ts).map (onRest f) := by
  simp only [arguments?, keyword?_map hf]
  cases keyword? .leftParen ts with
  | none => rfl
  | some inner =>
    simp only [Option.map_some, Option.bind_eq_bind, Option.bind_some, literals_map hf]
    rcases literals inner with ⟨_ | ⟨l, ls⟩, rest⟩
    · rfl
    · simp only [keyword?_map hf]
      cases keyword? .rightParen rest <;> rfl

/-- A clause is read wherever it stands. -/
theorem clause?_map (ts : List Token) : clause? (ts.map f) = (clause? ts).map (onRest f) := by
  simp only [clause?, identifier?, textOf?_map hf]
  cases textOf? .identifier ts with
  | none => rfl
  | some found =>
    simp only [Option.map_some, Option.bind_eq_bind, Option.bind_some, arguments?_map hf]
    cases arguments? found.2 <;> rfl

/-- A comma is passed over wherever it stands. -/
theorem skipComma_map (ts : List Token) : skipComma (ts.map f) = (skipComma ts).map f := by
  rw [skipComma, skipComma, keyword?_map hf]
  cases keyword? .comma ts <;> rfl

/-- Further clauses are read wherever they stand. -/
theorem moreClauses_map (read : List Clause) (ts : List Token) :
    moreClauses read (ts.map f) = onRest f (moreClauses read ts) := by
  fun_induction moreClauses read ts with
  | case1 read ts h =>
    rw [moreClauses, skipComma_map hf, clause?_map hf, h]
    rfl
  | case2 read ts c rest h ih =>
    rw [moreClauses, skipComma_map hf, clause?_map hf, h]
    exact ih

/-- Clauses are read wherever they stand. -/
theorem clauses?_map (ts : List Token) : clauses? (ts.map f) = (clauses? ts).map (onRest f) := by
  simp only [clauses?, clause?_map hf]
  cases clause? ts with
  | none => rfl
  | some found =>
    simp only [Option.map_some, Option.bind_eq_bind, Option.bind_some, moreClauses_map hf]
    rfl

/-- A name is read wherever it stands. -/
theorem name_map (ts : List Token) : name (ts.map f) = onRest f (name ts) := by
  simp only [name, identifier?, keyword?_map hf]
  cases keyword? .asWord ts with
  | none => rfl
  | some rest =>
    simp only [Option.map_some, Option.bind_some, textOf?_map hf]
    cases textOf? .identifier rest <;> rfl

/-- The beginning of a group is read wherever it stands. -/
theorem group?_map (ts : List Token) : group? (ts.map f) = (group? ts).map (onRest f) := by
  simp only [group?, identifier?, keyword?_map hf]
  cases keyword? .defineWord ts with
  | none => rfl
  | some rest =>
    simp only [Option.map_some, Option.bind_eq_bind, Option.bind_some, textOf?_map hf]
    cases textOf? .identifier rest <;> rfl

/-- `WITH` is passed over wherever it stands. -/
theorem skipWith_map (ts : List Token) : skipWith (ts.map f) = (skipWith ts).map f := by
  simp only [skipWith, keyword?_map hf]
  rcases keyword? .withWord ts with _ | _ | ⟨t, rest⟩ <;> rfl

/-- The beginning of the generator is read wherever it stands. -/
theorem generator?_map (ts : List Token) :
    generator? (ts.map f) = (generator? ts).map (onRest f) := by
  simp only [generator?, identifier?, keyword?_map hf]
  cases keyword? .generateWord ts with
  | none => rfl
  | some rest =>
    simp only [Option.map_some, Option.bind_eq_bind, Option.bind_some, textOf?_map hf]
    cases textOf? .identifier rest with
    | none => rfl
    | some found =>
      simp only [Option.map_some, Option.bind_some, skipWith_map hf]
      rfl

/-- A random field is read wherever it stands. -/
theorem field?_map (ts : List Token) : field? (ts.map f) = (field? ts).map (onRest f) := by
  simp only [field?, typeName?, textOf?_map hf]
  cases textOf? .typeName ts with
  | none => rfl
  | some found =>
    simp only [Option.map_some, Option.bind_eq_bind, Option.bind_some, name_map hf,
      keyword?_map hf]
    cases keyword? .rightArrow (name found.2).2 with
    | none => rfl
    | some rest =>
      simp only [Option.map_some, clauses?_map hf]
      cases (name found.2).1 with
      | none => rfl
      | some spelling => cases clauses? rest <;> rfl

/-- A constant is read wherever it stands. -/
theorem constant?_map (ts : List Token) :
    constant? (ts.map f) = (constant? ts).map (onRest f) := by
  simp only [constant?, literal?_map hf]
  cases literal? ts with
  | none => rfl
  | some found =>
    simp only [Option.map_some, Option.bind_eq_bind, Option.bind_some, name_map hf]
    rfl

/-- The beginning of a section is read wherever it stands. -/
theorem fieldsSection?_map (ts : List Token) :
    fieldsSection? (ts.map f) = (fieldsSection? ts).map (onRest f) := by
  simp only [fieldsSection?, keyword?_map hf]
  cases keyword? .whereWord ts <;> rfl

/-- An update is read wherever it stands. -/
theorem update?_map (ts : List Token) : update? (ts.map f) = (update? ts).map (onRest f) := by
  simp only [update?, identifier?, textOf?_map hf]
  cases textOf? .identifier ts with
  | none => rfl
  | some found =>
    simp only [Option.map_some, Option.bind_eq_bind, Option.bind_some, keyword?_map hf]
    cases keyword? .rightArrow found.2 with
    | none => rfl
    | some rest =>
      simp only [Option.map_some, Option.bind_some, clauses?_map hf]
      cases clauses? rest <;> rfl

/-- A parameter is read wherever it stands. -/
theorem parameter?_map (ts : List Token) :
    parameter? (ts.map f) = (parameter? ts).map (onRest f) := by
  simp only [parameter?, identifier?, expr?, textOf?_map hf]
  cases textOf? .identifier ts with
  | none => rfl
  | some found =>
    simp only [Option.map_some, Option.bind_eq_bind, Option.bind_some, keyword?_map hf]
    cases keyword? .assign found.2 with
    | none => rfl
    | some rest =>
      simp only [Option.map_some, Option.bind_some, literal?_map hf]
      cases literal? rest <;> rfl

/-- A form is found wherever its tokens stand. -/
theorem form?_map (ts : List Token) : form? (ts.map f) = (form? ts).map (onRest f) := by
  have hfirst : ∀ readers : List (Reader Form),
      (∀ reader ∈ readers, reader (ts.map f) = (reader ts).map (onRest f)) →
      readers.findSome? (fun reader => reader (ts.map f)) =
        (readers.findSome? fun reader => reader ts).map (onRest f) := by
    intro readers hreaders
    induction readers with
    | nil => rfl
    | cons reader readers ih =>
      rw [List.forall_mem_cons] at hreaders
      rw [List.findSome?_cons, List.findSome?_cons, hreaders.1]
      cases reader ts with
      | none => exact ih hreaders.2
      | some found => rfl
  refine hfirst forms fun reader hreader => ?_
  simp only [forms, List.mem_cons, List.not_mem_nil, or_false] at hreader
  rcases hreader with rfl | rfl | rfl | rfl | rfl | rfl | rfl
  · exact group?_map hf ts
  · exact generator?_map hf ts
  · exact field?_map hf ts
  · exact constant?_map hf ts
  · exact fieldsSection?_map hf ts
  · exact update?_map hf ts
  · exact parameter?_map hf ts

/-- Tokens are forms wherever they stand, or they fail to be at the same one of them. -/
theorem formsFrom_map (read : List Form) (ts : List Token) :
    formsFrom read (ts.map f) = (formsFrom read ts).mapError (List.map f) := by
  fun_induction formsFrom read ts with
  | case1 =>
    rw [List.map_nil, formsFrom]
    rfl
  | case2 read t rest h =>
    rw [List.map_cons, formsFrom, if_pos ((kind_map hf t).trans h)]
    rfl
  | case3 read t rest hend h =>
    have hform := form?_map hf (t :: rest)
    rw [h] at hform
    rw [List.map_cons, formsFrom, if_neg (by rwa [kind_map hf])]
    rw [List.map_cons] at hform
    split
    · rfl
    · simp_all
  | case4 read t rest hend found left h ih =>
    have hform := form?_map hf (t :: rest)
    rw [h, List.map_cons] at hform
    rw [List.map_cons, formsFrom, if_neg (by rwa [kind_map hf])]
    split
    · simp_all
    · simp_all

end Places

end Reader

/-! ## Programs -/

/-- The message of a token that is out of place does not tell its place. -/
theorem message_atTokens_map (hf : ∀ t, (f t).word = t.word) (ts : List Token)
    (a b : Option Text) :
    (ParseError.atTokens (ts.map f) b).problem.message =
      (ParseError.atTokens ts a).problem.message := by
  have hinspect : ∀ t, (f t).inspect = t.inspect := fun t => by
    rw [Token.inspect, Token.inspect, Reader.kind_map hf, Reader.value_map hf]
  rcases ts with _ | ⟨t, _ | ⟨u, rest⟩⟩
  · rfl
  · simp only [List.map_cons, List.map_nil, ParseError.atTokens, hinspect]
    rfl
  · simp only [List.map_cons, ParseError.atTokens, hinspect, List.head?_cons, Option.map_some]
    rfl

/-- Tokens with the same words are the same program, or none for the same cause up to its place. -/
theorem parse_congr {ts us : List Token} (h : ts.map Token.word = us.map Token.word)
    (a b : Option Text) :
    (∃ p, parse ts a = .ok p ∧ parse us b = .ok p) ∨
      ∃ e e', parse ts a = .error e ∧ parse us b = .error e' ∧
        e.problem.message = e'.problem.message := by
  -- Both are read as the tokens without places are.
  have hplace : ∀ t : Token, ({ t with span := none } : Token).word = t.word := fun _ => rfl
  have hsame : ts.map (fun t => { t with span := none }) =
      us.map fun t => { t with span := none } := by
    have hword : (fun t : Token => ({ t with span := none } : Token)) =
      (fun w : Word => ⟨w.1, w.2, none⟩) ∘ Token.word := rfl
    rw [hword, ← List.map_map, ← List.map_map, h]
  have hts := Reader.formsFrom_map hplace [] ts
  have hus := Reader.formsFrom_map hplace [] us
  rw [hsame, hus] at hts
  unfold parse
  cases hleft : Reader.formsFrom [] ts with
  | ok forms =>
    cases hright : Reader.formsFrom [] us with
    | ok forms' =>
      rw [hleft, hright] at hts
      cases hts
      exact .inl ⟨_, rfl, rfl⟩
    | error left' =>
      rw [hleft, hright] at hts
      cases hts
  | error left =>
    cases hright : Reader.formsFrom [] us with
    | ok forms' =>
      rw [hleft, hright] at hts
      cases hts
    | error left' =>
      rw [hleft, hright] at hts
      have hleft' := Except.error.inj hts
      refine .inr ⟨_, _, rfl, rfl, ?_⟩
      rw [← message_atTokens_map hplace left a none, ← hleft', message_atTokens_map hplace left' b]

end ByteLayout
