import ByteLayout.Diagnostic.Problem
import ByteLayout.Program.Form
import ByteLayout.Text.Line
import ByteLayout.Token.Lexer

/-!
# Reading programs

Tokens as programs. Every part of the grammar has a reader that looks at the front of the tokens
and, if its part is there, answers with it and with the tokens after it:

* `form? = DEFINE id | GENERATE id [WITH] | type [AS id] | type AS id -> clauses | literal [AS id]
  | WHERE | id -> clauses | id = literal`
* `clauses? = clause ([,] clause)* [,]` and `clause? = id ( literal+ )`

A token counts as an identifier, a type or a literal only if its value suits its kind. `parse`
reads forms up to the end of the input and refuses the first place at which there is none,
`parseSource` reads a text, which must not be longer than a limit.
-/

namespace ByteLayout

/-- Looks for a part at the front of some tokens. -/
abbrev Reader (α : Type) := List Token → Option (α × List Token)

namespace Reader

/-! ## Single tokens -/

/-- The tokens after one of a kind. -/
def keyword? (kind : TokenKind) : List Token → Option (List Token)
  | [] => none
  | t :: rest => if t.kind = kind then some rest else none

/-- The text of a token of a kind. -/
def textOf? (kind : TokenKind) : Reader Text
  | [] => none
  | t :: rest =>
    match t.value with
    | .text text => if t.kind = kind then some (text, rest) else none
    | _ => none

/-- An identifier. -/
def identifier? : Reader Text :=
  textOf? .identifier

/-- A type name. -/
def typeName? : Reader Text :=
  textOf? .typeName

/-- The literal of a token, if its value suits its kind. -/
def literalOf? (t : Token) : Option Literal :=
  match t.kind, t.value with
  | .integer, .integer n => some (.integer n)
  | .text, .text s => some (.text s)
  | .bytes, .bytes bs => some (.bytes bs)
  | .reserved, .text name => some (.reserved name)
  | _, _ => none

/-- A literal. -/
def literal? : Reader Literal
  | [] => none
  | t :: rest => (literalOf? t).map fun l => (l, rest)

/-! ## Expressions and clauses -/

/-- An expression, which is a literal. -/
def expr? : Reader Expr := fun ts =>
  (literal? ts).map fun (l, rest) => (.literal l, rest)

/-- All literals at the front of some tokens, and the tokens after them. -/
def literals (ts : List Token) : List Literal × List Token :=
  ((ts.takeWhile fun t => (literalOf? t).isSome).filterMap literalOf?,
    ts.dropWhile fun t => (literalOf? t).isSome)

/-- The argument that some literals make: a single one stands for itself. -/
def argumentOf : List Literal → Expr
  | [l] => .literal l
  | ls => .group (ls.map .literal)

/-- Arguments in parentheses, at least one. -/
def arguments? : Reader Expr := fun ts => do
  let inner ← keyword? .leftParen ts
  match literals inner with
  | ([], _) => none
  | (l :: ls, rest) =>
    let rest ← keyword? .rightParen rest
    return (argumentOf (l :: ls), rest)

/-- An attribute with its arguments. -/
def clause? : Reader Clause := fun ts => do
  let (attr, ts) ← identifier? ts
  let (argument, ts) ← arguments? ts
  return (⟨attr, argument⟩, ts)

section Progress

variable {α : Type} {ts rest : List Token}

/-- A keyword that is read is the first token. -/
theorem keyword?_eq_some {kind : TokenKind} (h : keyword? kind ts = some rest) :
    ∃ t, ts = t :: rest ∧ t.kind = kind := by
  unfold keyword? at h
  split at h
  · cases h
  · split at h <;> simp_all

/-- A keyword takes a token. -/
theorem length_keyword? {kind : TokenKind} (h : keyword? kind ts = some rest) :
    rest.length < ts.length := by
  obtain ⟨t, rfl, -⟩ := keyword?_eq_some h
  simp

/-- A text takes a token. -/
theorem length_textOf? {kind : TokenKind} {text : Text}
    (h : textOf? kind ts = some (text, rest)) : rest.length < ts.length := by
  unfold textOf? at h
  repeat' split at h
  all_goals simp_all

/-- A literal takes a token. -/
theorem length_literal? {l : Literal} (h : literal? ts = some (l, rest)) :
    rest.length < ts.length := by
  unfold literal? at h
  split at h
  · cases h
  · simp only [Option.map_eq_some_iff, Prod.mk.injEq] at h
    obtain ⟨_, -, -, rfl⟩ := h
    simp

/-- An expression takes a token. -/
theorem length_expr? {e : Expr} (h : expr? ts = some (e, rest)) : rest.length < ts.length := by
  simp only [expr?, Option.map_eq_some_iff, Prod.mk.injEq, Prod.exists] at h
  obtain ⟨l, r, hl, -, rfl⟩ := h
  exact length_literal? hl

/-- Literals give no tokens back. -/
theorem length_literals (ts : List Token) : (literals ts).2.length ≤ ts.length :=
  (List.dropWhile_sublist _).length_le

/-- Arguments take tokens. -/
theorem length_arguments? {e : Expr} (h : arguments? ts = some (e, rest)) :
    rest.length < ts.length := by
  simp only [arguments?, Option.bind_eq_bind, Option.bind_eq_some_iff] at h
  obtain ⟨inner, hi, h⟩ := h
  have hl := length_literals inner
  split at h
  · cases h
  · rename_i heq
    rw [heq] at hl
    simp only [Option.bind_eq_some_iff, Option.pure_def, Option.some.injEq, Prod.mk.injEq] at h
    obtain ⟨r, hr, -, rfl⟩ := h
    have := length_keyword? hi
    have := length_keyword? hr
    simp only at hl
    omega

/-- A clause takes tokens. -/
theorem length_clause? {c : Clause} (h : clause? ts = some (c, rest)) :
    rest.length < ts.length := by
  simp only [clause?, Option.bind_eq_bind, Option.bind_eq_some_iff, Option.pure_def,
    Option.some.injEq, Prod.mk.injEq, Prod.exists] at h
  obtain ⟨attr, r, hr, e, r', hr', -, rfl⟩ := h
  have := length_textOf? hr
  have := length_arguments? hr'
  omega

end Progress

/-- The tokens after a comma, or all of them if they begin with none. -/
def skipComma (ts : List Token) : List Token :=
  (keyword? .comma ts).getD ts

/-- An optional comma gives no tokens back. -/
theorem length_skipComma (ts : List Token) : (skipComma ts).length ≤ ts.length := by
  unfold skipComma
  cases h : keyword? .comma ts with
  | none => simp
  | some rest => exact Nat.le_of_lt (length_keyword? h)

/-- All clauses at the front of some tokens, each perhaps after a comma, behind those in `read`,
which are in reverse order, and the tokens after them and after one comma more. -/
def moreClauses (read : List Clause) (ts : List Token) : List Clause × List Token :=
  match _h : clause? (skipComma ts) with
  | none => (read.reverse, skipComma ts)
  | some (c, rest) => moreClauses (c :: read) rest
termination_by ts.length
decreasing_by
  have := length_clause? _h
  have := length_skipComma ts
  omega

/-- Clauses, at least one. -/
def clauses? : Reader (List Clause) := fun ts => do
  let (c, ts) ← clause? ts
  return moreClauses [c] ts

/-! ## Forms -/

/-- A name after `AS`. Without a complete one there is no name and no token is taken. -/
def name (ts : List Token) : Option Text × List Token :=
  match (keyword? .asWord ts).bind identifier? with
  | none => (none, ts)
  | some (name, rest) => (some name, rest)

/-- `DEFINE id` -/
def group? : Reader Form := fun ts => do
  let ts ← keyword? .defineWord ts
  let (name, ts) ← identifier? ts
  return (.group name, ts)

/-- The tokens after a `WITH` at the front. One that nothing follows, not even the end of the input,
stays: it joins nothing. -/
def skipWith (ts : List Token) : List Token :=
  match keyword? .withWord ts with
  | some (t :: rest) => t :: rest
  | _ => ts

/-- `GENERATE id [WITH]` -/
def generator? : Reader Form := fun ts => do
  let ts ← keyword? .generateWord ts
  let (name, ts) ← identifier? ts
  return (.generator name, skipWith ts)

/-- `type [AS id]` or, before an arrow, `type AS id -> clauses`. -/
def field? : Reader Form := fun ts => do
  let (kind, ts) ← typeName? ts
  let (name, ts) := name ts
  match keyword? .rightArrow ts with
  | none => return (.field kind name, ts)
  | some ts =>
    let name ← name
    let (clauses, ts) ← clauses? ts
    return (.fieldWith kind name clauses, ts)

/-- `literal [AS id]` -/
def constant? : Reader Form := fun ts => do
  let (literal, ts) ← literal? ts
  let (name, ts) := name ts
  return (.constant literal name, ts)

/-- `WHERE` -/
def fieldsSection? : Reader Form := fun ts => do
  let ts ← keyword? .whereWord ts
  return (.fieldsSection, ts)

/-- `id -> clauses` -/
def update? : Reader Form := fun ts => do
  let (name, ts) ← identifier? ts
  let ts ← keyword? .rightArrow ts
  let (clauses, ts) ← clauses? ts
  return (.update name clauses, ts)

/-- `id = literal` -/
def parameter? : Reader Form := fun ts => do
  let (name, ts) ← identifier? ts
  let ts ← keyword? .assign ts
  let (value, ts) ← expr? ts
  return (.parameter name value, ts)

/-- The readers of forms, in the order in which they are asked. -/
def forms : List (Reader Form) :=
  [group?, generator?, field?, constant?, fieldsSection?, update?, parameter?]

/-- The first form that a reader finds. -/
def form? : Reader Form := fun ts =>
  forms.findSome? fun reader => reader ts

section Progress

variable {ts rest : List Token}

/-- Further clauses give no tokens back. -/
theorem length_moreClauses (read : List Clause) (ts : List Token) :
    (moreClauses read ts).2.length ≤ ts.length := by
  fun_induction moreClauses read ts with
  | case1 read ts h => exact length_skipComma ts
  | case2 read ts c rest h ih =>
    have := length_clause? h
    have := length_skipComma ts
    omega

/-- Clauses take tokens, since there is at least one. -/
theorem length_clauses? {cs : List Clause} (h : clauses? ts = some (cs, rest)) :
    rest.length < ts.length := by
  simp only [clauses?, Option.bind_eq_bind, Option.bind_eq_some_iff, Option.pure_def,
    Option.some.injEq, Prod.exists] at h
  obtain ⟨c, r, hr, h⟩ := h
  have := length_clause? hr
  have := length_moreClauses [c] r
  simp only [h] at this
  omega

/-- An optional name gives no tokens back. -/
theorem length_name (ts : List Token) : (name ts).2.length ≤ ts.length := by
  unfold name
  split
  · exact Nat.le_refl _
  · rename_i h
    simp only [Option.bind_eq_some_iff] at h
    obtain ⟨r, hr, h⟩ := h
    have := length_keyword? hr
    have := length_textOf? h
    simp only
    omega

/-- An optional `WITH` gives no tokens back. -/
theorem length_skipWith (ts : List Token) : (skipWith ts).length ≤ ts.length := by
  unfold skipWith
  split
  next h => exact Nat.le_of_lt (length_keyword? h)
  next => exact Nat.le_refl _

/-- The beginning of a group takes tokens. -/
theorem length_group? {f : Form} (h : group? ts = some (f, rest)) : rest.length < ts.length := by
  simp only [group?, Option.bind_eq_bind, Option.bind_eq_some_iff, Option.pure_def,
    Option.some.injEq, Prod.mk.injEq, Prod.exists] at h
  obtain ⟨r, hr, name, r', hr', -, rfl⟩ := h
  have := length_keyword? hr
  have := length_textOf? hr'
  omega

/-- The beginning of the generator takes tokens. -/
theorem length_generator? {f : Form} (h : generator? ts = some (f, rest)) :
    rest.length < ts.length := by
  simp only [generator?, Option.bind_eq_bind, Option.bind_eq_some_iff, Option.pure_def,
    Option.some.injEq, Prod.mk.injEq, Prod.exists] at h
  obtain ⟨r, hr, name, r', hr', -, rfl⟩ := h
  have := length_keyword? hr
  have := length_textOf? hr'
  have := length_skipWith r'
  omega

/-- A random field takes tokens. -/
theorem length_field? {f : Form} (h : field? ts = some (f, rest)) : rest.length < ts.length := by
  simp only [field?, Option.bind_eq_bind, Option.bind_eq_some_iff, Option.pure_def,
    Prod.exists] at h
  obtain ⟨kind, r, hr, h⟩ := h
  have := length_textOf? hr
  have := length_name r
  split at h
  · simp only [Option.some.injEq, Prod.mk.injEq] at h
    obtain ⟨-, rfl⟩ := h
    omega
  · rename_i r' hr'
    have := length_keyword? hr'
    simp only [Option.bind_eq_some_iff, Option.some.injEq, Prod.mk.injEq, Prod.exists] at h
    obtain ⟨_, -, cs, r'', hc, -, rfl⟩ := h
    have := length_clauses? hc
    omega

/-- A constant takes tokens. -/
theorem length_constant? {f : Form} (h : constant? ts = some (f, rest)) :
    rest.length < ts.length := by
  simp only [constant?, Option.bind_eq_bind, Option.bind_eq_some_iff, Option.pure_def,
    Option.some.injEq, Prod.mk.injEq, Prod.exists] at h
  obtain ⟨l, r, hr, -, rfl⟩ := h
  have := length_literal? hr
  have := length_name r
  omega

/-- The beginning of a section takes tokens. -/
theorem length_fieldsSection? {f : Form} (h : fieldsSection? ts = some (f, rest)) :
    rest.length < ts.length := by
  simp only [fieldsSection?, Option.bind_eq_bind, Option.bind_eq_some_iff, Option.pure_def,
    Option.some.injEq, Prod.mk.injEq] at h
  obtain ⟨r, hr, -, rfl⟩ := h
  exact length_keyword? hr

/-- An update takes tokens. -/
theorem length_update? {f : Form} (h : update? ts = some (f, rest)) : rest.length < ts.length := by
  simp only [update?, Option.bind_eq_bind, Option.bind_eq_some_iff, Option.pure_def,
    Option.some.injEq, Prod.mk.injEq, Prod.exists] at h
  obtain ⟨name, r, hr, r', hr', cs, r'', hc, -, rfl⟩ := h
  have := length_textOf? hr
  have := length_keyword? hr'
  have := length_clauses? hc
  omega

/-- A parameter takes tokens. -/
theorem length_parameter? {f : Form} (h : parameter? ts = some (f, rest)) :
    rest.length < ts.length := by
  simp only [parameter?, Option.bind_eq_bind, Option.bind_eq_some_iff, Option.pure_def,
    Option.some.injEq, Prod.mk.injEq, Prod.exists] at h
  obtain ⟨name, r, hr, r', hr', e, r'', he, -, rfl⟩ := h
  have := length_textOf? hr
  have := length_keyword? hr'
  have := length_expr? he
  omega

/-- A form takes at least one token. -/
theorem length_form? {f : Form} (h : form? ts = some (f, rest)) : rest.length < ts.length := by
  obtain ⟨reader, hm, h⟩ := List.exists_of_findSome?_eq_some h
  simp only [forms, List.mem_cons, List.not_mem_nil, or_false] at hm
  rcases hm with rfl | rfl | rfl | rfl | rfl | rfl | rfl
  · exact length_group? h
  · exact length_generator? h
  · exact length_field? h
  · exact length_constant? h
  · exact length_fieldsSection? h
  · exact length_update? h
  · exact length_parameter? h

end Progress

/-- All forms before the end of the input, behind those in `read`, which are in reverse order; or
the tokens from the first place on at which there is neither a form nor the end. -/
def formsFrom (read : List Form) (ts : List Token) : Except (List Token) (List Form) :=
  match ts with
  | [] => .error []
  | t :: rest =>
    if t.kind = .endOfInput then .ok read.reverse
    else
      match _h : form? (t :: rest) with
      | none => .error (t :: rest)
      | some (f, left) => formsFrom (f :: read) left
termination_by ts.length
decreasing_by exact length_form? _h

end Reader

/-! ## Programs -/

/-- Why some tokens are no program. -/
structure ParseError where
  /-- The cause. -/
  problem : Problem
  /-- The token at which no form begins. -/
  token : Option Token := none
  /-- The token after it. -/
  next : Option Token := none
  deriving DecidableEq, Repr

/-- The place of a token in the text that it was read from. -/
def Token.location? (t : Token) (source : Option Text) : Option Location := do
  let source ← source
  let span ← t.span
  let index := Text.LineIndex.ofText source.toList
  return { toSpan := span
           line := index.line span.start
           column := index.column span.start
           one_le_line := index.one_le_line _
           one_le_column := index.one_le_column _ }

/-- How a message calls a place without a token. -/
def endOfInputText : Text := "end of input"

/-- The error of a place, given by the tokens from it on. -/
def ParseError.atTokens (ts : List Token) (source : Option Text) : ParseError :=
  match ts with
  | [] => { problem := .unexpectedToken endOfInputText endOfInputText none }
  | t :: rest =>
    { problem := .unexpectedToken t.inspect ((rest.head?.map Token.inspect).getD endOfInputText)
        (t.location? source)
      token := some t
      next := rest.head? }

/-- The program of some tokens. The text that they were read from serves to place an error. -/
def parse (tokens : List Token) (source : Option Text := none) : Except ParseError Program :=
  match Reader.formsFrom [] tokens with
  | .ok forms => .ok (.ofForms forms)
  | .error left => .error (.atTokens left source)

/-- The number of characters of a text that is read, unless said otherwise. -/
def defaultSourceLimit : Int := 1024 * 1024

/-- Why a text is no program. -/
inductive SourceError where
  /-- The text cannot be cut into tokens. -/
  | lexing (e : DigitLimit)
  /-- The text is too long, or its tokens are no program. -/
  | parsing (e : ParseError)
  deriving DecidableEq, Repr

/-- The tokens of a text and the program that they make. A limit of zero or less is none. -/
def parseSource (source : Text) (limit : Int := defaultSourceLimit) :
    Except SourceError (List Token × Program) :=
  if 0 < limit ∧ limit < source.length then
    .error (.parsing { problem := .sourceTooLarge source.length limit })
  else
    match lex source with
    | .error e => .error (.lexing e)
    | .ok tokens =>
      match parse tokens (some source) with
      | .error e => .error (.parsing e)
      | .ok program => .ok (tokens, program)

end ByteLayout
