import ByteLayout.Token.Stream
import ByteLayout.Proofs.Decomposition
import ByteLayout.Proofs.Lists
import ByteLayout.Proofs.Results

/-!
# Rules as walks

The readers of parts look at lists of tokens, which they cannot read past the end of. A `Walk` is a
rule as it moves over a stream: it asks whether the stream is exhausted before it looks at the
current token, which is an error where there is none, it tries a part and keeps its place if the
part is not there, and its loops have only so many rounds, after which it breaks off.

`Walk.Follows` says that a walk never breaks off and finds what a reader finds in the tokens that
are left, without passing an end of the input. It is kept when walks are put one after the other
(`Follows.andThen`) or tried in turn (`Follows.firstOf`); only the loops need an induction over
their rounds.
-/

namespace ByteLayout

/-- Why a walk breaks off. -/
inductive WalkError where
  /-- A token is read where there is none. -/
  | stream (e : StreamError)
  /-- A loop has used up its rounds. -/
  | rounds
  deriving DecidableEq, Repr

/-- Looks for a part at the place of a stream: the part and the stream behind it, if it is there. -/
abbrev Walk (α : Type) := TokenStream → Except WalkError (Option (α × TokenStream))

namespace Walk

/-! ## Walks -/

section Combinators

variable {α β : Type}

/-- A part that is there without a token. -/
def found (a : α) : Walk α := fun s =>
  .ok (some (a, s))

/-- No part. -/
def nothing : Walk α := fun _ =>
  .ok none

/-- A part and, if it is there, the next one. -/
def andThen (walk : Walk α) (next : α → Walk β) : Walk β := fun s => do
  match ← walk s with
  | none => return none
  | some (a, s) => next a s

/-- The first part that is there. -/
def firstOf : List (Walk α) → Walk α
  | [], _ => .ok none
  | walk :: walks, s => do
    match ← walk s with
    | none => firstOf walks s
    | some found => return some found

end Combinators

/-- A token of a kind. -/
def keyword? (kind : TokenKind) : Walk Unit := fun s =>
  .ok ((s.expect? kind).map fun s => ((), s))

/-- What the current token stands for, if it stands for anything. -/
def token? {α : Type} (meaning : Token → Option α) : Walk α := fun s => do
  if s.isExhausted then return none
  let t ← s.current.mapError .stream
  return (meaning t).map fun a => (a, s.advance)

/-- The text of a token of a kind. -/
def textOf? (kind : TokenKind) : Walk Text :=
  token? fun t =>
    match t.value with
    | .text text => if t.kind = kind then some text else none
    | _ => none

/-- A literal. -/
def literal? : Walk Literal :=
  token? Reader.literalOf?

/-- An expression. -/
def expr? : Walk Expr :=
  literal?.andThen fun l => found (.literal l)

/-- Expressions, as long as there are some, behind those in `items`. A round is used up by each. -/
def argumentLoop : Nat → List Expr → TokenStream → Except WalkError (List Expr × TokenStream)
  | 0, items, s => do
    match ← expr? s with
    | none => return (items, s)
    | some _ => throw .rounds
  | rounds + 1, items, s => do
    match ← expr? s with
    | none => return (items, s)
    | some (e, s) => argumentLoop rounds (items ++ [e]) s

/-- The argument that some expressions make: a single one stands for itself. -/
def argumentOf : List Expr → Expr
  | [e] => e
  | es => .group es

/-- All expressions, with a round for each token. -/
def exprs : Walk (List Expr) := fun s =>
  (argumentLoop s.length [] s).map some

/-- The second parenthesis behind some expressions, if there are any. -/
def argumentsEnd? : List Expr → Walk Expr
  | [] => nothing
  | e :: es => (keyword? .rightParen).andThen fun _ => found (argumentOf (e :: es))

/-- Arguments in parentheses, at least one. -/
def arguments? : Walk Expr :=
  (keyword? .leftParen).andThen fun _ => exprs.andThen argumentsEnd?

/-- An attribute with its arguments. -/
def clause? : Walk Clause :=
  (textOf? .identifier).andThen fun attr => arguments?.andThen fun e => found ⟨attr, e⟩

/-- Clauses behind those in `read`, each perhaps after a comma, until there is none. -/
def clauseLoop : Nat → List Clause → TokenStream → Except WalkError (List Clause × TokenStream)
  | 0, _, _ => throw .rounds
  | rounds + 1, read, s => do
    let s := (s.expect? .comma).getD s
    match ← clause? s with
    | none => return (read, s)
    | some (c, s) => clauseLoop rounds (read ++ [c]) s

/-- Clauses, with a round for each token from the first clause on: the last round finds none. -/
def clauses? : Walk (List Clause) := fun s =>
  clause?.andThen (fun c s' => (clauseLoop s.length [c] s').map some) s

/-- A name after `AS`, if it is there. -/
def name? : Walk (Option Text) := fun s => do
  match ← (keyword? .asWord).andThen (fun _ => textOf? .identifier) s with
  | none => return some (none, s)
  | some (name, s) => return some (some name, s)

/-- `DEFINE id` -/
def group? : Walk Form :=
  (keyword? .defineWord).andThen fun _ => (textOf? .identifier).andThen fun name =>
    found (.group name)

/-- A `WITH`, if it is there and something is left behind it: a stream without tokens counts as
none. -/
def join? : Walk Unit := fun s =>
  match s.expect? .withWord with
  | none => .ok (some ((), s))
  | some s' => .ok (some ((), if s'.length = 0 then s else s'))

/-- `GENERATE id [WITH]` -/
def generator? : Walk Form :=
  (keyword? .generateWord).andThen fun _ => (textOf? .identifier).andThen fun name =>
    join?.andThen fun _ => found (.generator name)

/-- The end of a field: nothing, or an arrow and clauses if the field has a name. -/
def fieldEnd? (kind : Text) (name : Option Text) : Walk Form := fun s =>
  match s.expect? .rightArrow with
  | none => found (.field kind name) s
  | some s =>
    match name with
    | none => .ok none
    | some name => clauses?.andThen (fun cs => found (.fieldWith kind name cs)) s

/-- `type [AS id]` or `type AS id -> clauses` -/
def field? : Walk Form :=
  (textOf? .typeName).andThen fun kind => name?.andThen fun name => fieldEnd? kind name

/-- `literal [AS id]` -/
def constant? : Walk Form :=
  literal?.andThen fun l => name?.andThen fun name => found (.constant l name)

/-- `WHERE` -/
def fieldsSection? : Walk Form :=
  (keyword? .whereWord).andThen fun _ => found .fieldsSection

/-- `id -> clauses` -/
def update? : Walk Form :=
  (textOf? .identifier).andThen fun name => (keyword? .rightArrow).andThen fun _ =>
    clauses?.andThen fun cs => found (.update name cs)

/-- `id = literal` -/
def parameter? : Walk Form :=
  (textOf? .identifier).andThen fun name => (keyword? .assign).andThen fun _ =>
    expr?.andThen fun value => found (.parameter name value)

/-- The walks to forms, in the order in which they are tried. -/
def forms : List (Walk Form) :=
  [group?, generator?, field?, constant?, fieldsSection?, update?, parameter?]

/-- The first form that is there. -/
def form? : Walk Form :=
  firstOf forms

/-- What is made of the forms in `read` at the end of a stream, if the input ends there. -/
def formsUpTo (read : List Form) (s : TokenStream) : Except TokenStream (List Form) :=
  if (s.expect? .endOfInput).isSome then .ok read else .error s

/-- Forms up to the end of the stream, behind those in `read`; or the stream where there is neither
a form nor the end of the input. A round is used up by each place that is not the end. -/
def formLoop : Nat → List Form → TokenStream → Except WalkError (Except TokenStream (List Form))
  | 0, read, s => if s.isAtEnd then return formsUpTo read s else throw .rounds
  | rounds + 1, read, s => do
    if s.isAtEnd then return formsUpTo read s
    match ← form? s with
    | none => return .error s
    | some (f, s) => formLoop rounds (read ++ [f]) s

/-- The forms of a sequence of tokens, with a round for each. -/
def formsOf (tokens : List Token) : Except WalkError (Except TokenStream (List Form)) :=
  formLoop tokens.length [] { tokens }

end Walk

/-! ## Places in a stream -/

namespace TokenStream

variable {s : TokenStream} {t : Token} {us vs rest rest' : List Token}

/-- The stream that has these tokens left of its own. -/
def after (s : TokenStream) (rest : List Token) : TokenStream :=
  { s with position := s.position + (s.remaining.length - rest.length) }

theorem after_self (s : TokenStream) : s.after s.remaining = s := by
  simp [after]

/-- A stream moved to a rest of its tokens has this rest left. -/
theorem remaining_after (h : us ++ rest = s.remaining) : (s.after rest).remaining = rest := by
  have hlength : s.remaining.length - rest.length = us.length := by
    rw [← h, List.length_append, Nat.add_sub_cancel]
  rw [remaining, after, hlength, ← List.drop_drop]
  show s.remaining.drop us.length = rest
  rw [← h, List.drop_left]

/-- A stream moved to a rest of its tokens is as long as the rest. -/
theorem length_after (h : us ++ rest = s.remaining) : (s.after rest).length = rest.length := by
  rw [← length_remaining, remaining_after h]

/-- A stream may be moved in two steps or in one. -/
theorem after_after (h : us ++ rest = s.remaining) (h' : vs ++ rest' = rest) :
    (s.after rest).after rest' = s.after rest' := by
  have hlength := congrArg List.length h
  have hlength' := congrArg List.length h'
  rw [List.length_append] at hlength hlength'
  rw [after, remaining_after h, after, after]
  congr 1
  show s.position + (s.remaining.length - rest.length) + (rest.length - rest'.length) = _
  omega

/-- A step moves a stream behind its first token. -/
theorem advance_eq (h : s.remaining = t :: rest) : s.advance = s.after rest := by
  have hlength := congrArg List.length h
  rw [length_remaining, TokenStream.length, List.length_cons] at hlength
  rw [advance, after, h, List.length_cons]
  congr 1
  omega

/-- A stream expects a kind as the reader of the kind does. -/
theorem expect?_eq (s : TokenStream) (kind : TokenKind) :
    s.expect? kind = (Reader.keyword? kind s.remaining).map s.after := by
  unfold expect? Reader.keyword?
  cases h : s.remaining with
  | nil => rfl
  | cons t rest =>
    dsimp only
    split
    · rw [advance_eq h]
      rfl
    · rfl

/-- A stream is read as the tokens that it has left. -/
theorem read?_eq {α : Type} (s : TokenStream) (reader : Reader α) :
    s.read? reader = (reader s.remaining).map fun (a, rest) => (a, s.after rest) := rfl

end TokenStream

/-! ## Walks that follow readers -/

/-- No token of a part ends the input. -/
theorem Grammar.ne_endOfInput {kind : TokenKind} (h : kind ∈ formKinds) : kind ≠ .endOfInput := by
  have hkinds : ∀ kind ∈ formKinds, kind ≠ .endOfInput := by decide
  exact hkinds kind h

/-- A reader takes tokens at the front, and none of them ends the input. -/
def Reader.Takes {α : Type} (reader : Reader α) : Prop :=
  ∀ {ts a rest}, reader ts = some (a, rest) →
    ∃ us, us ++ rest = ts ∧ ∀ t ∈ us, t.kind ≠ .endOfInput

namespace Walk

/-- A walk finds what a reader of its own finds, and does not break off. -/
structure Follows {α : Type} (walk : Walk α) (reader : Reader α) : Prop where
  /-- The walk finds what the reader finds. -/
  eq : ∀ s, walk s = .ok (s.read? reader)
  /-- The reader takes tokens at the front. -/
  takes : reader.Takes

section Follows

variable {α β : Type} {walk : Walk α} {reader reader' : Reader α} {next : α → Walk β}
  {readNext : α → Reader β} {s : TokenStream} {kind : TokenKind} {us rest : List Token} {a : α}

/-- What a walk follows may be told in another way. -/
theorem Follows.congr (h : Follows walk reader) (heq : ∀ ts, reader ts = reader' ts) :
    Follows walk reader' :=
  funext heq ▸ h

/-- What is found behind the tokens that are taken. -/
theorem Follows.eq_after (h : Follows walk reader) (hrest : us ++ rest = s.remaining) :
    walk (s.after rest) = .ok ((reader rest).map fun (a, rest) => (a, s.after rest)) := by
  rw [h.eq, TokenStream.read?_eq, TokenStream.remaining_after hrest]
  cases hread : reader rest with
  | none => rfl
  | some found =>
    obtain ⟨a, rest'⟩ := found
    obtain ⟨vs, hvs, -⟩ := h.takes hread
    show Except.ok (some (a, (s.after rest).after rest')) = .ok (some (a, s.after rest'))
    rw [TokenStream.after_after hrest hvs]

/-- A walk that finds something at once follows the reader that takes nothing. -/
theorem found_follows (a : α) : Follows (found a) fun ts => some (a, ts) where
  eq s := by
    show Except.ok (some (a, s)) = .ok (some (a, s.after s.remaining))
    rw [s.after_self]
  takes := by
    intro ts a rest h
    cases h
    exact ⟨[], rfl, List.forall_mem_nil _⟩

/-- A walk that finds nothing follows the reader that fails. -/
theorem nothing_follows : Follows (nothing : Walk α) fun _ => none where
  eq _ := rfl
  takes h := by cases h

/-- Where one part is read behind another, so it is found there. -/
theorem Follows.andThen (h : Follows walk reader) (hnext : ∀ a, Follows (next a) (readNext a)) :
    Follows (walk.andThen next) fun ts => (reader ts).bind fun (a, rest) => readNext a rest where
  eq s := by
    rw [TokenStream.read?_eq, Walk.andThen, h.eq, TokenStream.read?_eq]
    cases hread : reader s.remaining with
    | none => rfl
    | some found =>
      obtain ⟨a, rest⟩ := found
      obtain ⟨us, hus, -⟩ := h.takes hread
      exact (hnext a).eq_after hus
  takes := by
    intro ts b rest' h'
    obtain ⟨⟨a, rest⟩, hread, hread'⟩ := Option.bind_eq_some_iff.1 h'
    obtain ⟨us, rfl, hus⟩ := h.takes hread
    obtain ⟨vs, rfl, hvs⟩ := (hnext a).takes hread'
    exact ⟨us ++ vs, List.append_assoc us vs rest', List.forall_mem_append.2 ⟨hus, hvs⟩⟩

/-- Where parts are read in turn, so they are found. -/
theorem Follows.firstOf {walks : List (Walk α)} {readers : List (Reader α)}
    (h : List.Forall₂ Follows walks readers) :
    Follows (Walk.firstOf walks) fun ts => readers.findSome? fun reader => reader ts := by
  induction h with
  | nil => exact ⟨fun s => rfl, fun h => by cases h⟩
  | @cons walk reader walks readers hwalk _ ih =>
    refine ⟨fun s => ?_, fun {ts a rest} h => ?_⟩
    · rw [TokenStream.read?_eq, Walk.firstOf, hwalk.eq, TokenStream.read?_eq, List.findSome?_cons]
      cases hread : reader s.remaining with
      | none => exact ih.eq s
      | some found => rfl
    · rw [List.findSome?_cons] at h
      split at h
      · next found hread =>
        cases h
        exact hwalk.takes hread
      · exact ih.takes h

end Follows

/-! ## Tokens -/

/-- The walk past a keyword follows the reader of the keyword. -/
theorem keyword?_follows {kind : TokenKind} (hkind : kind ≠ .endOfInput) :
    Follows (keyword? kind) fun ts => (Reader.keyword? kind ts).map fun rest => ((), rest) where
  eq s := by
    rw [keyword?, TokenStream.expect?_eq, TokenStream.read?_eq, Option.map_map, Option.map_map]
    rfl
  takes := by
    intro ts a rest h
    obtain ⟨rest', hread, hrest⟩ := Option.map_eq_some_iff.1 h
    cases hrest
    obtain ⟨t, rfl, ht⟩ := Reader.keyword?_eq_some hread
    exact ⟨[t], rfl, List.forall_mem_singleton.2 (ht ▸ hkind)⟩

/-- What is found behind a token of a kind. -/
theorem Follows.behind {α : Type} {walk : Walk α} {reader : Reader α} (h : Follows walk reader)
    {kind : TokenKind} (hkind : kind ≠ .endOfInput) :
    Follows ((keyword? kind).andThen fun _ => walk) fun ts =>
      (Reader.keyword? kind ts).bind reader := by
  refine ((keyword?_follows hkind).andThen fun _ => h).congr fun ts => ?_
  cases Reader.keyword? kind ts <;> rfl

/-- A walk past one token follows the reader that looks at the first token alone. -/
theorem token?_follows {α : Type} {meaning : Token → Option α} {reader : Reader α}
    (hnil : reader [] = none)
    (hcons : ∀ t rest, reader (t :: rest) = (meaning t).map fun a => (a, rest))
    (hkind : ∀ t, meaning t ≠ none → t.kind ≠ .endOfInput) : Follows (token? meaning) reader where
  eq s := by
    rw [TokenStream.read?_eq, token?]
    cases h : s.remaining with
    | nil =>
      rw [if_pos (s.isExhausted_iff.2 h), hnil]
      rfl
    | cons t rest =>
      have hcurrent : s.current = .ok t := by rw [TokenStream.current, h]
      rw [if_neg (by simp [s.isExhausted_iff, h]), hcurrent, hcons, TokenStream.advance_eq h,
        Option.map_map]
      rfl
  takes := by
    intro ts a rest h
    cases ts with
    | nil =>
      rw [hnil] at h
      cases h
    | cons t ts =>
      rw [hcons] at h
      obtain ⟨a', hmeaning, hrest⟩ := Option.map_eq_some_iff.1 h
      cases hrest
      exact ⟨[t], rfl, List.forall_mem_singleton.2 (hkind t (by simp [hmeaning]))⟩

/-- The walk past a text of a kind follows its reader. -/
theorem textOf?_follows {kind : TokenKind} (hkind : kind ≠ .endOfInput) :
    Follows (textOf? kind) (Reader.textOf? kind) := by
  refine token?_follows rfl (fun t rest => ?_) (fun t ht heq => ht ?_)
  · obtain ⟨kind', value, span⟩ := t
    cases value with
    | text text => by_cases h : kind' = kind <;> simp [Reader.textOf?, h]
    | _ => rfl
  · split
    · rw [heq, if_neg hkind.symm]
    · rfl

/-- The walk past an identifier follows its reader. -/
theorem identifier?_follows : Follows (textOf? .identifier) Reader.identifier? :=
  textOf?_follows (by decide)

/-- The walk past a type follows its reader. -/
theorem typeName?_follows : Follows (textOf? .typeName) Reader.typeName? :=
  textOf?_follows (by decide)

/-- The walk past a literal follows its reader. -/
theorem literal?_follows : Follows literal? Reader.literal? := by
  refine token?_follows rfl (fun t rest => rfl) (fun t ht heq => ht ?_)
  simp [Reader.literalOf?, heq]

/-! ## Clauses -/

/-- The walk past an expression follows its reader. -/
theorem expr?_follows : Follows expr? Reader.expr? := by
  refine (literal?_follows.andThen fun l => found_follows (Expr.literal l)).congr fun ts => ?_
  rw [Reader.expr?, Option.map_eq_bind]
  rfl

/-- Where no literal follows, the literals end. -/
theorem literals_eq_nil {ts : List Token} (h : Reader.literal? ts = none) :
    Reader.literals ts = ([], ts) := by
  cases ts with
  | nil => rfl
  | cons t ts =>
    have hnone : Reader.literalOf? t = none := Option.map_eq_none_iff.1 h
    simp [Reader.literals, hnone]

/-- A literal is read, and then those behind it. -/
theorem literals_eq_cons {ts rest : List Token} {l : Literal}
    (h : Reader.literal? ts = some (l, rest)) :
    Reader.literals ts = (l :: (Reader.literals rest).1, (Reader.literals rest).2) := by
  obtain ⟨t, rfl, ht⟩ := Reader.literal?_sound h
  simp [Reader.literals, ht.literalOf?]

/-- The literals that are read are those of the tokens that were taken. -/
theorem literals_takes : Reader.Takes fun ts => some (Reader.literals ts) := by
  intro ts ls rest h
  obtain ⟨us, hus, hls⟩ := Reader.literals_sound ts
  rw [Option.some.inj h] at hus hls
  refine ⟨us, hus.symm, fun t ht => ?_⟩
  obtain ⟨l, -, hl⟩ := forall₂_of_mem_left hls ht
  exact Grammar.ne_endOfInput (Grammar.denotes_kind_mem hl)

/-- The loop over expressions takes all literals, in at most as many rounds as tokens are left. -/
theorem argumentLoop_eq {rounds : Nat} {s : TokenStream} (h : s.length ≤ rounds)
    (items : List Expr) : argumentLoop rounds items s =
      .ok (items ++ (Reader.literals s.remaining).1.map .literal,
        s.after (Reader.literals s.remaining).2) := by
  induction rounds generalizing s items with
  | zero =>
    have hnil : s.remaining = [] := List.eq_nil_of_length_eq_zero (by simpa using h)
    have hexpr : expr? s = .ok none := by
      rw [expr?_follows.eq, TokenStream.read?_eq, hnil]
      rfl
    have hliterals : Reader.literals s.remaining = ([], s.remaining) := by
      rw [hnil]
      rfl
    rw [argumentLoop, hexpr, hliterals, s.after_self, List.map_nil, List.append_nil]
    rfl
  | succ rounds ih =>
    have hexpr := expr?_follows.eq s
    rw [TokenStream.read?_eq, Reader.expr?] at hexpr
    cases hread : Reader.literal? s.remaining with
    | none =>
      rw [hread] at hexpr
      rw [argumentLoop, hexpr, literals_eq_nil hread, s.after_self, List.map_nil, List.append_nil]
      rfl
    | some found =>
      obtain ⟨l, rest⟩ := found
      obtain ⟨t, hrest, -⟩ := Reader.literal?_sound hread
      have hsuffix : [t] ++ rest = s.remaining := hrest.symm
      have hlength : (s.after rest).length ≤ rounds := by
        rw [← TokenStream.length_remaining, hrest, List.length_cons] at h
        rw [TokenStream.length_after hsuffix]
        omega
      obtain ⟨vs, hvs, -⟩ := Reader.literals_sound rest
      rw [hread] at hexpr
      rw [argumentLoop, hexpr, literals_eq_cons hread]
      show argumentLoop rounds (items ++ [.literal l]) (s.after rest) = _
      rw [ih hlength, TokenStream.remaining_after hsuffix, TokenStream.after_after hsuffix hvs.symm]
      simp

/-- Arguments are made alike of literals and of their expressions. -/
theorem argumentOf_literals (ls : List Literal) :
    argumentOf (ls.map .literal) = Reader.argumentOf ls := by
  match ls with
  | [] => rfl
  | [_] => rfl
  | _ :: _ :: _ => rfl

/-- The walk past expressions follows the reader of literals. -/
theorem exprs_follows : Follows exprs fun ts =>
    some ((Reader.literals ts).1.map .literal, (Reader.literals ts).2) where
  eq s := by
    rw [exprs, argumentLoop_eq (Nat.le_refl _)]
    rfl
  takes := by
    intro ts es rest h
    cases h
    exact literals_takes rfl

/-- Behind the items a parenthesis closes, and there is at least one item. -/
theorem argumentsEnd?_follows (items : List Expr) : Follows (argumentsEnd? items) fun ts =>
    match items with
    | [] => none
    | e :: es => (Reader.keyword? .rightParen ts).bind fun rest =>
        some (argumentOf (e :: es), rest) := by
  cases items with
  | nil => exact nothing_follows
  | cons e es => exact (found_follows (argumentOf (e :: es))).behind (by decide)

/-- The walk past arguments follows their reader. -/
theorem arguments?_follows : Follows arguments? Reader.arguments? := by
  refine ((exprs_follows.andThen argumentsEnd?_follows).behind (by decide)).congr fun ts => ?_
  cases hopen : Reader.keyword? .leftParen ts with
  | none => simp [Reader.arguments?, hopen]
  | some inner =>
    cases hls : Reader.literals inner with
    | mk ls rest =>
      cases ls with
      | nil => simp [Reader.arguments?, hopen, hls]
      | cons l ls =>
        have hargument := argumentOf_literals (l :: ls)
        rw [List.map_cons] at hargument
        simp [Reader.arguments?, hopen, hls, hargument]

/-- The walk past a clause follows its reader. -/
theorem clause?_follows : Follows clause? Reader.clause? := by
  refine (identifier?_follows.andThen fun attr => arguments?_follows.andThen fun e =>
    found_follows (Clause.mk attr e)).congr fun ts => ?_
  rfl

/-- A stream moves past an optional comma as the reader does. -/
theorem skipComma_eq (s : TokenStream) :
    (s.expect? .comma).getD s = s.after (Reader.skipComma s.remaining) := by
  rw [TokenStream.expect?_eq, Reader.skipComma]
  cases Reader.keyword? .comma s.remaining with
  | none => exact s.after_self.symm
  | some rest => rfl

/-- What is left behind an optional comma is an end of the tokens. -/
theorem suffix_skipComma (ts : List Token) : ∃ us, us ++ Reader.skipComma ts = ts := by
  rcases Reader.skipComma_cases ts with h | ⟨k, -, h⟩
  · exact ⟨[], h⟩
  · exact ⟨[k], h.symm⟩

/-- What is left behind clauses is an end of the tokens. -/
theorem suffix_moreClauses (read : List Clause) (ts : List Token) :
    ∃ us, us ++ (Reader.moreClauses read ts).2 = ts := by
  fun_induction Reader.moreClauses read ts with
  | case1 read ts h => exact suffix_skipComma ts
  | case2 read ts c rest h ih =>
    obtain ⟨us, hus⟩ := suffix_skipComma ts
    obtain ⟨vs, hvs, -⟩ := Reader.clause?_sound h
    obtain ⟨ws, hws⟩ := ih
    exact ⟨us ++ (vs ++ ws), by rw [List.append_assoc, List.append_assoc, hws, ← hvs, hus]⟩

/-- The loop over clauses takes all of them, in at most one round more than tokens are left. -/
theorem clauseLoop_eq {rounds : Nat} {s : TokenStream} (h : s.length < rounds)
    (read : List Clause) : clauseLoop rounds read s =
      .ok ((Reader.moreClauses read.reverse s.remaining).1,
        s.after (Reader.moreClauses read.reverse s.remaining).2) := by
  induction rounds generalizing s read with
  | zero => omega
  | succ rounds ih =>
    obtain ⟨us, hus⟩ := suffix_skipComma s.remaining
    have hclause := clause?_follows.eq_after hus
    rw [clauseLoop, skipComma_eq]
    cases hread : Reader.clause? (Reader.skipComma s.remaining) with
    | none =>
      rw [hread] at hclause
      rw [Reader.moreClauses_of_none hread, List.reverse_reverse]
      dsimp only
      rw [hclause]
      rfl
    | some found =>
      obtain ⟨c, rest⟩ := found
      obtain ⟨vs, hvs, -⟩ := Reader.clause?_sound hread
      have hrest : (us ++ vs) ++ rest = s.remaining := by rw [List.append_assoc, ← hvs, hus]
      have hlength : (s.after rest).length < rounds := by
        have hshorter := Reader.length_clause? hread
        have hskip := Reader.length_skipComma s.remaining
        rw [TokenStream.length_remaining] at hskip
        rw [TokenStream.length_after hrest]
        omega
      obtain ⟨ws, hws⟩ := suffix_moreClauses (c :: read.reverse) rest
      rw [hread] at hclause
      rw [Reader.moreClauses_of_clause? hread, hclause]
      show clauseLoop rounds (read ++ [c]) (s.after rest) = _
      rw [ih hlength, TokenStream.remaining_after hrest, List.reverse_append,
        List.reverse_singleton, List.singleton_append, TokenStream.after_after hrest hws]

/-- The walk past clauses, which goes round in a loop, follows their reader. -/
theorem clauses?_follows : Follows clauses? Reader.clauses? where
  eq s := by
    rw [TokenStream.read?_eq, clauses?, andThen, clause?_follows.eq, TokenStream.read?_eq,
      Reader.clauses?]
    cases hread : Reader.clause? s.remaining with
    | none => rfl
    | some found =>
      obtain ⟨c, rest⟩ := found
      obtain ⟨us, hus, -⟩ := Reader.clause?_sound hread
      have hlength : (s.after rest).length < s.length := by
        have hshorter := Reader.length_clause? hread
        rw [TokenStream.length_remaining] at hshorter
        rwa [TokenStream.length_after hus.symm]
      obtain ⟨ws, hws⟩ := suffix_moreClauses [c] rest
      show (clauseLoop s.length [c] (s.after rest)).map some = _
      rw [clauseLoop_eq hlength, TokenStream.remaining_after hus.symm, List.reverse_singleton,
        TokenStream.after_after hus.symm hws]
      rfl
  takes := by
    intro ts cs rest h
    obtain ⟨us, rfl, hcs⟩ := Reader.clauses?_sound h
    exact ⟨us, rfl, fun t ht => Grammar.ne_endOfInput (hcs.kind_mem t ht)⟩

/-! ## Forms -/

/-- The walk past an optional name follows its reader. -/
theorem name?_follows : Follows name? fun ts => some (Reader.name ts) where
  eq s := by
    have hname := identifier?_follows.behind (by decide : TokenKind.asWord ≠ .endOfInput)
    rw [name?, hname.eq, TokenStream.read?_eq, TokenStream.read?_eq, Reader.name]
    cases (Reader.keyword? .asWord s.remaining).bind Reader.identifier? with
    | none =>
      show Except.ok (some (none, s)) = .ok (some (none, s.after s.remaining))
      rw [s.after_self]
    | some found => rfl
  takes := by
    intro ts n rest h
    obtain ⟨us, hus, hname⟩ := Reader.name_sound ts
    rw [Option.some.inj h] at hus hname
    exact ⟨us, hus.symm, fun t ht => Grammar.ne_endOfInput (hname.kind_mem t ht)⟩

/-- The walk past the beginning of a group follows its reader. -/
theorem group?_follows : Follows group? Reader.group? :=
  (identifier?_follows.andThen fun name => found_follows (Form.group name)).behind (by decide)

/-- The walk past an optional `WITH` follows the reader that passes over it. -/
theorem join?_follows : Follows join? fun ts => some ((), Reader.skipWith ts) where
  eq s := by
    show join? s = .ok (some ((), s.after (Reader.skipWith s.remaining)))
    rw [join?, TokenStream.expect?_eq, Reader.skipWith]
    cases hread : Reader.keyword? .withWord s.remaining with
    | none => rw [s.after_self]; rfl
    | some rest =>
      obtain ⟨t, ht, -⟩ := Reader.keyword?_eq_some hread
      have hsuffix : [t] ++ rest = s.remaining := ht.symm
      dsimp only [Option.map_some]
      rw [TokenStream.length_after hsuffix]
      cases rest with
      | nil => rw [s.after_self]; rfl
      | cons u rest => rfl
  takes := by
    intro ts u rest h
    cases h
    rcases Reader.skipWith_cases ts with hskip | ⟨w, hw, hskip⟩
    · exact ⟨[], hskip, List.forall_mem_nil _⟩
    · exact ⟨[w], hskip.symm, List.forall_mem_singleton.2 (by rw [hw]; decide)⟩

/-- The walk past the beginning of the generator follows its reader. -/
theorem generator?_follows : Follows generator? Reader.generator? :=
  (identifier?_follows.andThen fun name => join?_follows.andThen fun _ =>
    found_follows (Form.generator name)).behind (by decide)

/-- Behind the arrow of a field come its clauses. -/
theorem fieldWith_follows (kind name : Text) :
    Follows (clauses?.andThen fun cs => found (Form.fieldWith kind name cs)) fun ts =>
      (Reader.clauses? ts).bind fun (cs, ts) => some (Form.fieldWith kind name cs, ts) :=
  clauses?_follows.andThen fun cs => found_follows (Form.fieldWith kind name cs)

/-- Behind the name of a field come an arrow and clauses, or the field ends. -/
theorem fieldEnd?_follows (kind : Text) (name : Option Text) :
    Follows (fieldEnd? kind name) fun ts =>
      match Reader.keyword? .rightArrow ts with
      | none => some (.field kind name, ts)
      | some ts => name.bind fun name => (Reader.clauses? ts).bind fun (cs, ts) =>
          some (.fieldWith kind name cs, ts) where
  eq s := by
    rw [TokenStream.read?_eq, fieldEnd?, TokenStream.expect?_eq]
    cases hread : Reader.keyword? .rightArrow s.remaining with
    | none => exact (found_follows (Form.field kind name)).eq s
    | some rest =>
      obtain ⟨t, ht, -⟩ := Reader.keyword?_eq_some hread
      have hsuffix : [t] ++ rest = s.remaining := ht.symm
      cases name with
      | none => rfl
      | some name => exact (fieldWith_follows kind name).eq_after hsuffix
  takes := by
    intro ts f rest h
    dsimp only at h
    split at h
    · cases h
      exact ⟨[], rfl, List.forall_mem_nil _⟩
    · next ts' hread =>
      obtain ⟨t, rfl, ht⟩ := Reader.keyword?_eq_some hread
      obtain ⟨name, rfl, h⟩ := Option.bind_eq_some_iff.1 h
      obtain ⟨us, rfl, hus⟩ := (fieldWith_follows kind name).takes h
      exact ⟨t :: us, rfl, List.forall_mem_cons.2 ⟨by rw [ht]; decide, hus⟩⟩

/-- The walk past a random field follows its reader. -/
theorem field?_follows : Follows field? Reader.field? :=
  typeName?_follows.andThen fun kind => name?_follows.andThen fun name =>
    fieldEnd?_follows kind name

/-- The walk past a constant follows its reader. -/
theorem constant?_follows : Follows constant? Reader.constant? :=
  literal?_follows.andThen fun l => name?_follows.andThen fun name =>
    found_follows (Form.constant l name)

/-- The walk past the beginning of a section follows its reader. -/
theorem fieldsSection?_follows : Follows fieldsSection? Reader.fieldsSection? :=
  (found_follows Form.fieldsSection).behind (by decide)

/-- The walk past an update follows its reader. -/
theorem update?_follows : Follows update? Reader.update? :=
  identifier?_follows.andThen fun name => (clauses?_follows.andThen fun cs =>
    found_follows (Form.update name cs)).behind (by decide)

/-- The walk past a parameter follows its reader. -/
theorem parameter?_follows : Follows parameter? Reader.parameter? :=
  identifier?_follows.andThen fun name => (expr?_follows.andThen fun value =>
    found_follows (Form.parameter name value)).behind (by decide)

/-- Each walk past a form follows the reader that stands in its place. -/
theorem forms_follow : List.Forall₂ Follows forms Reader.forms :=
  .cons group?_follows <| .cons generator?_follows <| .cons field?_follows <|
    .cons constant?_follows <| .cons fieldsSection?_follows <| .cons update?_follows <|
    .cons parameter?_follows .nil

/-- The walk past any form follows the reader of forms. -/
theorem form?_follows : Follows form? Reader.form? :=
  .firstOf forms_follow

/-! ## Programs -/

/-- At the end of the tokens the loop stops as the reader does. -/
theorem formLoop_of_isAtEnd {s : TokenStream} (h : s.isAtEnd) (rounds : Nat) (read : List Form) :
    formLoop rounds read s =
      .ok ((Reader.formsFrom read.reverse s.remaining).mapError s.after) := by
  have hloop : formLoop rounds read s = .ok (formsUpTo read s) := by
    cases rounds <;> rw [formLoop, if_pos h] <;> rfl
  rw [hloop, formsUpTo, TokenStream.expect?_eq]
  unfold TokenStream.isAtEnd at h
  split at h
  · next hnil =>
    have hself : s.after [] = s := by rw [← hnil, s.after_self]
    rw [hnil, Reader.formsFrom, Except.mapError, hself]
    rfl
  · next t rest hcons =>
    have ht : t.kind = .endOfInput := of_decide_eq_true h
    rw [hcons, Reader.formsFrom, if_pos ht, Reader.keyword?_complete ht, List.reverse_reverse]
    rfl

/-- The loop over forms takes them all, in at most as many rounds as tokens are left. -/
theorem formLoop_eq {rounds : Nat} {s : TokenStream} (h : s.length ≤ rounds) (read : List Form) :
    formLoop rounds read s =
      .ok ((Reader.formsFrom read.reverse s.remaining).mapError s.after) := by
  induction rounds generalizing s read with
  | zero =>
    have hnil : s.remaining = [] := List.eq_nil_of_length_eq_zero (by simpa using h)
    exact formLoop_of_isAtEnd (by rw [TokenStream.isAtEnd, hnil]) 0 read
  | succ rounds ih =>
    by_cases hend : s.isAtEnd
    · exact formLoop_of_isAtEnd hend (rounds + 1) read
    · have hform := form?_follows.eq s
      rw [TokenStream.read?_eq] at hform
      rw [formLoop, if_neg hend]
      unfold TokenStream.isAtEnd at hend
      split at hend
      · exact absurd rfl hend
      · next t rest hcons =>
        rw [decide_eq_true_eq] at hend
        rw [hcons, Reader.formsFrom, if_neg hend]
        split
        · next hread =>
          rw [hcons, hread] at hform
          rw [hform, ← hcons, Except.mapError, s.after_self]
          rfl
        · next f left hread =>
          rw [hcons, hread] at hform
          obtain ⟨us, hus, -⟩ := form?_follows.takes hread
          rw [← hcons] at hus
          have hlength : (s.after left).length ≤ rounds := by
            have hshorter := Reader.length_form? hread
            rw [← hcons, TokenStream.length_remaining] at hshorter
            rw [TokenStream.length_after hus]
            omega
          rw [hform]
          show formLoop rounds (read ++ [f]) (s.after left) = _
          rw [ih hlength, TokenStream.remaining_after hus, List.reverse_append,
            List.reverse_singleton, List.singleton_append]
          cases herror : Reader.formsFrom (f :: read.reverse) left with
          | ok fs => rfl
          | error left' =>
            obtain ⟨-, vs, hvs, -⟩ := Reader.formsFrom_error herror
            rw [Except.mapError, Except.mapError, TokenStream.after_after hus hvs.symm]

/-- The walk past all forms follows the reader of whole programs. -/
theorem formsOf_eq (tokens : List Token) : formsOf tokens =
    .ok ((Reader.formsFrom [] tokens).mapError ({ tokens } : TokenStream).after) := by
  have hlength : ({ tokens } : TokenStream).length ≤ tokens.length := Nat.le_refl _
  exact formLoop_eq hlength []

end Walk

end ByteLayout
