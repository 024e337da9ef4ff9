import ByteLayout.Proofs.Walks

/-!
# The discipline of the rules

All rules by which a program is read, as a family: `Rule.walk` is how a rule moves over a stream,
`Rule.reader` what it reads of the tokens that are left. At a place at most one rule of a form finds
its form, since two tokens tell which one (`Rule.eq_ruleAt`); so it does not matter in which order
the rules are tried.

The main result is `Rule.discipline`. No rule breaks off, wherever it begins and whatever the tokens
are: it does not read past their end, and its loops have as many rounds as there are tokens left
where the rule begins. A part that is found leads on over at least one token, over no end of the
input and not beyond the tokens, which stay the same; a name may also be missing, and then the place
is kept. What stands before the place makes no difference. So the loop over the forms of a program
ends on every sequence of tokens.
-/

namespace ByteLayout

/-- The rules, by what they look for. -/
inductive Rule : Type → Type
  /-- A token of a kind, though not the end of the input. -/
  | keyword (kind : TokenKind) (h : kind ≠ .endOfInput) : Rule Unit
  /-- An identifier. -/
  | identifier : Rule Text
  /-- The name of a type. -/
  | typeName : Rule Text
  /-- A literal. -/
  | literal : Rule Literal
  /-- An expression. -/
  | expr : Rule Expr
  /-- Arguments in parentheses. -/
  | arguments : Rule Expr
  /-- An attribute with its arguments. -/
  | clause : Rule Clause
  /-- Clauses, at least one. -/
  | clauses : Rule (List Clause)
  /-- A name after `AS`, which may be missing. -/
  | name : Rule (Option Text)
  /-- `DEFINE id` -/
  | group : Rule Form
  /-- `GENERATE id [WITH]` -/
  | generator : Rule Form
  /-- `type [AS id]` or `type AS id -> clauses` -/
  | field : Rule Form
  /-- `literal [AS id]` -/
  | constant : Rule Form
  /-- `WHERE` -/
  | fieldsSection : Rule Form
  /-- `id -> clauses` -/
  | update : Rule Form
  /-- `id = literal` -/
  | parameter : Rule Form
  /-- Any form. -/
  | form : Rule Form

/-- The rules of the forms, in the order in which they are tried. -/
def formRules : List (Rule Form) :=
  [.group, .generator, .field, .constant, .fieldsSection, .update, .parameter]

namespace Rule

variable {α : Type} {ts rest : List Token} {s s' : TokenStream} {a : α}

/-- How a rule moves over a stream. -/
def walk : {α : Type} → Rule α → Walk α
  | _, keyword kind _ => Walk.keyword? kind
  | _, identifier => Walk.textOf? .identifier
  | _, typeName => Walk.textOf? .typeName
  | _, literal => Walk.literal?
  | _, expr => Walk.expr?
  | _, arguments => Walk.arguments?
  | _, clause => Walk.clause?
  | _, clauses => Walk.clauses?
  | _, name => Walk.name?
  | _, group => Walk.group?
  | _, generator => Walk.generator?
  | _, field => Walk.field?
  | _, constant => Walk.constant?
  | _, fieldsSection => Walk.fieldsSection?
  | _, update => Walk.update?
  | _, parameter => Walk.parameter?
  | _, form => Walk.form?

/-- What a rule reads of the tokens that are left. -/
def reader : {α : Type} → Rule α → Reader α
  | _, keyword kind _ => fun ts => (Reader.keyword? kind ts).map fun rest => ((), rest)
  | _, identifier => Reader.identifier?
  | _, typeName => Reader.typeName?
  | _, literal => Reader.literal?
  | _, expr => Reader.expr?
  | _, arguments => Reader.arguments?
  | _, clause => Reader.clause?
  | _, clauses => Reader.clauses?
  | _, name => fun ts => some (Reader.name ts)
  | _, group => Reader.group?
  | _, generator => Reader.generator?
  | _, field => Reader.field?
  | _, constant => Reader.constant?
  | _, fieldsSection => Reader.fieldsSection?
  | _, update => Reader.update?
  | _, parameter => Reader.parameter?
  | _, form => Reader.form?

/-- Whether a rule is content with no token. -/
def isOptional : {α : Type} → Rule α → Bool
  | _, name => true
  | _, _ => false

/-- Every rule follows its reader. -/
theorem follows (r : Rule α) : Walk.Follows r.walk r.reader := by
  cases r with
  | keyword kind h => exact Walk.keyword?_follows h
  | identifier => exact Walk.identifier?_follows
  | typeName => exact Walk.typeName?_follows
  | literal => exact Walk.literal?_follows
  | expr => exact Walk.expr?_follows
  | arguments => exact Walk.arguments?_follows
  | clause => exact Walk.clause?_follows
  | clauses => exact Walk.clauses?_follows
  | name => exact Walk.name?_follows
  | group => exact Walk.group?_follows
  | generator => exact Walk.generator?_follows
  | field => exact Walk.field?_follows
  | constant => exact Walk.constant?_follows
  | fieldsSection => exact Walk.fieldsSection?_follows
  | update => exact Walk.update?_follows
  | parameter => exact Walk.parameter?_follows
  | form => exact Walk.form?_follows

/-- Every rule takes a token, unless it is content with none. -/
theorem length_reader (r : Rule α) (hr : ¬ r.isOptional) (h : r.reader ts = some (a, rest)) :
    rest.length < ts.length := by
  cases r with
  | keyword kind =>
    obtain ⟨rest', hread, hrest⟩ := Option.map_eq_some_iff.1 h
    cases hrest
    exact Reader.length_keyword? hread
  | identifier | typeName => exact Reader.length_textOf? h
  | literal => exact Reader.length_literal? h
  | expr => exact Reader.length_expr? h
  | arguments => exact Reader.length_arguments? h
  | clause => exact Reader.length_clause? h
  | clauses => exact Reader.length_clauses? h
  | name => exact absurd rfl hr
  | group => exact Reader.length_group? h
  | generator => exact Reader.length_generator? h
  | field => exact Reader.length_field? h
  | constant => exact Reader.length_constant? h
  | fieldsSection => exact Reader.length_fieldsSection? h
  | update => exact Reader.length_update? h
  | parameter => exact Reader.length_parameter? h
  | form => exact Reader.length_form? h

/-- A rule leads on from one place to another: over at least one token, unless it is content with
none, over no end of the input and not beyond the tokens, which stay the same. -/
structure Leads (r : Rule α) (s s' : TokenStream) : Prop where
  /-- The tokens stay the same. -/
  tokens : s'.tokens = s.tokens
  /-- The place does not move back. -/
  le : s.position ≤ s'.position
  /-- The place moves on, unless the rule is content with no token. -/
  lt : ¬ r.isOptional → s.position < s'.position
  /-- A place that is new is not beyond the tokens. -/
  inside : s'.position = s.position ∨ s'.position ≤ s.tokens.length
  /-- None of the tokens between the places ends the input. -/
  kind : ∀ t ∈ (s.tokens.drop s.position).take (s'.position - s.position), t.kind ≠ .endOfInput

/-- What a rule finds leads on in the tokens. -/
theorem leads (r : Rule α) (h : s.read? r.reader = some (a, s')) : r.Leads s s' := by
  rw [TokenStream.read?_eq] at h
  obtain ⟨⟨a', rest⟩, hread, hs⟩ := Option.map_eq_some_iff.1 h
  obtain ⟨us, hus, hkinds⟩ := r.follows.takes hread
  cases hs
  have hlength := congrArg List.length hus
  rw [List.length_append] at hlength
  have hposition : (s.after rest).position = s.position + us.length := by
    show s.position + (s.remaining.length - rest.length) = _
    omega
  have hleft : s.remaining.length = s.tokens.length - s.position := s.length_remaining
  exact {
    tokens := rfl
    le := by omega
    lt := fun hr => by
      have hshorter := r.length_reader hr hread
      omega
    inside := by omega
    kind := by
      have hpassed : (s.tokens.drop s.position).take us.length = us := by
        show s.remaining.take us.length = us
        rw [← hus, List.take_left]
      rw [hposition, Nat.add_sub_cancel_left, hpassed]
      exact hkinds }

/-! ## The rule of a place -/

/-- The rule of the only form that may begin with some tokens. -/
def ruleAt : List Token → Rule Form
  | [] => .constant
  | t :: rest =>
    match t.kind with
    | .defineWord => .group
    | .generateWord => .generator
    | .typeName => .field
    | .whereWord => .fieldsSection
    | .identifier => if (Reader.keyword? .rightArrow rest).isSome then .update else .parameter
    | _ => .constant

/-- The rule for a place is one of the rules. -/
theorem ruleAt_mem (ts : List Token) : ruleAt ts ∈ formRules := by
  unfold ruleAt
  repeat' split
  all_goals simp [formRules]

/-- A rule of a form finds one only where the tokens are those of its own. -/
theorem eq_ruleAt {r : Rule Form} (hr : r ∈ formRules) {f : Form}
    (h : r.reader ts = some (f, rest)) : r = ruleAt ts := by
  have hword : ∀ {kind : TokenKind} {next : Reader Form},
      (Reader.keyword? kind ts).bind next = some (f, rest) →
        ∃ t ts', ts = t :: ts' ∧ t.kind = kind := by
    intro kind next h
    obtain ⟨ts', hread, -⟩ := Option.bind_eq_some_iff.1 h
    obtain ⟨t, hts, ht⟩ := Reader.keyword?_eq_some hread
    exact ⟨t, ts', hts, ht⟩
  simp only [formRules, List.mem_cons, List.not_mem_nil, or_false] at hr
  rcases hr with rfl | rfl | rfl | rfl | rfl | rfl | rfl
  · obtain ⟨t, ts', rfl, ht⟩ := hword h
    rw [ruleAt, ht]
  · obtain ⟨t, ts', rfl, ht⟩ := hword h
    rw [ruleAt, ht]
  · obtain ⟨⟨kind, ts'⟩, hread, -⟩ := Option.bind_eq_some_iff.1 h
    obtain ⟨t, rfl, ht⟩ := Reader.textOf?_sound hread
    rw [ruleAt, ht.1]
  · obtain ⟨⟨l, ts'⟩, hread, -⟩ := Option.bind_eq_some_iff.1 h
    obtain ⟨t, rfl, ht⟩ := Reader.literal?_sound hread
    cases ht with
    | integer hk | bytes hk => rw [ruleAt, hk]
    | text ht | reserved ht => rw [ruleAt, ht.1]
  · obtain ⟨t, ts', rfl, ht⟩ := hword h
    rw [ruleAt, ht]
  -- Updates and parameters begin alike, so the second token has to tell them apart.
  · obtain ⟨⟨name, ts'⟩, hread, hnext⟩ := Option.bind_eq_some_iff.1 h
    obtain ⟨t, rfl, ht⟩ := Reader.textOf?_sound hread
    obtain ⟨clauses, harrow, -⟩ := Option.bind_eq_some_iff.1 hnext
    rw [ruleAt, ht.1]
    simp [harrow]
  · obtain ⟨⟨name, ts'⟩, hread, hnext⟩ := Option.bind_eq_some_iff.1 h
    obtain ⟨t, rfl, ht⟩ := Reader.textOf?_sound hread
    obtain ⟨value, hassign, -⟩ := Option.bind_eq_some_iff.1 hnext
    obtain ⟨u, rfl, hu⟩ := Reader.keyword?_eq_some hassign
    rw [ruleAt, ht.1]
    simp [Reader.keyword?_eq_none, hu]

/-- At most one of the rules of forms finds its form at a place. -/
theorem exclusive {r r' : Rule Form} {p p' : Form × TokenStream} (hr : r ∈ formRules)
    (hr' : r' ∈ formRules) (h : r.walk s = .ok (some p)) (h' : r'.walk s = .ok (some p')) :
    r = r' := by
  rw [r.follows.eq, Except.ok.injEq, TokenStream.read?_eq] at h
  rw [r'.follows.eq, Except.ok.injEq, TokenStream.read?_eq] at h'
  obtain ⟨_, hread, -⟩ := Option.map_eq_some_iff.1 h
  obtain ⟨_, hread', -⟩ := Option.map_eq_some_iff.1 h'
  rw [eq_ruleAt hr hread, eq_ruleAt hr' hread']

/-- The first form that is found is that of the rule of the place, in whatever order the rules are
tried. -/
theorem findSome?_eq {rules : List (Rule Form)} (h : rules.Perm formRules) (ts : List Token) :
    (rules.map Rule.reader).findSome? (fun reader => reader ts) = (ruleAt ts).reader ts := by
  cases hfind : (rules.map Rule.reader).findSome? fun reader => reader ts with
  | none =>
    rw [List.findSome?_eq_none_iff] at hfind
    exact (hfind _ (List.mem_map_of_mem (h.mem_iff.2 (ruleAt_mem ts)))).symm
  | some p =>
    obtain ⟨reader, hreader, hread⟩ := List.exists_of_findSome?_eq_some hfind
    obtain ⟨r, hr, rfl⟩ := List.mem_map.1 hreader
    rw [← eq_ruleAt (h.mem_iff.1 hr) hread, hread]

/-- In whatever order the rules are tried, the one for the place is the first to find anything. -/
theorem firstOf_eq {rules : List (Rule Form)} (h : rules.Perm formRules) (s : TokenStream) :
    Walk.firstOf (rules.map Rule.walk) s = (ruleAt s.remaining).walk s := by
  have hfollows : List.Forall₂ Walk.Follows (rules.map Rule.walk) (rules.map Rule.reader) := by
    rw [List.forall₂_map_left_iff, List.forall₂_map_right_iff, List.forall₂_same]
    exact fun r _ => r.follows
  rw [(Walk.Follows.firstOf hfollows).eq, (ruleAt s.remaining).follows.eq, TokenStream.read?_eq,
    TokenStream.read?_eq, findSome?_eq h]

/-- What stands before the place makes no difference to what is found there. -/
theorem walk_eq_of_remaining {s₂ : TokenStream} (r : Rule α) (h : s₂.remaining = s.remaining) :
    r.walk s₂ = .ok ((s.read? r.reader).map fun (a, s') =>
      (a, { s₂ with position := s₂.position + (s'.position - s.position) })) := by
  rw [r.follows.eq, TokenStream.read?_eq, TokenStream.read?_eq, h, Option.map_map]
  congr 2
  funext ⟨a, rest⟩
  simp [TokenStream.after, h]

/-- The discipline of the rules: they do not break off; what they find leads on; what stands before
the place makes no difference; at most one rule of a form finds its form at a place, and the order
of these rules makes no difference; and the loop over the forms of a program ends, with the answer
of `parse`. -/
theorem discipline :
    (∀ {α : Type} (r : Rule α) (s : TokenStream), ∃ answer : Option (α × TokenStream),
      r.walk s = .ok answer ∧ answer = s.read? r.reader ∧
        (∀ a s', answer = some (a, s') → r.Leads s s') ∧
        ∀ s₂ : TokenStream, s₂.remaining = s.remaining →
          r.walk s₂ = .ok (answer.map fun (a, s') =>
            (a, { s₂ with position := s₂.position + (s'.position - s.position) }))) ∧
    (∀ (s : TokenStream), ∀ r ∈ formRules, ∀ r' ∈ formRules, ∀ p p',
      r.walk s = .ok (some p) → r'.walk s = .ok (some p') → r = r') ∧
    (∀ (rules : List (Rule Form)), rules.Perm formRules → ∀ s,
      Walk.firstOf (rules.map Rule.walk) s = form.walk s) ∧
    ∀ (tokens : List Token) (source : Option Text), ∃ answer : Except TokenStream (List Form),
      Walk.formsOf tokens = .ok answer ∧
        parse tokens source = match answer with
          | .ok forms => .ok (.ofForms forms)
          | .error s => .error (.atTokens s.remaining source) := by
  refine ⟨fun r s => ⟨s.read? r.reader, r.follows.eq s, rfl, fun _ _ => r.leads,
    fun _ => r.walk_eq_of_remaining⟩, fun s r hr r' hr' p p' => exclusive hr hr', ?_, ?_⟩
  · intro rules h s
    have hform : form.walk s = Walk.firstOf (formRules.map Rule.walk) s := rfl
    rw [hform, firstOf_eq h, firstOf_eq (List.Perm.refl _)]
  · intro tokens source
    refine ⟨_, Walk.formsOf_eq tokens, ?_⟩
    unfold parse
    cases hforms : Reader.formsFrom [] tokens with
    | ok forms => rfl
    | error left =>
      obtain ⟨-, us, hus, -⟩ := Reader.formsFrom_error hforms
      have hleft : (({ tokens } : TokenStream).after left).remaining = left :=
        TokenStream.remaining_after hus.symm
      rw [Except.mapError]
      dsimp only
      rw [hleft]

end Rule

end ByteLayout
