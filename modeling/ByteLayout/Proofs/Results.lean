import Mathlib.Data.List.Forall2

/-!
# Results

When a computation that may fail and is made of parts has a result: exactly when its parts have one
after the other. It fails with the first error of a part.
-/

namespace ByteLayout

variable {ε α β : Type}

/-- What is made of a result comes from a result. -/
theorem Except.map_eq_ok {x : Except ε α} {f : α → β} {b : β} :
    x.map f = .ok b ↔ ∃ a, x = .ok a ∧ f a = b := by
  cases x with
  | error e => simp [Except.map]
  | ok a => simp [Except.map]

/-- Two computations in turn succeed if both do. -/
theorem Except.bind_eq_ok {x : Except ε α} {f : α → Except ε β} {b : β} :
    x >>= f = .ok b ↔ ∃ a, x = .ok a ∧ f a = .ok b := by
  cases x with
  | error e => simp [bind, Except.bind]
  | ok a => simp [bind, Except.bind]

/-- What is made of a result fails as the result does. -/
theorem Except.map_eq_error {x : Except ε α} {f : α → β} {e : ε} :
    x.map f = .error e ↔ x = .error e := by
  cases x with
  | error e' => simp [Except.map]
  | ok a => simp [Except.map]

/-- Two computations in turn fail with the first failure. -/
theorem Except.bind_eq_error {x : Except ε α} {f : α → Except ε β} {e : ε} :
    x >>= f = .error e ↔ x = .error e ∨ ∃ a, x = .ok a ∧ f a = .error e := by
  cases x with
  | error e' => simp [bind, Except.bind]
  | ok a => simp [bind, Except.bind]

/-- A result does not depend on how failures are told. -/
theorem Except.mapError_eq_ok {x : Except ε α} {f : ε → β} {a : α} :
    x.mapError f = .ok a ↔ x = .ok a := by
  cases x with
  | error e => simp [Except.mapError]
  | ok a => simp [Except.mapError]

/-- A failure told in another way comes from a failure. -/
theorem Except.mapError_eq_error {x : Except ε α} {f : ε → β} {e' : β} :
    x.mapError f = .error e' ↔ ∃ e, x = .error e ∧ f e = e' := by
  cases x with
  | error e => simp [Except.mapError]
  | ok a => simp [Except.mapError]

/-! ## Lists -/

/-- Where a function has a result with a property at each member, so it has at all of them. -/
theorem mapM_eq_ok {f : α → Except ε β} {r : α → β → Prop} {as : List α}
    (h : ∀ a ∈ as, ∃ b, f a = .ok b ∧ r a b) : ∃ bs, as.mapM f = .ok bs ∧ List.Forall₂ r as bs := by
  induction as with
  | nil => exact ⟨[], rfl, .nil⟩
  | cons a as ih =>
    obtain ⟨b, hb, hr⟩ := h a List.mem_cons_self
    obtain ⟨bs, hbs, hrs⟩ := ih fun a ha => h a (List.mem_cons_of_mem _ ha)
    refine ⟨b :: bs, ?_, .cons hr hrs⟩
    rw [List.mapM_cons, hb, hbs]
    rfl

/-- A function has results at all members exactly if it has one at each. -/
theorem mapM_eq_some_iff {f : α → Option β} {as : List α} {bs : List β} :
    as.mapM f = some bs ↔ List.Forall₂ (fun a b => f a = some b) as bs := by
  induction as generalizing bs with
  | nil => simp [eq_comm]
  | cons a as ih =>
    simp only [List.mapM_cons, List.forall₂_cons_left_iff, Option.bind_eq_bind,
      Option.bind_eq_some_iff, Option.pure_def, Option.some.injEq, ih]
    constructor
    · rintro ⟨b, hb, bs', hbs, rfl⟩
      exact ⟨b, bs', hb, hbs, rfl⟩
    · rintro ⟨b, bs', hb, hbs, rfl⟩
      exact ⟨b, hb, bs', hbs, rfl⟩

/-- Lists at whose members two functions answer alike. -/
theorem mapM_eq_of_forall₂ {γ : Type} {f : α → Option γ} {g : β → Option γ} {as : List α}
    {bs : List β} (h : List.Forall₂ (fun a b => f a = g b) as bs) : as.mapM f = bs.mapM g := by
  induction h with
  | nil => rfl
  | cons hab _ ih => rw [List.mapM_cons, List.mapM_cons, hab, ih]

/-- Where a function has results at all members, it has one at each. -/
theorem forall_of_mapM_eq_ok {f : α → Except ε β} {as : List α} {bs : List β}
    (h : as.mapM f = .ok bs) : ∀ a ∈ as, ∃ b, f a = .ok b := by
  induction as generalizing bs with
  | nil => simp
  | cons a as ih =>
    rw [List.mapM_cons] at h
    obtain ⟨b, hb, h⟩ := Except.bind_eq_ok.1 h
    obtain ⟨bs', hbs', -⟩ := Except.bind_eq_ok.1 h
    rw [List.forall_mem_cons]
    exact ⟨⟨b, hb⟩, ih hbs'⟩

section Folds

variable {f : α → β → Except ε α} {b : β} {bs cs : List β} {start final : α}

/-- A fold over two lists goes through a state between them. -/
theorem foldlM_append_eq_ok : (bs ++ cs).foldlM f start = .ok final ↔
    ∃ mid, bs.foldlM f start = .ok mid ∧ cs.foldlM f mid = .ok final := by
  rw [List.foldlM_append]
  exact Except.bind_eq_ok

/-- A fold begins with its first element. -/
theorem foldlM_cons_eq_ok : (b :: bs).foldlM f start = .ok final ↔
    ∃ mid, f start b = .ok mid ∧ bs.foldlM f mid = .ok final := by
  rw [List.foldlM_cons]
  exact Except.bind_eq_ok

/-- A fold over one element is a step. -/
theorem foldlM_singleton_eq_ok : [b].foldlM f start = .ok final ↔ f start b = .ok final := by
  rw [foldlM_cons_eq_ok]
  constructor
  · rintro ⟨mid, hmid, hnil⟩
    cases hnil
    exact hmid
  · intro h
    exact ⟨final, h, rfl⟩

/-- A fold ends with its last element. -/
theorem foldlM_concat_eq_ok : (bs ++ [b]).foldlM f start = .ok final ↔
    ∃ mid, bs.foldlM f start = .ok mid ∧ f mid b = .ok final := by
  rw [foldlM_append_eq_ok]
  simp only [foldlM_singleton_eq_ok]

/-- A fold fails where one of its steps does, after those before it. -/
theorem foldlM_eq_error {e : ε} : bs.foldlM f start = .error e ↔
    ∃ front b rest mid, bs = front ++ b :: rest ∧ front.foldlM f start = .ok mid ∧
      f mid b = .error e := by
  constructor
  · intro h
    induction bs generalizing start with
    | nil => cases h
    | cons b bs ih =>
      rw [List.foldlM_cons] at h
      rcases Except.bind_eq_error.1 h with hb | ⟨next, hnext, hrest⟩
      · exact ⟨[], b, bs, start, rfl, rfl, hb⟩
      · obtain ⟨front, b', rest, mid, rfl, hfront, hb'⟩ := ih hrest
        exact ⟨b :: front, b', rest, mid, rfl, foldlM_cons_eq_ok.2 ⟨next, hnext, hfront⟩, hb'⟩
  · rintro ⟨front, b, rest, mid, rfl, hfront, hb⟩
    rw [List.foldlM_append]
    refine Except.bind_eq_error.2 (.inr ⟨mid, hfront, ?_⟩)
    rw [List.foldlM_cons]
    exact Except.bind_eq_error.2 (.inl hb)

end Folds

end ByteLayout
