/-!
# Edits

Changes of a state that may fail half-way. An edit answers and leaves a state behind, also when it
fails: what was assigned before the failure stays assigned. `Edit.ofPart` edits a part of a state
where it stands, with the same consequence for the whole.

`Edit.apply_bind` says what two edits one after the other do; the other equations are those of the
smallest edits.
-/

namespace ByteLayout

/-- A change of a state that may fail. What was changed before a failure stays changed. -/
abbrev Edit (σ ε α : Type) := ExceptT ε (StateM σ) α

namespace Edit

variable {σ τ ε ε' α β : Type}

/-- What an edit answers, and the state that it leaves behind. -/
def apply (x : Edit σ ε α) (s : σ) : Except ε α × σ :=
  (ExceptT.run x).run s

/-- Edits a part of the state. Whatever becomes of the part, also before a failure, is put back. -/
def ofPart (part : τ) (put : τ → σ → σ) (x : Edit τ ε α) : Edit σ ε α :=
  ExceptT.mk do
    let (answer, part) := x.apply part
    modify (put part)
    return answer

/-- An edit with its errors told in another way. -/
def mapError (f : ε → ε') (x : Edit σ ε α) : Edit σ ε' α :=
  ExceptT.adapt f x

/-- The second of two edits starts where the first one ends, unless that fails. -/
theorem apply_bind (x : Edit σ ε α) (f : α → Edit σ ε β) (s : σ) :
    (x >>= f).apply s = match x.apply s with
      | (.ok a, t) => (f a).apply t
      | (.error e, t) => (.error e, t) := by
  unfold apply
  rw [ExceptT.run_bind, StateT.run_bind]
  rcases StateT.run (ExceptT.run x) s with ⟨e | a, t⟩
  · rfl
  · rfl

@[simp] theorem apply_pure (a : α) (s : σ) : (pure a : Edit σ ε α).apply s = (.ok a, s) := rfl

@[simp] theorem apply_throw (e : ε) (s : σ) : (throw e : Edit σ ε α).apply s = (.error e, s) := rfl

@[simp] theorem apply_get (s : σ) : (get : Edit σ ε σ).apply s = (.ok s, s) := rfl

@[simp] theorem apply_modify (f : σ → σ) (s : σ) :
    (modify f : Edit σ ε PUnit).apply s = (.ok ⟨⟩, f s) := rfl

/-- A computation that only reads leaves the state as it is. -/
@[simp] theorem apply_liftM (r : Except ε α) (s : σ) :
    (liftM r : Edit σ ε α).apply s = (r, s) := rfl

/-- An edit of a part puts back whatever becomes of the part. -/
@[simp] theorem apply_ofPart (part : τ) (put : τ → σ → σ) (x : Edit τ ε α) (s : σ) :
    (ofPart part put x).apply s = ((x.apply part).1, put (x.apply part).2 s) := rfl

/-- Errors told in another way leave the same state behind. -/
@[simp] theorem apply_mapError (f : ε → ε') (x : Edit σ ε α) (s : σ) :
    (x.mapError f).apply s = ((x.apply s).1.mapError f, (x.apply s).2) := by
  unfold mapError apply
  rw [ExceptT.run_adapt, StateT.run_map]
  rcases StateT.run (ExceptT.run x) s with ⟨e | a, t⟩
  · rfl
  · rfl

end Edit

end ByteLayout
