import ByteLayout.Proofs.InPlace

/-!
# Refused statements

A list of statements can be gone through to its end, with every refusal passed over.
`Evaluator.accepted` are the statements that are then taken, and `Evaluator.after` is the evaluator
at the end.

`run_accepted`: the accepted statements are taken one after the other and lead to the same end.
`traverse_accepted`: they are answered as they were among the refused ones.
`refusals_leave_no_trace` puts this together with what one refusal leaves, which is the evaluator as
it was.
-/

namespace ByteLayout.Evaluator

variable {e e' : Evaluator} {s : Statement} {ss : List Statement}

/-! ## One statement -/

/-- A statement that is taken leads to the next evaluator. -/
theorem apply_take_of_step (h : e.step s = .ok e') : (take s).apply e = (.ok e'.stage, e') := by
  rw [apply_take, h]
  rfl

/-- A statement that is not taken leaves the evaluator as it is. -/
theorem apply_take_of_refused {error : EnvironmentError} (h : e.step s = .error error) :
    (take s).apply e = (.error error, e) := by
  rw [apply_take, h]
  rfl

/-- A refused statement leaves the evaluator as it is. -/
theorem refused_unchanged {error : EnvironmentError} (h : ((take s).apply e).1 = .error error) :
    ((take s).apply e).2 = e :=
  Edit.unchanged_of_allOrNothing (apply_take s e) h

/-! ## Lists of statements -/

/-- The statements that are taken when refusals are passed over. -/
def accepted (e : Evaluator) : List Statement → List Statement
  | [] => []
  | s :: ss =>
    match (take s).apply e with
    | (.ok _, next) => s :: next.accepted ss
    | (.error _, next) => next.accepted ss

/-- The evaluator after all statements, with refusals passed over. -/
def after (e : Evaluator) (ss : List Statement) : Evaluator :=
  ((e.traverse ss).map Prod.snd).getLastD e

/-- Statements are taken one after the other. -/
theorem after_cons (e : Evaluator) (s : Statement) (ss : List Statement) :
    e.after (s :: ss) = ((take s).apply e).2.after ss := by
  rw [after, traverse, List.map_cons, List.getLastD_cons, after]

/-- A statement that is taken is followed by the others. -/
theorem after_cons_of_step (h : e.step s = .ok e') (ss : List Statement) :
    e.after (s :: ss) = e'.after ss := by
  rw [after_cons, apply_take_of_step h]

/-- A statement that is not taken may be left out. -/
theorem after_cons_of_refused {error : EnvironmentError} (h : e.step s = .error error)
    (ss : List Statement) : e.after (s :: ss) = e.after ss := by
  rw [after_cons, apply_take_of_refused h]

/-- A statement that is taken is accepted. -/
theorem accepted_cons_of_step (h : e.step s = .ok e') (ss : List Statement) :
    e.accepted (s :: ss) = s :: e'.accepted ss := by
  rw [accepted, apply_take_of_step h]

/-- A statement that is not taken is not. -/
theorem accepted_cons_of_refused {error : EnvironmentError} (h : e.step s = .error error)
    (ss : List Statement) : e.accepted (s :: ss) = e.accepted ss := by
  rw [accepted, apply_take_of_refused h]

/-- The accepted statements are taken one after the other. -/
theorem run_accepted (e : Evaluator) (ss : List Statement) :
    e.run (e.accepted ss) = .ok (e.after ss) := by
  induction ss generalizing e with
  | nil => rfl
  | cons s ss ih =>
    cases h : e.step s with
    | error error => rw [accepted_cons_of_refused h, after_cons_of_refused h, ih]
    | ok e' =>
      rw [accepted_cons_of_step h, after_cons_of_step h, run_cons]
      exact ⟨e', takes_of_step h, ih e'⟩

/-- Where nothing is refused, the end is that of the run. -/
theorem after_of_run (h : e.run ss = .ok e') : e.after ss = e' := by
  induction ss generalizing e with
  | nil =>
    cases h
    rfl
  | cons s ss ih =>
    obtain ⟨mid, hmid, hrun⟩ := run_cons.1 h
    rw [after_cons_of_step hmid.step_eq, ih hrun]

/-- The accepted statements alone lead to the same evaluator. -/
theorem after_accepted (e : Evaluator) (ss : List Statement) :
    e.after (e.accepted ss) = e.after ss :=
  after_of_run (e.run_accepted ss)

/-- Among themselves the accepted statements are answered as among all. -/
theorem traverse_accepted (e : Evaluator) (ss : List Statement) :
    e.traverse (e.accepted ss) = (e.traverse ss).filter fun taken => taken.1.isOk := by
  induction ss generalizing e with
  | nil => rfl
  | cons s ss ih =>
    cases h : e.step s with
    | error error =>
      -- The refused statement is filtered out, and the others meet the same evaluator.
      rw [accepted_cons_of_refused h, ih, traverse, apply_take_of_refused h]
      rfl
    | ok e' =>
      rw [accepted_cons_of_step h, traverse, traverse, apply_take_of_step h, ih]
      rfl

/-- Refusals leave no trace: a refused statement leaves the evaluator as it is, and statements that
are gone through with refusals passed over lead where the accepted ones alone lead, which are then
all accepted again. -/
theorem refusals_leave_no_trace (e : Evaluator) (ss : List Statement) :
    (∀ s error, ((take s).apply e).1 = .error error → ((take s).apply e).2 = e) ∧
      e.after (e.accepted ss) = e.after ss ∧ e.run (e.accepted ss) = .ok (e.after ss) ∧
      e.traverse (e.accepted ss) = (e.traverse ss).filter fun taken => taken.1.isOk := by
  refine ⟨?_, e.after_accepted ss, e.run_accepted ss, e.traverse_accepted ss⟩
  intro s error h
  exact refused_unchanged h

/-- A field of one byte that is selected. -/
def byteSelected : Evaluator :=
  after {} [.startGroup "frame", .variableField "u8" (some "size"), .selectField "size"]

/-- A range whose upper bound alone lies outside the format. -/
def wideRange : Statement :=
  .updateField "RANGE" (.group [.literal (.integer 1), .literal (.integer 256)])

/-- A range inside the format. -/
def narrowRange : Statement :=
  .updateField "RANGE" (.group [.literal (.integer 1), .literal (.integer 2)])

/-- After `wideRange` the range that fits is taken as if nothing had been refused. -/
theorem wideRange_leaves_no_trace :
    ((take wideRange).apply byteSelected).1 =
        .error (.problem (.valueOutOfFormat "RANGE" 256 "u8" 0 255)) ∧
      ((take wideRange).apply byteSelected).2 = byteSelected ∧
      byteSelected.accepted [wideRange, narrowRange, .run] = [narrowRange] ∧
      byteSelected.after [narrowRange] = byteSelected.after [wideRange, narrowRange, .run] ∧
      byteSelected.run [narrowRange] = .ok (byteSelected.after [wideRange, narrowRange, .run]) := by
  have h := refusals_leave_no_trace byteSelected [wideRange, narrowRange, .run]
  have hrefused : ((take wideRange).apply byteSelected).1 =
      .error (.problem (.valueOutOfFormat "RANGE" 256 "u8" 0 255)) := by decide +kernel
  have haccepted : byteSelected.accepted [wideRange, narrowRange, .run] = [narrowRange] := by
    decide +kernel
  rw [haccepted] at h
  exact ⟨hrefused, h.1 wideRange _ hrefused, haccepted, h.2.1, h.2.2.1⟩

end ByteLayout.Evaluator
