import ByteLayout.Proofs.Emission

/-!
# Messages without draws

A field of random content asks the source for something whenever it is visited, so a message for
which nothing is asked is that of constant fields, and every source gives it.

`generate_undrawn`: a message that no draw was made for is the same from every other source.
-/

namespace ByteLayout

variable {σ τ : Type} {source : RandomSource σ} {s : Session σ}
  {group : Text} {fs : List Field} {buffer : OutputBuffer}

namespace Session

/-- Only a constant field asks for nothing. -/
theorem exists_constant_of_emit {d : FieldDefinition} {room : Nat}
    (h : (s.emit source d room).2.draws = s.draws) : ∃ text, d = .constant text := by
  have hnone : ((start s.state).emit source d room).2.draws = [] := by
    rw [emit_eq] at h
    exact List.append_right_eq_self.1 h
  cases d with
  | constant text => exact ⟨text, rfl⟩
  | text | bytes => exact absurd hnone (List.append_ne_nil_of_right_ne_nil _ (List.cons_ne_nil _ _))
  | textNumber | byteNumber => exact absurd hnone (List.cons_ne_nil _ _)

/-- A run over fields adds its draws to those of the session. -/
theorem exists_draws_emitFields (source : RandomSource σ) (group : Text) (fs : List Field)
    (buffer : OutputBuffer) (s : Session σ) :
    ∃ draws, (s.emitFields source group fs buffer).2.draws = s.draws ++ draws := by
  induction fs generalizing buffer s with
  | nil => exact ⟨[], (List.append_nil _).symm⟩
  | cons f fs ih =>
    unfold emitFields
    split
    · exact ⟨[], (List.append_nil _).symm⟩
    split
    · next e t hemit =>
      obtain ⟨mid, draws, -, rfl⟩ := emit_eq_iff.1 hemit
      exact ⟨draws, rfl⟩
    · next data t hemit =>
      obtain ⟨mid, draws, -, rfl⟩ := emit_eq_iff.1 hemit
      dsimp only
      split
      · obtain ⟨more, hmore⟩ := ih (buffer.write data).1 (record _ _)
        exact ⟨draws ++ more, by rw [hmore, ← List.append_assoc]; rfl⟩
      · exact ⟨draws, rfl⟩

/-- Of a run over fields that asks for nothing the first visited field asks for nothing. -/
theorem emit_undrawn {f : Field} (hfull : ¬ buffer.isFull)
    (h : (s.emitFields source group (f :: fs) buffer).2.draws = s.draws) :
    (s.emit source f.definition buffer.room).2.draws = s.draws := by
  obtain ⟨result, t, hemit⟩ : ∃ result t, s.emit source f.definition buffer.room = (result, t) :=
    ⟨_, _, rfl⟩
  obtain ⟨mid, draws, -, rfl⟩ := emit_eq_iff.1 hemit
  rw [emitFields, if_neg hfull, hemit] at h
  rw [hemit]
  cases result with
  | error e => exact h
  | ok data =>
    dsimp only at h
    split at h
    · obtain ⟨more, hmore⟩ := exists_draws_emitFields source group fs (buffer.write data).1
        (record { s with state := mid, draws := s.draws ++ draws }
          (.emitted ((buffer.write data).1.length - buffer.length) f.name))
      rw [hmore] at h
      have hnil := List.append_right_eq_self.1 ((List.append_assoc _ _ _).symm.trans h)
      rw [(List.append_eq_nil_iff.1 hnil).1]
      exact List.append_nil _
    · exact h

/-- Fields that ask a source for nothing emit the same from every other one. -/
theorem emitFields_undrawn (h : (s.emitFields source group fs buffer).2.draws = s.draws)
    (source' : RandomSource τ) (t : Session τ) :
    (t.emitFields source' group fs buffer).1 = (s.emitFields source group fs buffer).1 := by
  induction fs generalizing buffer s t with
  | nil => rfl
  | cons f fs ih =>
    by_cases hfull : buffer.isFull
    · rw [emitFields, emitFields, if_pos hfull, if_pos hfull]
    · obtain ⟨text, htext⟩ := exists_constant_of_emit (emit_undrawn hfull h)
      unfold emitFields at h ⊢
      rw [if_neg hfull, htext] at h
      rw [if_neg hfull, if_neg hfull, htext]
      dsimp only [emit] at h ⊢
      generalize (Text.utf8 text).mapError EmissionError.unwritable = bytes at h ⊢
      cases bytes with
      | error e => rfl
      | ok data =>
        dsimp only at h ⊢
        split
        · next hfits =>
          rw [if_pos hfits] at h
          exact ih h _
        · rfl

end Session

/-- A message that a source was asked nothing for is the same from every other one. -/
theorem generateGroup_undrawn {appendTerminator : Bool} {g : Generator} {target : Group}
    (h : (generateGroup source appendTerminator g target s).2.draws = s.draws)
    (source' : RandomSource τ) (t : Session τ) :
    (generateGroup source' appendTerminator g target t).1 =
      (generateGroup source appendTerminator g target s).1 := by
  unfold generateGroup at h ⊢
  dsimp only at h ⊢
  cases hbuffer : OutputBuffer.ofCapacity (g.outMax - (g.ending appendTerminator).length) with
  | error e => rfl
  | ok buffer =>
    rw [hbuffer] at h
    dsimp only at h ⊢
    -- A warning goes to the records only.
    generalize hbegin : (if g.outMax < g.outMin then s.record (.boundsCrossed g) else s) = s₀ at h ⊢
    generalize (if g.outMax < g.outMin then t.record (.boundsCrossed g) else t) = t₀
    have hsame : s₀.draws = s.draws := by
      rw [← hbegin]
      split <;> rfl
    have hrun : (s₀.emitFields source target.name target.fields buffer).2.draws = s₀.draws := by
      rw [hsame, ← h]
      split <;> simp_all
    have hresult := Session.emitFields_undrawn hrun source' t₀
    generalize t₀.emitFields source' target.name target.fields buffer = ran' at hresult ⊢
    generalize s₀.emitFields source target.name target.fields buffer = ran at hresult ⊢
    obtain ⟨result', t₁⟩ := ran'
    obtain ⟨result, s₁⟩ := ran
    obtain rfl : result' = result := hresult
    cases result' <;> rfl

/-- A message that a source was asked nothing for is the same from every other one. -/
theorem generate_undrawn {appendTerminator : Bool} {env : Environment}
    (h : (generate source appendTerminator env s).2.draws = s.draws) (source' : RandomSource τ)
    (t : Session τ) :
    (generate source' appendTerminator env t).1 = (generate source appendTerminator env s).1 := by
  unfold generate at h ⊢
  cases htarget : env.target with
  | error p => rfl
  | ok found =>
    rw [htarget] at h
    exact generateGroup_undrawn h source' t

/-- Where there is nothing to generate from, no source is asked. -/
theorem generate_problem {appendTerminator : Bool} {env : Environment} {p : Problem}
    (h : (generate source appendTerminator env s).1 = .error (.problem p))
    (source' : RandomSource τ) (t : Session τ) :
    generate source' appendTerminator env t = (.error (.problem p), t) := by
  unfold generate at h ⊢
  cases htarget : env.target with
  | error p' =>
    rw [htarget] at h
    cases h
    rfl
  | ok found =>
    rw [htarget] at h
    exfalso
    unfold generateGroup at h
    dsimp only at h
    repeat' split at h
    all_goals cases h

end ByteLayout
