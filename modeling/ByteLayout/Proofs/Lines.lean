import Mathlib.Data.Prod.Lex
import Mathlib.Order.Interval.Set.Defs
import ByteLayout.Text.Line

/-!
# Places by line ends

What the line and the column of an offset are, said by the line ends of the text: `LineEndsAt text
stop` is one of the three line ends that ends at `stop`, and `lineEnds text p` lists where those up
to `p` end. The lines of an index begin at the beginning of the text and where a line end ends
(`starts_ofText`), and halving them finds the last one that begins at an offset or before
(`lineBetween_eq`).

`LineIndex.place_ofText`: the line counts the line ends up to the offset and the column counts from
the last of them, so a place tells its offset.
-/

namespace ByteLayout.Text

variable {text front after : List CodePoint} {c : CodePoint} {stop p q : Nat}

/-! ## Line ends -/

/-- A line end of the text ends at an offset. -/
inductive LineEndsAt : List CodePoint → Nat → Prop
  /-- A line feed that no carriage return is before. -/
  | lineFeed {front after : List CodePoint} (h : front.getLast? ≠ some (scalar '\r')) :
    LineEndsAt (front ++ scalar '\n' :: after) (front.length + 1)
  /-- A carriage return and a line feed. -/
  | pair {front after : List CodePoint} :
    LineEndsAt (front ++ scalar '\r' :: scalar '\n' :: after) (front.length + 2)
  /-- A carriage return that no line feed is behind. -/
  | carriageReturn {front after : List CodePoint} (h : after.head? ≠ some (scalar '\n')) :
    LineEndsAt (front ++ scalar '\r' :: after) (front.length + 1)

/-- A line ends at a line feed, or at a return that no line feed follows. -/
theorem endsLine_iff :
    endsLine c after ↔ c = '\n' ∨ c = '\r' ∧ after.head? ≠ some (scalar '\n') := by
  simp [endsLine]

/-- A line end ends behind a character that ends a line. -/
theorem lineEndsAt_iff : LineEndsAt text stop ↔
    ∃ front c after, text = front ++ c :: after ∧ stop = front.length + 1 ∧ endsLine c after := by
  constructor
  · intro h
    cases h with
    | @lineFeed front after => exact ⟨front, '\n', after, rfl, rfl, rfl⟩
    | @pair front after => exact ⟨front ++ [scalar '\r'], '\n', after, by simp, by simp, rfl⟩
    | @carriageReturn front after h =>
      exact ⟨front, '\r', after, rfl, rfl, endsLine_iff.2 (.inr ⟨rfl, h⟩)⟩
  · rintro ⟨front, c, after, rfl, rfl, h⟩
    rcases endsLine_iff.1 h with rfl | ⟨rfl, hafter⟩
    · by_cases hreturn : front.getLast? = some (scalar '\r')
      · obtain ⟨before, rfl⟩ := List.getLast?_eq_some_iff.1 hreturn
        have hpair : LineEndsAt (before ++ scalar '\r' :: scalar '\n' :: after)
            (before.length + 2) := .pair
        simpa using hpair
      · exact .lineFeed hreturn
    · exact .carriageReturn hafter

/-- Behind a character there is the end of a line end exactly if the character ends a line. -/
theorem lineEndsAt_append_iff :
    LineEndsAt (front ++ c :: after) (front.length + 1) ↔ endsLine c after := by
  rw [lineEndsAt_iff]
  constructor
  · rintro ⟨front', c', after', heq, hlength, h⟩
    obtain ⟨rfl, hrest⟩ := List.append_inj heq (Nat.succ.inj hlength)
    obtain ⟨rfl, rfl⟩ := List.cons.inj hrest
    exact h
  · intro h
    exact ⟨front, c, after, rfl, rfl, h⟩

/-- No line ends before the first character. -/
theorem not_lineEndsAt_zero : ¬ LineEndsAt text 0 := by
  rintro ⟨⟩

/-- Whether the character before an offset ends a line. -/
def endsLineBefore (text : List CodePoint) : Nat → Bool
  | 0 => false
  | i + 1 =>
    match text.drop i with
    | [] => false
    | c :: after => endsLine c after

/-- Whether a line ends before a place is seen from the two characters around it. -/
theorem endsLineBefore_iff : endsLineBefore text stop ↔ LineEndsAt text stop := by
  unfold endsLineBefore
  split
  · simp [not_lineEndsAt_zero]
  · next i =>
    split
    · next hdrop =>
      refine iff_of_false (by simp) fun h => ?_
      obtain ⟨front, c, after, rfl, hlength, -⟩ := lineEndsAt_iff.1 h
      obtain rfl : i = front.length := Nat.succ.inj hlength
      simp at hdrop
    · next c after hdrop =>
      obtain ⟨front, hsplit, hlength⟩ : ∃ front, text = front ++ c :: after ∧ front.length = i := by
        have hne : ¬ text.length ≤ i := fun hle => by simp [List.drop_eq_nil_of_le hle] at hdrop
        refine ⟨text.take i, by rw [← hdrop, List.take_append_drop], ?_⟩
        rw [List.length_take]
        omega
      subst hsplit hlength
      exact lineEndsAt_append_iff.symm

instance : Decidable (LineEndsAt text stop) :=
  decidable_of_iff _ endsLineBefore_iff

/-- Where the line ends of a text end up to an offset, in order. -/
def lineEnds (text : List CodePoint) (p : Nat) : List Nat :=
  (List.range (p + 1)).filter fun stop => LineEndsAt text stop

/-- The line ends before a place do not lie behind it. -/
theorem le_of_mem_lineEnds (h : stop ∈ lineEnds text p) : stop ≤ p := by
  rw [lineEnds, List.mem_filter, List.mem_range] at h
  exact Nat.le_of_lt_succ h.1

/-- Up to a later offset there are the same line ends and then later ones. -/
theorem lineEnds_split (text : List CodePoint) (h : p ≤ q) :
    ∃ later, lineEnds text q = lineEnds text p ++ later ∧ ∀ stop ∈ later, p < stop := by
  obtain ⟨n, rfl⟩ := Nat.exists_eq_add_of_le h
  refine ⟨_, by rw [lineEnds, Nat.add_right_comm, List.range_add, List.filter_append, lineEnds], ?_⟩
  intro stop hstop
  obtain ⟨i, -, rfl⟩ := List.mem_map.1 (List.mem_filter.1 hstop).1
  omega

/-- The last of the line ends up to an offset is not behind it. -/
theorem getLastD_lineEnds_le (text : List CodePoint) (p : Nat) :
    (lineEnds text p).getLastD 0 ≤ p := by
  rcases List.eq_nil_or_concat (lineEnds text p) with h | ⟨stops, stop, h⟩
  · simp [h]
  · have hstop : stop ∈ lineEnds text p := by simp [h]
    simpa [h] using le_of_mem_lineEnds hstop

/-! ## Where lines begin -/

/-- Lines begin behind the line ends. -/
theorem lineStartsFrom_eq (front after : List CodePoint) (found : Array Nat) :
    (lineStartsFrom front.length found after).toList = found.toList ++
      (List.range' (front.length + 1) after.length).filter
        fun stop => LineEndsAt (front ++ after) stop := by
  induction after generalizing front found with
  | nil => simp [lineStartsFrom]
  | cons c after ih =>
    have hrest := ih (front ++ [c])
      (if endsLine c after then found.push (front.length + 1) else found)
    rw [List.length_append, List.length_singleton, List.append_assoc,
      List.singleton_append] at hrest
    rw [lineStartsFrom, hrest, List.length_cons, List.range'_succ, List.filter_cons]
    simp only [lineEndsAt_append_iff]
    split <;> simp_all

/-- The lines of an index begin at the beginning of the text and behind its line ends. -/
theorem LineIndex.starts_ofText (text : List CodePoint) :
    (LineIndex.ofText text).starts.toList = 0 :: lineEnds text text.length := by
  have hstarts : (LineIndex.ofText text).starts.toList = _ := lineStartsFrom_eq [] text #[0]
  rw [lineEnds, List.range_eq_range', List.range'_succ, List.filter_cons,
    if_neg (by simp [not_lineEndsAt_zero])]
  simpa using hstarts

/-- The lines that begin at an offset or before are the first one and one behind each line end up to
the offset. The last of them begins where the last of these line ends ends. -/
theorem LineIndex.starts_le_iff (h : p ≤ text.length) (j : Fin (ofText text).starts.size) :
    ((ofText text).starts[j] ≤ p ↔ j.val ≤ (lineEnds text p).length) ∧
      (j.val = (lineEnds text p).length →
        (ofText text).starts[j] = (lineEnds text p).getLastD 0) := by
  obtain ⟨later, hsplit, hlater⟩ := lineEnds_split text h
  have hstarts : (ofText text).starts.toList = (0 :: lineEnds text p) ++ later := by
    rw [starts_ofText, hsplit, List.cons_append]
  have hsize : j.val < ((0 :: lineEnds text p) ++ later).length := by
    rw [← hstarts, Array.length_toList]
    exact j.isLt
  have hj : (ofText text).starts[j] = ((0 :: lineEnds text p) ++ later)[j.val] := by
    simp [← hstarts]
  rw [hj, List.getElem_append]
  split
  · next hlt =>
    have hbefore : ∀ x ∈ 0 :: lineEnds text p, x ≤ p :=
      List.forall_mem_cons.2 ⟨Nat.zero_le p, fun x hx => le_of_mem_lineEnds hx⟩
    refine ⟨iff_of_true (hbefore _ (List.getElem_mem hlt)) (Nat.le_of_lt_succ hlt), fun hlast => ?_⟩
    rw [← List.getLastD_cons (a := 0), List.getLastD_eq_getLast?, List.getLast?_eq_getElem?]
    simp [hlast]
  · next hlt =>
    rw [List.length_append] at hsize
    have hrest : j.val - (0 :: lineEnds text p).length < later.length := by omega
    have hlater : p < later[j.val - (0 :: lineEnds text p).length] := hlater _ (List.getElem_mem _)
    rw [List.length_cons] at hlt
    exact ⟨iff_of_false (by omega) (by omega), by omega⟩

/-! ## The search -/

/-- Halving finds the last line that begins at an offset or before, if it is between the lines that
the search is given. -/
theorem LineIndex.lineBetween_eq {starts : Array Nat} {offset line : Nat}
    {left right : Fin starts.size}
    (hline : ∀ j : Fin starts.size, starts[j] ≤ offset ↔ j.val ≤ line) (hleft : left.val ≤ line)
    (hright : line ≤ right.val) : (lineBetween starts offset left right).val = line := by
  fun_induction lineBetween starts offset left right with
  | case1 left right hlt middle hmiddle ih => exact ih ((hline middle).1 hmiddle) hright
  | case2 left right hlt middle hmiddle ih =>
    have hlater : ¬ middle.val ≤ line := fun h => hmiddle ((hline middle).2 h)
    have hright : line ≤ middle.val - 1 := by omega
    exact ih hleft hright
  | case3 left right hlt => omega

/-- An offset of the text is on the line behind the last line end up to it. -/
theorem LineIndex.lineAt_ofText (h : p ≤ text.length) :
    ((ofText text).lineAt p).val = (lineEnds text p).length := by
  have hsize : (lineEnds text p).length < (ofText text).starts.size := by
    obtain ⟨later, hsplit, -⟩ := lineEnds_split text h
    rw [← Array.length_toList, starts_ofText, hsplit, List.length_cons, List.length_append]
    omega
  exact lineBetween_eq (fun j => (starts_le_iff h j).1) (Nat.zero_le _) (Nat.le_sub_one_of_lt hsize)

/-! ## Places -/

/-- The place of an offset counts the line ends up to it, and from the last of them. -/
theorem LineIndex.place_eq (text : List CodePoint) (offset : Int) :
    (ofText text).place offset =
      (1 + (lineEnds text ((ofText text).clamp offset)).length,
        1 + (ofText text).clamp offset -
          (lineEnds text ((ofText text).clamp offset)).getLastD 0) := by
  have hp : (ofText text).clamp offset ≤ text.length := by
    simp only [clamp, ofText]
    omega
  have hle := getLastD_lineEnds_le text ((ofText text).clamp offset)
  have hline := lineAt_ofText hp
  have hlast := (starts_le_iff hp _).2 hline
  simp only [place, hline, hlast, Prod.mk.injEq]
  omega

/-- A place in a text is not moved. -/
theorem LineIndex.clamp_ofText (h : p ≤ text.length) : (ofText text).clamp p = p := by
  simp only [clamp, ofText]
  omega

/-- A later offset of the text has a later place: a later line, or a later column of the same
line. -/
theorem LineIndex.place_lt (h : p < q) (hq : q ≤ text.length) :
    toLex ((ofText text).place p) < toLex ((ofText text).place q) := by
  obtain ⟨later, hsplit, hlater⟩ := lineEnds_split text h.le
  rw [place_eq, place_eq, clamp_ofText (h.le.trans hq), clamp_ofText hq,
    Prod.Lex.toLex_lt_toLex, hsplit]
  cases later with
  | nil =>
    have hle := getLastD_lineEnds_le text p
    rw [List.append_nil]
    exact .inr ⟨rfl, by omega⟩
  | cons stop later =>
    refine .inl ?_
    rw [List.length_append, List.length_cons]
    omega

/-- The place of an offset, first moved into the text: its line is one more than the line ends up to
it, and its column counts from the end of the last of them, or from the beginning of the text.
Places grow with the offsets of the text, so no two of these have the same place. -/
theorem LineIndex.place_ofText (text : List CodePoint) :
    (∀ offset : Int,
      let p := (max 0 (min offset text.length)).toNat
      (ofText text).place offset =
          (1 + (lineEnds text p).length, 1 + p - (lineEnds text p).getLastD 0) ∧
        1 ≤ ((ofText text).place offset).1 ∧ 1 ≤ ((ofText text).place offset).2) ∧
    StrictMonoOn (fun p : Nat => toLex ((ofText text).place p)) (Set.Iic text.length) ∧
    Set.InjOn (fun p : Nat => (ofText text).place p) (Set.Iic text.length) := by
  have hmono : StrictMonoOn (fun p : Nat => toLex ((ofText text).place p)) (Set.Iic text.length) :=
    fun p _ q hq h => place_lt h hq
  refine ⟨fun offset => ⟨place_eq text offset, one_le_line _ _, one_le_column _ _⟩, hmono, ?_⟩
  exact fun p hp q hq h => hmono.injOn hp hq (congrArg toLex h)

end ByteLayout.Text
