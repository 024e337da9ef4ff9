import Mathlib.Data.List.Forall2
import Mathlib.Data.List.Perm.Basic
import Mathlib.Data.List.Perm.Subperm
import Mathlib.Data.List.TakeWhile

/-!
# Lists

What a condition takes of the front of a list and what it leaves, and lists that are related member
by member: their last members, their members one by one, and what is left of both lists when members
of one of them are dropped or change places.

`PrefixCode` says of codes for the members of a row that the row can be read back from them up to a
mark that ends it (`PrefixCode.row_unique`).

`Collects` gathers the values that the members of a list give, where a member may give none. A state
that is folded over the list shows them (`Collects.foldl_eq`): what is seen of it is what the values
make of the start.
-/

namespace ByteLayout

variable {α β : Type}

/-! ## The front of a list -/

section Front

variable {p : α → Bool} {front rest : List α}

/-- What a condition takes of a list that goes on with a member that fails it. -/
theorem takeWhile_append_stop (hfront : ∀ x ∈ front, p x) (hrest : ∀ x ∈ rest.head?, p x = false) :
    (front ++ rest).takeWhile p = front := by
  have hstop : rest.takeWhile p = [] := by
    cases rest with
    | nil => rfl
    | cons x rest => rw [List.takeWhile_cons_of_neg (by simp [hrest x rfl])]
  rw [List.takeWhile_append_of_pos hfront, hstop, List.append_nil]

/-- What a condition leaves of a list that goes on with a member that fails it. -/
theorem dropWhile_append_stop (hfront : ∀ x ∈ front, p x) (hrest : ∀ x ∈ rest.head?, p x = false) :
    (front ++ rest).dropWhile p = rest := by
  rw [List.dropWhile_append_of_pos hfront]
  cases rest with
  | nil => rfl
  | cons x rest => rw [List.dropWhile_cons_of_neg (by simp [hrest x rfl])]

/-- A list is cut in one way only where members that meet a condition end. -/
theorem append_stop_unique {front' rest' : List α} (hfront : ∀ x ∈ front, p x)
    (hrest : ∀ x ∈ rest.head?, p x = false) (hfront' : ∀ x ∈ front', p x)
    (hrest' : ∀ x ∈ rest'.head?, p x = false) (h : front ++ rest = front' ++ rest') :
    front = front' ∧ rest = rest' := by
  refine ⟨?_, ?_⟩
  · rw [← takeWhile_append_stop hfront hrest, h, takeWhile_append_stop hfront' hrest']
  · rw [← dropWhile_append_stop hfront hrest, h, dropWhile_append_stop hfront' hrest']

/-- What a condition leaves begins with a member that fails it. -/
theorem head_dropWhile (p : α → Bool) (xs : List α) :
    ∀ x ∈ (xs.dropWhile p).head?, p x = false := by
  intro x hx
  have hnot := List.head?_dropWhile_not p xs
  rw [Option.mem_def.1 hx] at hnot
  exact hnot

/-- A list is what a condition takes of it and what goes on with a member that fails it. -/
theorem takeWhile_split (p : α → Bool) (xs : List α) :
    ∃ rest, xs = xs.takeWhile p ++ rest ∧ (∀ x ∈ xs.takeWhile p, p x) ∧
      ∀ x ∈ rest.head?, p x = false :=
  ⟨xs.dropWhile p, List.takeWhile_append_dropWhile.symm, fun _ => List.mem_takeWhile_imp,
    head_dropWhile p xs⟩

end Front

/-! ## Related lists -/

section Related

variable {r : α → β → Prop} {as as' : List α} {bs : List β} {a : α} {b : β}

/-- Related lists with one member more. -/
theorem forall₂_concat : List.Forall₂ r (as ++ [a]) bs ↔
    ∃ bs' b, bs = bs' ++ [b] ∧ List.Forall₂ r as bs' ∧ r a b := by
  constructor
  · intro h
    induction as generalizing bs with
    | nil =>
      obtain ⟨b, bs', hb, hnil, rfl⟩ := List.forall₂_cons_left_iff.1 h
      obtain rfl := List.forall₂_nil_left_iff.1 hnil
      exact ⟨[], b, rfl, .nil, hb⟩
    | cons x as ih =>
      obtain ⟨y, ys, hy, hys, rfl⟩ := List.forall₂_cons_left_iff.1 h
      obtain ⟨bs', b, rfl, hbs, hb⟩ := ih hys
      exact ⟨y :: bs', b, rfl, .cons hy hbs, hb⟩
  · rintro ⟨bs', b, rfl, hbs, hb⟩
    exact List.rel_append hbs (.cons hb .nil)

/-- An element on the left has a partner. -/
theorem forall₂_of_mem_left (h : List.Forall₂ r as bs) (ha : a ∈ as) : ∃ b ∈ bs, r a b := by
  induction h with
  | nil => cases ha
  | cons hr _ ih =>
    rcases List.mem_cons.1 ha with rfl | ha
    · exact ⟨_, List.mem_cons_self, hr⟩
    · obtain ⟨b, hb, hr⟩ := ih ha
      exact ⟨b, List.mem_cons_of_mem _ hb, hr⟩

/-- An element on the right has a partner. -/
theorem forall₂_of_mem_right (h : List.Forall₂ r as bs) (hb : b ∈ bs) : ∃ a ∈ as, r a b :=
  forall₂_of_mem_left h.flip hb

/-- When members of a list are dropped, so are those that they are related to. -/
theorem exists_sublist_of_forall₂ (h : List.Forall₂ r as bs) (has : as'.Sublist as) :
    ∃ bs' : List β, bs'.Sublist bs ∧ List.Forall₂ r as' bs' := by
  induction has generalizing bs with
  | slnil => exact ⟨[], List.nil_sublist bs, .nil⟩
  | cons a _ ih =>
    obtain ⟨b, bs', -, hrest, rfl⟩ := List.forall₂_cons_left_iff.1 h
    obtain ⟨cs, hcs, hr⟩ := ih hrest
    exact ⟨cs, hcs.cons b, hr⟩
  | cons_cons a _ ih =>
    obtain ⟨b, bs', hb, hrest, rfl⟩ := List.forall₂_cons_left_iff.1 h
    obtain ⟨cs, hcs, hr⟩ := ih hrest
    exact ⟨b :: cs, hcs.cons_cons b, .cons hb hr⟩

/-- When members of a list are dropped and the others change places, so do those that they are
related to. -/
theorem exists_subperm_of_forall₂ (h : List.Forall₂ r as bs) (has : as'.Subperm as) :
    ∃ bs' : List β, bs'.Subperm bs ∧ List.Forall₂ r as' bs' := by
  obtain ⟨kept, hperm, hkept⟩ := has
  obtain ⟨cs, hcs, hr⟩ := exists_sublist_of_forall₂ h hkept
  obtain ⟨bs', hr', hperm'⟩ := List.perm_comp_forall₂ hperm.symm hr
  exact ⟨bs', ⟨cs, hperm'.symm, hcs⟩, hr'⟩

/-- What is left of the images of a list, in any order, are the images of what is left of it. -/
theorem exists_subperm_of_map {f : α → β} (h : bs.Subperm (as.map f)) :
    ∃ as' : List α, as'.Subperm as ∧ as'.map f = bs := by
  have himages : List.Forall₂ (fun b a => b = f a) (as.map f) as :=
    List.forall₂_map_left_iff.2 (List.forall₂_same.2 fun _ _ => rfl)
  obtain ⟨as', has, heq⟩ := exists_subperm_of_forall₂ himages h
  rw [← List.forall₂_map_right_iff, List.forall₂_eq_eq_eq] at heq
  exact ⟨as', has, heq.symm⟩

/-- Related lists are cut into related parts where the cuts are at related members. -/
theorem forall₂_splitOnP {p : α → Bool} {q : β → Bool} (h : List.Forall₂ r as bs)
    (hcut : ∀ a b, r a b → p a = q b) :
    List.Forall₂ (List.Forall₂ r) (as.splitOnP p) (bs.splitOnP q) := by
  induction h with
  | nil => exact .cons .nil .nil
  | @cons a b as bs hab hrest ih =>
    rw [List.splitOnP_cons_eq_if_modifyHead, List.splitOnP_cons_eq_if_modifyHead, hcut a b hab]
    split
    · exact .cons .nil ih
    · generalize as.splitOnP p = parts at ih ⊢
      generalize bs.splitOnP q = parts' at ih ⊢
      cases ih with
      | nil => exact .nil
      | cons hpart hparts => exact .cons (.cons hab hpart) hparts

end Related

/-! ## Rows of codes -/

section Codes

variable {codes : List β → α → Prop} {mark : β}

/-- Codes for the members of rows that end with a mark: whatever follows a code, it is no other code
and not that of another member, and it does not begin with the mark. -/
structure PrefixCode (codes : List β → α → Prop) (mark : β) : Prop where
  /-- A code tells where it ends, and its member. -/
  unique : ∀ {code code' : List β} {a a' : α} {x y : List β}, codes code a → codes code' a' →
    code ++ x = code' ++ y → code = code' ∧ a = a'
  /-- A code does not begin with the mark. -/
  ne_mark : ∀ {code : List β} {a : α} {x y : List β}, codes code a → code ++ x ≠ mark :: y

/-- The codes of the members of a row, one after the other. -/
inductive CodeRow (codes : List β → α → Prop) : List β → List α → Prop
  /-- There is no member. -/
  | nil : CodeRow codes [] []
  /-- The code of the first member and those of the others. -/
  | cons {code row : List β} {a : α} {as : List α} (h : codes code a)
    (hrest : CodeRow codes row as) : CodeRow codes (code ++ row) (a :: as)

/-- Codes one after the other are a row. -/
theorem CodeRow.of_flatMap {code : α → List β} (h : ∀ a, codes (code a) a) (as : List α) :
    CodeRow codes (as.flatMap code) as := by
  induction as with
  | nil => exact .nil
  | cons a as ih => exact .cons (h a) ih

/-- What stands before the mark is the row of one list of members only. -/
theorem PrefixCode.row_unique (hcode : PrefixCode codes mark) {row row' x y : List β}
    {as as' : List α} (h : CodeRow codes row as) (h' : CodeRow codes row' as')
    (heq : row ++ mark :: x = row' ++ mark :: y) : as = as' ∧ x = y := by
  induction h generalizing row' as' with
  | nil =>
    cases h' with
    | nil => exact ⟨rfl, List.tail_eq_of_cons_eq heq⟩
    | cons ha =>
      rw [List.append_assoc] at heq
      exact absurd heq.symm (hcode.ne_mark ha)
  | cons ha _ ih =>
    rw [List.append_assoc] at heq
    cases h' with
    | nil => exact absurd heq (hcode.ne_mark ha)
    | cons ha' hrest' =>
      rw [List.append_assoc] at heq
      obtain ⟨rfl, rfl⟩ := hcode.unique ha ha' heq
      obtain ⟨rfl, hrest⟩ := ih hrest' (List.append_cancel_left heq)
      exact ⟨rfl, hrest⟩

end Codes

/-! ## Values that members give -/

section Values

variable {gives : α → β → Prop} {as : List α} {bs : List β}

/-- The values that the members of a list give, in order. A member may give none. -/
inductive Collects (gives : α → β → Prop) : List α → List β → Prop
  /-- There is no member. -/
  | nil : Collects gives [] []
  /-- The first member gives a value. -/
  | take {a : α} {b : β} {as : List α} {bs : List β} (h : gives a b)
    (hrest : Collects gives as bs) : Collects gives (a :: as) (b :: bs)
  /-- The first member gives no value. -/
  | skip {a : α} {as : List α} {bs : List β} (h : ∀ b, ¬ gives a b)
    (hrest : Collects gives as bs) : Collects gives (a :: as) bs

/-- What the elements of a list give can be collected. -/
theorem exists_collects (gives : α → β → Prop) (as : List α) : ∃ bs, Collects gives as bs := by
  induction as with
  | nil => exact ⟨[], .nil⟩
  | cons a as ih =>
    obtain ⟨bs, hbs⟩ := ih
    by_cases h : ∃ b, gives a b
    · obtain ⟨b, hb⟩ := h
      exact ⟨b :: bs, .take hb hbs⟩
    · exact ⟨bs, .skip (not_exists.1 h) hbs⟩

/-- What is seen of a state is changed by the values that are given and by nothing else. -/
theorem Collects.foldl_eq {σ γ : Type} {next : σ → α → σ} {view : σ → γ} {put : γ → β → γ}
    (h : Collects gives as bs) (kept : σ → Prop) (allowed : α → Prop)
    (hkept : ∀ s a, kept s → allowed a → kept (next s a))
    (hput : ∀ s a b, kept s → allowed a → gives a b → view (next s a) = put (view s) b)
    (hother : ∀ s a, kept s → allowed a → (∀ b, ¬ gives a b) → view (next s a) = view s)
    {s : σ} (hs : kept s) (has : ∀ a ∈ as, allowed a) :
    view (as.foldl next s) = bs.foldl put (view s) := by
  induction h generalizing s with
  | nil => rfl
  | @take a b as bs hb hrest ih =>
    rw [List.forall_mem_cons] at has
    rw [List.foldl_cons, List.foldl_cons, ← hput s a b hs has.1 hb]
    exact ih (hkept s a hs has.1) has.2
  | @skip a as bs hnone hrest ih =>
    rw [List.forall_mem_cons] at has
    rw [List.foldl_cons, ← hother s a hs has.1 hnone]
    exact ih (hkept s a hs has.1) has.2

/-- Members that give no value may be left out. -/
theorem Collects.filter {p : α → Bool} (h : Collects gives as bs)
    (hp : ∀ a b, gives a b → p a) : Collects gives (as.filter p) bs := by
  induction h with
  | nil => exact .nil
  | @take a b as bs hb hrest ih =>
    rw [List.filter_cons_of_pos (hp a b hb)]
    exact .take hb ih
  | @skip a as bs hnone hrest ih =>
    by_cases ha : p a
    · rw [List.filter_cons_of_pos ha]
      exact .skip hnone ih
    · rw [List.filter_cons_of_neg ha]
      exact ih

/-- Where a member gives one value at most, the values are determined. -/
theorem Collects.unique {cs : List β} (h : Collects gives as bs) (h' : Collects gives as cs)
    (hgives : ∀ a b c, gives a b → gives a c → b = c) : bs = cs := by
  induction h generalizing cs with
  | nil =>
    cases h'
    rfl
  | @take a b as bs hb hrest ih =>
    cases h' with
    | take hc hrest' => rw [hgives a _ _ hb hc, ih hrest']
    | skip hnone => exact absurd hb (hnone b)
  | @skip a as bs hnone hrest ih =>
    cases h' with
    | take hc => exact absurd hc (hnone _)
    | skip _ hrest' => exact ih hrest'

/-- Folding over values of which each replaces what was there leads to the last one. -/
theorem foldl_last (start : β) (bs : List β) :
    bs.foldl (fun _ b => b) start = bs.getLastD start := by
  induction bs generalizing start with
  | nil => rfl
  | cons b bs ih => rw [List.foldl_cons, ih, List.getLastD_cons]

end Values

/-- Some elements of a list without duplicates have none. -/
theorem nodup_of_subperm {as bs : List α} (h : as.Subperm bs) (hbs : bs.Nodup) : as.Nodup := by
  obtain ⟨kept, hperm, hkept⟩ := h
  exact hperm.nodup_iff.1 (hbs.sublist hkept)

/-- What is made of some elements is among what is made of all. -/
theorem subperm_map {as bs : List α} (f : α → β) (h : as.Subperm bs) :
    (as.map f).Subperm (bs.map f) := by
  obtain ⟨kept, hperm, hkept⟩ := h
  exact ⟨kept.map f, hperm.map f, hkept.map f⟩

end ByteLayout
