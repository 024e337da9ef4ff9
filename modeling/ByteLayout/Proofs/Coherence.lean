import ByteLayout.Proofs.Consistency
import Mathlib.Data.List.Nodup

/-!
# Environments under any calls

The operations on an environment can be called in any order, also in one that no program leads to:
a field may be added after the generator has begun, and one may be selected and then another group
begun. `Call` lists the operations, and `Environment.Coherent` is what all of them keep: groups
stand under their names, the names of fields are distinct, bounds are in order, and what is current
is there.

`Environment.Coherent.step`: a call that succeeds keeps an environment coherent. A call that fails
leaves it as it is, and never fails because something current is not there (`Call.safe`). By
induction over the calls, `coherent_afterCalls` says so of every environment that calls lead to.
-/

namespace ByteLayout

open Edit (allOrNothing)

/-! ## Calls -/

/-- A call of an operation on an environment. A field comes with the content that its definition
is made from. -/
inductive Call where
  /-- Begins a group. -/
  | createGroup (name : Text)
  /-- Begins the generator. -/
  | createGenerator (name : Text)
  /-- Adds a field to the current group. -/
  | createField (content : Content) (name : Option Text)
  /-- Selects a field of the current group. -/
  | useField (name : Text)
  /-- Sets an attribute of the selected field. -/
  | updateField (attr : Text) (argument : Expr)
  /-- Sets a parameter of the generator. -/
  | setParameter (name : Text) (value : Expr)
  /-- Forgets the current group and the selected field. -/
  | clearCurrent

namespace Call

/-- What a call does to an environment. -/
def edit : Call → Edit Environment EnvironmentError Unit
  | createGroup name => Environment.beginGroup name
  | createGenerator name => Environment.beginGenerator name
  | createField content name => Environment.appendField content.definition name
  | useField name => Environment.selectField name
  | updateField attr argument => Environment.assignAttribute attr argument
  | setParameter name value => Environment.assignParameter name value
  | clearCurrent => modify Environment.clearCurrent

/-- The environment that a call leads to. -/
def result (env : Environment) : Call → Except EnvironmentError Environment
  | createGroup name => env.createGroup name
  | createGenerator name => env.createGenerator name
  | createField content name => Evaluator.addField env content.definition name
  | useField name => env.useField name
  | updateField attr argument => env.updateField attr argument
  | setParameter name value => env.setParameter name value
  | clearCurrent => .ok env.clearCurrent

/-- A call does all of what it results in, or nothing. -/
theorem apply_edit (c : Call) (env : Environment) :
    c.edit.apply env = allOrNothing (fun _ => ()) env (c.result env) := by
  cases c with
  | createGroup name => exact Environment.apply_beginGroup name env
  | createGenerator name => exact Environment.apply_beginGenerator name env
  | createField content name => exact Environment.apply_appendField content.definition name env
  | useField name => exact Environment.apply_selectField name env
  | updateField attr argument => exact Environment.apply_assignAttribute attr argument env
  | setParameter name value => exact Environment.apply_assignParameter name value env
  | clearCurrent => rfl

end Call

/-- The environment after some calls, those that fail included. -/
def Environment.afterCalls (env : Environment) (cs : List Call) : Environment :=
  cs.foldl (fun env c => (c.edit.apply env).2) env

/-! ## What calls keep -/

/-- What a group under a key keeps to. -/
structure Group.Coherent (key : Text) (g : Group) : Prop where
  /-- The key is the name of the group. -/
  name : g.name = key
  /-- No two fields have the same name. -/
  nodup : (g.fields.filterMap Field.name).Nodup
  /-- The bounds of all fields are in order. -/
  ordered : ∀ f ∈ g.fields, f.definition.Ordered

/-- The groups and what is current go together. -/
structure Environment.Coherent (env : Environment) : Prop where
  /-- No two groups have the same key. -/
  nodup : (env.groups.map Prod.fst).Nodup
  /-- Groups stand under their names, with fields of distinct names and with bounds in order. -/
  groups : ∀ entry ∈ env.groups, entry.2.Coherent entry.1
  /-- The current group is there. -/
  currentGroup : ∀ key ∈ env.currentGroup, key ∈ env.groups.map Prod.fst
  /-- A field is selected only in a current group, and just one field of it has its name. -/
  currentField : ∀ m ∈ env.currentField, ∃ key g, env.currentGroup = some key ∧
    env.group? key = some g ∧ g.fields.countP (fun f => f.name = some m) = 1

/-- What a call answers where the groups and what is current go together. -/
structure Call.Safe (env : Environment) (c : Call) : Prop where
  /-- A call that fails leaves the environment as it is. -/
  unchanged : ∀ e, (c.edit.apply env).1 = .error e → (c.edit.apply env).2 = env
  /-- No call misses the current group. -/
  group_found : ∀ key, (c.edit.apply env).1 ≠ .error (.danglingGroup key)
  /-- No update misses the selected field. -/
  field_found : ∀ attr argument, c = .updateField attr argument →
    ∀ name group, (c.edit.apply env).1 ≠ .error (.problem (.fieldNotFound name group))

/-! ## Groups -/

section Groups

variable {g g' : Group} {f : Field} {fs : List Field} {d' : FieldDefinition} {key m attr : Text}
  {argument : Expr}

/-- Where names are distinct, a name that is there is that of one field. -/
theorem Group.countP_name (h : (g.fields.filterMap Field.name).Nodup) :
    g.fields.countP (fun f => f.name = some m) = 1 ↔ some m ∈ g.fields.map Field.name := by
  have hcount : (g.fields.filterMap Field.name).count m =
      g.fields.countP (fun f => f.name = some m) := by
    rw [List.count_filterMap]
    exact List.countP_congr (by simp)
  rw [← hcount]
  constructor
  · intro hone
    have hmem : m ∈ g.fields.filterMap Field.name := List.count_pos_iff.1 (by omega)
    obtain ⟨f, hf, hname⟩ := List.mem_filterMap.1 hmem
    exact List.mem_map.2 ⟨f, hf, hname⟩
  · intro hmem
    obtain ⟨f, hf, hname⟩ := List.mem_map.1 hmem
    exact List.count_eq_one_of_mem h (List.mem_filterMap.2 ⟨f, hf, hname⟩)

/-- What holds of all definitions holds of them after a new one for which it holds. -/
theorem Group.forall_setDefinition {p : FieldDefinition → Prop}
    (h : ∀ f ∈ fs, p f.definition) (hd : p d') :
    ∀ f ∈ setDefinition m d' fs, p f.definition := by
  induction fs with
  | nil => exact h
  | cons f fs ih =>
    rw [List.forall_mem_cons] at h
    unfold setDefinition
    split
    · rw [List.forall_mem_cons]
      exact ⟨hd, h.2⟩
    · rw [List.forall_mem_cons]
      exact ⟨h.1, ih h.2⟩

/-- A group without fields is coherent. -/
theorem Group.coherent_new (key : Text) : Group.Coherent key { name := key } :=
  ⟨rfl, List.nodup_nil, by simp⟩

/-- A field of a new name keeps a group coherent. -/
theorem Group.Coherent.addField (h : g.Coherent key) (hf : f.definition.Ordered)
    (hadd : g.addField f = .ok g') : g'.Coherent key := by
  have hnodup := Group.nodup_addField h.nodup hadd
  obtain ⟨-, rfl⟩ := Group.addField_eq_ok.1 hadd
  refine ⟨h.name, hnodup, ?_⟩
  rw [List.forall_mem_append, List.forall_mem_singleton]
  exact ⟨h.ordered, hf⟩

/-- An attribute keeps a group coherent. -/
theorem Group.Coherent.updateField (h : g.Coherent key)
    (hupdate : g.updateField m attr argument = .ok g') : g'.Coherent key := by
  have hnodup := Group.nodup_updateField h.nodup hupdate
  obtain ⟨f, d', hfind, hd', rfl⟩ := Group.updateField_eq_ok.1 hupdate
  have hordered := h.ordered f (List.mem_of_find?_eq_some hfind)
  exact ⟨h.name, hnodup,
    Group.forall_setDefinition h.ordered (FieldDefinition.ordered_update hordered hd')⟩

end Groups

/-! ## Groups under keys -/

namespace Environment

section Keys

variable {groups : List (Text × Group)} {env : Environment} {key : Text} {g g' : Group}

/-- Groups are found under their keys. -/
theorem mem_keys : key ∈ env.groups.map Prod.fst ↔ ∃ g, env.group? key = some g := by
  rw [← Option.ne_none_iff_exists', ne_eq, group?_eq_none]
  simp

/-- Keys stay as they are when a group is put under one that is there. -/
theorem keys_putGroup (h : key ∈ groups.map Prod.fst) (g' : Group) :
    (putGroup key g' groups).map Prod.fst = groups.map Prod.fst := by
  induction groups with
  | nil => cases h
  | cons entry groups ih =>
    unfold putGroup
    split
    · next hkey => rw [List.map_cons, List.map_cons, hkey]
    · next hkey =>
      rw [List.map_cons, List.mem_cons] at h
      rw [List.map_cons, List.map_cons, ih (h.resolve_left (Ne.symm hkey))]

/-- An entry is the one that is put or one that was there. -/
theorem mem_putGroup {entry : Text × Group} (h : entry ∈ putGroup key g' groups) :
    entry = (key, g') ∨ entry ∈ groups := by
  induction groups with
  | nil => exact .inl (List.mem_singleton.1 h)
  | cons first groups ih =>
    unfold putGroup at h
    split at h
    · rcases List.mem_cons.1 h with h | h
      · exact .inl h
      · exact .inr (List.mem_cons_of_mem _ h)
    · rcases List.mem_cons.1 h with rfl | h
      · exact .inr List.mem_cons_self
      · exact (ih h).imp_right (List.mem_cons_of_mem _)

/-- A group that is put under a key is found there. -/
theorem find?_putGroup (key : Text) (g' : Group) (groups : List (Text × Group)) :
    (putGroup key g' groups).find? (fun entry => entry.1 = key) = some (key, g') := by
  induction groups with
  | nil => simp [putGroup]
  | cons entry groups ih =>
    unfold putGroup
    split
    · simp
    · next hkey => rw [List.find?_cons_of_neg (by simpa using hkey), ih]

end Keys

/-! ## One call -/

namespace Coherent

variable {env env' : Environment} {key m attr : Text} {g g' : Group} {argument : Expr}

/-- The empty environment is coherent. -/
theorem empty : Coherent {} :=
  ⟨List.nodup_nil, by simp, by simp, by simp⟩

/-- The groups of a coherent environment are coherent. -/
theorem group (h : env.Coherent) (hg : env.group? key = some g) : g.Coherent key :=
  h.groups _ ((group?_eq_some h.nodup).1 hg)

/-- The current group can be changed as long as it is coherent and no field disappears. -/
theorem put (h : env.Coherent) (hkey : env.currentGroup = some key)
    (hg : env.group? key = some g) (hg' : g'.Coherent key)
    (hnames : ∀ m, some m ∈ g.fields.map Field.name → some m ∈ g'.fields.map Field.name) :
    Coherent { env with groups := putGroup key g' env.groups } := by
  have hkeys := keys_putGroup (mem_keys.2 ⟨g, hg⟩) g'
  have hcoherent := h.group hg
  refine ⟨by rw [hkeys]; exact h.nodup, ?_, by rw [hkeys]; exact h.currentGroup, ?_⟩
  · intro entry hentry
    rcases mem_putGroup hentry with rfl | hold
    · exact hg'
    · exact h.groups entry hold
  · intro m hm
    obtain ⟨key', g₀, hkey', hg₀, hcount⟩ := h.currentField m hm
    obtain rfl : key = key' := Option.some.inj (hkey.symm.trans hkey')
    obtain rfl : g = g₀ := Option.some.inj (hg.symm.trans hg₀)
    have hmem := hnames m ((Group.countP_name hcoherent.nodup).1 hcount)
    refine ⟨key, g', hkey, ?_, (Group.countP_name hg'.nodup).2 hmem⟩
    rw [group?, find?_putGroup]
    rfl

/-- A new group keeps an environment coherent. -/
theorem createGroup (h : env.Coherent) (hcall : env.createGroup m = .ok env') :
    env'.Coherent := by
  obtain ⟨hnew, rfl⟩ := createGroup_eq_ok.1 hcall
  refine ⟨?_, ?_, by simp, by simp⟩
  · have hfresh : m ∉ env.groups.map Prod.fst := by
      rw [mem_keys, hnew]
      simp
    rw [List.map_append, List.map_singleton, ← List.concat_eq_append]
    exact h.nodup.concat hfresh
  · rw [List.forall_mem_append, List.forall_mem_singleton]
    exact ⟨h.groups, Group.coherent_new m⟩

/-- A new field keeps an environment coherent. -/
theorem createField {d : FieldDefinition} {name : Option Text} (h : env.Coherent)
    (hd : d.Ordered) (hcall : env.createField d name = .ok env') : env'.Coherent := by
  obtain ⟨key, g, g', hkey, hg, hadd, rfl⟩ := createField_eq_ok.1 hcall
  have hcoherent := h.group hg
  refine h.put hkey hg (hcoherent.addField hd hadd) ?_
  intro m hm
  obtain ⟨-, rfl⟩ := Group.addField_eq_ok.1 hadd
  rw [List.map_append]
  exact List.mem_append_left _ hm

/-- A selection keeps an environment coherent. -/
theorem useField (h : env.Coherent) (hcall : env.useField m = .ok env') : env'.Coherent := by
  obtain ⟨key, g, f, hkey, hg, hf, rfl⟩ := useField_eq_ok.1 hcall
  have hcoherent := h.group hg
  refine ⟨h.nodup, h.groups, h.currentGroup, ?_⟩
  rintro _ ⟨⟩
  exact ⟨key, g, hkey, hg,
    (Group.countP_name hcoherent.nodup).2 (Group.find?_isSome.1 ⟨f, hf⟩)⟩

/-- An attribute keeps an environment coherent. -/
theorem updateField (h : env.Coherent) (hcall : env.updateField attr argument = .ok env') :
    env'.Coherent := by
  obtain ⟨name, key, g, g', -, hkey, hg, hupdate, rfl⟩ := updateField_eq_ok.1 hcall
  have hcoherent := h.group hg
  refine h.put hkey hg (hcoherent.updateField hupdate) ?_
  intro m hm
  obtain ⟨f, d', -, -, rfl⟩ := Group.updateField_eq_ok.1 hupdate
  rw [Group.names_setDefinition]
  exact hm

/-- Nothing is said of the generator. -/
theorem withGenerator (h : env.Coherent) (generator : Option Generator) :
    Coherent { env with generator } :=
  ⟨h.nodup, h.groups, h.currentGroup, h.currentField⟩

/-- A call that succeeds keeps an environment coherent. -/
theorem step (h : env.Coherent) {c : Call} (hcall : c.result env = .ok env') :
    env'.Coherent := by
  cases c with
  | createGroup name => exact h.createGroup hcall
  | createGenerator name =>
    obtain ⟨-, rfl⟩ := createGenerator_eq_ok.1 hcall
    exact h.withGenerator _
  | createField content name =>
    obtain ⟨d, hd, hcreate⟩ := Evaluator.addField_eq_ok.1 hcall
    exact h.createField (Content.bounds_definition hd).ordered hcreate
  | useField name => exact h.useField hcall
  | updateField attr argument => exact h.updateField hcall
  | setParameter name value =>
    obtain ⟨g, g', -, -, rfl⟩ := setParameter_eq_ok.1 hcall
    exact h.withGenerator _
  | clearCurrent =>
    cases hcall
    exact ⟨h.nodup, h.groups, nofun, nofun⟩

/-- So does any call. -/
theorem afterCall (h : env.Coherent) (c : Call) : (c.edit.apply env).2.Coherent := by
  rw [c.apply_edit]
  cases hresult : c.result env with
  | error e => exact h
  | ok env' => exact h.step hresult

end Coherent

end Environment

/-! ## Failures -/

section Failures

variable {env : Environment} {attr key name group : Text} {argument : Expr}

/-- The current group is found. -/
theorem Environment.Coherent.current_ne_danglingGroup (h : env.Coherent) :
    env.current ≠ .error (.danglingGroup key) := by
  unfold Environment.current
  split
  · simp
  · next key' hkey =>
    obtain ⟨g, hg⟩ := Environment.mem_keys.1 (h.currentGroup key' hkey)
    rw [hg]
    simp

/-- The selected field is found. -/
theorem Environment.Coherent.updateField_ne_fieldNotFound (h : env.Coherent) :
    env.updateField attr argument ≠ .error (.problem (.fieldNotFound name group)) := by
  unfold Environment.updateField
  split
  · simp
  · next m hm =>
    obtain ⟨key, g, hkey, hg, hcount⟩ := h.currentField m hm
    obtain ⟨f, hf⟩ := Group.find?_isSome.2 ((Group.countP_name (h.group hg).nodup).1 hcount)
    rw [Environment.current_eq_ok.2 ⟨hkey, hg⟩]
    dsimp only
    rw [Group.updateField, hf]
    dsimp only
    cases hd : f.definition.update attr argument with
    | ok d' => simp [Except.map]
    | error e =>
      intro hfield
      obtain rfl := EnvironmentError.ofUpdate_eq_problem.1 (Except.error.inj hfield)
      exact Problem.not_ofAttribute rfl (FieldDefinition.code_of_update hd)

/-- The current group is found by every call. -/
theorem Environment.Coherent.result_ne_danglingGroup (h : env.Coherent) (c : Call) :
    c.result env ≠ .error (.danglingGroup key) := by
  intro hresult
  cases c with
  | createGroup name | createGenerator name | setParameter name value =>
    simp only [Call.result, Environment.createGroup, Environment.createGenerator,
      Environment.setParameter] at hresult
    grind
  | createField content name =>
    simp only [Call.result, Evaluator.addField, Environment.createField] at hresult
    split at hresult
    · cases hresult
    · split at hresult
      · next e he =>
        cases hresult
        exact h.current_ne_danglingGroup he
      · grind
  | useField name =>
    simp only [Call.result, Environment.useField] at hresult
    split at hresult
    · next e he =>
      cases hresult
      exact h.current_ne_danglingGroup he
    · grind
  | updateField attr argument =>
    simp only [Call.result, Environment.updateField] at hresult
    split at hresult
    · cases hresult
    · split at hresult
      · next e he =>
        cases hresult
        exact h.current_ne_danglingGroup he
      · grind
  | clearCurrent => cases hresult

end Failures

/-- A call on a coherent environment is safe. -/
theorem Call.safe (h : env.Coherent) (c : Call) : c.Safe env := by
  refine ⟨fun e he => Edit.unchanged_of_allOrNothing (c.apply_edit env) he, ?_, ?_⟩
  · intro key hkey
    rw [c.apply_edit] at hkey
    exact h.result_ne_danglingGroup c (Edit.allOrNothing_eq_error.1 hkey)
  · rintro attr argument rfl name group hfield
    rw [apply_edit] at hfield
    exact h.updateField_ne_fieldNotFound (Edit.allOrNothing_eq_error.1 hfield)

/-! ## All calls -/

/-- After any calls on an empty environment, those that fail included, the environment is coherent
and any further call is safe. -/
theorem coherent_afterCalls (cs : List Call) :
    (Environment.afterCalls {} cs).Coherent ∧
      ∀ c : Call, c.Safe (Environment.afterCalls {} cs) := by
  have hcoherent : (Environment.afterCalls {} cs).Coherent := by
    induction cs using List.reverseRecOn with
    | nil => exact .empty
    | append_singleton cs c ih =>
      rw [Environment.afterCalls, List.foldl_append]
      exact ih.afterCall c
  exact ⟨hcoherent, Call.safe hcoherent⟩

-- The last two calls fail, and the field stays selected although the generator has begun.
example : (Environment.afterCalls {} [.createGroup "a", .createField (.random "u8") (some "n"),
    .createGenerator "a", .useField "n", .createGroup "a",
    .createField (.random "u8") (some "n")]).currentField = some "n" := by
  decide +kernel

end ByteLayout
