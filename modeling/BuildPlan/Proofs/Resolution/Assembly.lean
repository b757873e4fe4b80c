import BuildPlan.Proofs.Graph.Listing
import BuildPlan.Proofs.Resolution.Discovery
import BuildPlan.Resolution.Assembly

/-!
# What an assembly stores

The store only grows, so what a descriptor was made from is still there at the end: the final store holds for every
assembled project the descriptor that the project has by this same store (`assembled_of_foldlM`). Projects with
dependencies first are all assembled if the store has none of them yet (`exists_assembled`).
-/

namespace BuildPlan

open Relation

namespace DescriptorStore

/-- Whether a store holds what another one holds. -/
def Extends (s s' : DescriptorStore) : Prop := ∀ x t e, s.get? x t = some e → s'.get? x t = some e

theorem get?_cons (s : DescriptorStore) (x y : String) (t u : Target) (e : Descriptor) :
    (⟨((x, t), e) :: s.entries⟩ : DescriptorStore).get? y u = if y = x ∧ u = t then some e else s.get? y u := by
  unfold get?
  rw [List.lookup_cons]
  by_cases h : y = x ∧ u = t
  · simp [h]
  · have hne : ((y, u) == (x, t)) = false := by simpa using h
    rw [if_neg h, hne]

/-- A descriptor is stored if its project has none on the target yet. -/
theorem insert_eq_ok_iff {s s' : DescriptorStore} {t : Target} {e : Descriptor} :
    s.insert t e = .ok s' ↔ s.get? e.project t = none ∧ s' = ⟨((e.project, t), e) :: s.entries⟩ := by
  unfold insert contains
  cases s.get? e.project t <;> simp [eq_comm]

theorem extends_of_insert {s s' : DescriptorStore} {t : Target} {e : Descriptor} (h : s.insert t e = .ok s') :
    s.Extends s' := by
  obtain ⟨hnone, rfl⟩ := insert_eq_ok_iff.mp h
  intro x u e' he
  rw [get?_cons, if_neg]
  · exact he
  · rintro ⟨rfl, rfl⟩
    rw [hnone] at he
    cases he

end DescriptorStore

namespace Discovery

variable {d : Discovery} {order : List String} {store store' : DescriptorStore}

/-! ### What is inherited -/

theorem inheritedFrom_of_extends (h : store.Extends store') {a : String} {dep : String × Visibility}
    {e : Visibility × ExportedSettings} (he : d.inheritedFrom store a dep = .ok e) :
    d.inheritedFrom store' a dep = .ok e := by
  unfold inheritedFrom at he ⊢
  split at he
  · split at he
    · cases he
    · rename_i descriptor hget
      rw [h _ _ _ hget]
      exact he
  · exact he

/-- What is inherited is what each dependency gives, in their order. -/
theorem inheritance_eq_ok_iff {a : String} {deps : List (String × Visibility)}
    {inherited : List (Visibility × ExportedSettings)} :
    d.inheritance store a deps = .ok inherited ↔
      List.Forall₂ (fun dep e => d.inheritedFrom store a dep = .ok e) deps inherited := by
  induction deps generalizing inherited with
  | nil => simp [inheritance, eq_comm]
  | cons dep deps ih =>
    unfold inheritance
    rw [bind_eq_ok_iff]
    constructor
    · rintro ⟨e, he, h⟩
      obtain ⟨more, hmore, h⟩ := bind_eq_ok_iff.mp h
      cases h
      exact List.Forall₂.cons he (ih.mp hmore)
    · intro h
      cases h with
      | cons he hmore => exact ⟨_, he, bind_eq_ok_iff.mpr ⟨_, ih.mpr hmore, rfl⟩⟩

theorem inheritance_congr {d' : Discovery} {a : String} {deps : List (String × Visibility)}
    (h : ∀ dep ∈ deps, d.inheritedFrom store a dep = d'.inheritedFrom store' a dep) :
    d.inheritance store a deps = d'.inheritance store' a deps := by
  induction deps with
  | nil => rfl
  | cons dep deps ih =>
    unfold inheritance
    rw [h dep (by simp), ih (fun dep' hdep' => h dep' (by simp [hdep']))]

/-- What a project inherits comes from one of its dependencies. -/
theorem mem_inheritance_iff {a : String} {deps : List (String × Visibility)}
    {inherited : List (Visibility × ExportedSettings)} (h : d.inheritance store a deps = .ok inherited)
    {e : Visibility × ExportedSettings} : e ∈ inherited ↔ ∃ dep ∈ deps, d.inheritedFrom store a dep = .ok e := by
  have hall := inheritance_eq_ok_iff.mp h
  clear h
  induction hall with
  | nil => simp
  | @cons dep e' deps inherited hdep _ ih =>
    rw [List.mem_cons, List.exists_mem_cons_iff, hdep, Except.ok.injEq, eq_comm (a := e)]
    exact or_congr_right ih

/-! ### Sorting by position -/

/-- Names of an order, each once and listed in any way, are sorted to the part of the order that they make: none of them comes
to stand behind the order. -/
theorem sortedBy_eq_filter {order names : List String} (horder : order.Nodup) (hnames : names.Nodup)
    (hsub : ∀ x ∈ names, x ∈ order) : sortedBy order names = order.filter names.contains := by
  have hperm : (sortedBy order names).Perm (order.filter names.contains) := by
    refine (List.mergeSort_perm names _).trans ((List.perm_ext_iff_of_nodup hnames (horder.filter _)).mpr (fun x => ?_))
    rw [List.mem_filter, List.contains_iff_mem]
    exact (and_iff_right_of_imp (hsub x)).symm
  have hsorted : (sortedBy order names).Pairwise (fun a b => decide (order.idxOf a ≤ order.idxOf b) = true) := by
    refine List.pairwise_mergeSort (fun a b c hab hbc => ?_) (fun a b => ?_) names
    · exact decide_eq_true (Nat.le_trans (of_decide_eq_true hab) (of_decide_eq_true hbc))
    · rw [Bool.or_eq_true, decide_eq_true_iff, decide_eq_true_iff]
      exact Nat.le_total _ _
  have hfilter : (order.filter names.contains).Pairwise (fun a b => decide (order.idxOf a ≤ order.idxOf b) = true) := by
    have hpositions := pairwise_idxOf_distinct order
    rw [distinct_of_nodup horder] at hpositions
    exact (hpositions.filter _).imp (fun h => decide_eq_true (Nat.le_of_lt h))
  refine hperm.eq_of_pairwise (fun a b ha _ hab hba => ?_) hsorted hfilter
  have heq : order.idxOf a = order.idxOf b := Nat.le_antisymm (of_decide_eq_true hab) (of_decide_eq_true hba)
  exact (List.idxOf_inj (hsub a ((List.mergeSort_perm names _).mem_iff.mp ha))).mp heq

/-! ### Descriptors -/

/-- A project of the graph is described from its local configuration and what it inherits. -/
theorem describe_eq_ok_iff {x : String} {e : Descriptor} :
    d.describe order store x = .ok e ↔ ∃ n l inherited, d.graph.node? x = some n ∧ d.locals.lookup x = some l ∧
      d.inheritance store x n.dependencies.items = .ok inherited ∧
      e = l.descriptor inherited (sortedBy order (d.graph.transitiveDependencies x)) := by
  unfold describe
  cases d.graph.node? x with
  | none => simp [throw, throwThe, MonadExceptOf.throw]
  | some n =>
    cases d.locals.lookup x with
    | none => simp [throw, throwThe, MonadExceptOf.throw]
    | some l =>
      dsimp only
      rw [bind_eq_ok_iff]
      simp only [Option.some.injEq, exists_and_left, exists_eq_left']
      refine exists_congr (fun inherited => and_congr_right (fun _ => ?_))
      simp only [pure, Except.pure, Except.ok.injEq, eq_comm]

theorem describe_of_extends (h : store.Extends store') {x : String} {e : Descriptor}
    (he : d.describe order store x = .ok e) : d.describe order store' x = .ok e := by
  obtain ⟨n, l, inherited, hn, hl, hi, rfl⟩ := describe_eq_ok_iff.mp he
  refine describe_eq_ok_iff.mpr ⟨n, l, inherited, hn, hl, ?_, rfl⟩
  exact inheritance_eq_ok_iff.mpr ((inheritance_eq_ok_iff.mp hi).imp (fun _ _ => inheritedFrom_of_extends h))

/-- A project is assembled if it has a descriptor and the store has none for it yet. -/
theorem assemble_eq_ok_iff {x : String} :
    d.assemble order store x = .ok store' ↔
      ∃ e, d.describe order store x = .ok e ∧ store.insert d.graph.target e = .ok store' :=
  bind_eq_ok_iff

/-! ### Waves -/

/-- A wave without an error is the assembly of its projects one after the other. -/
theorem assembleWave_eq_none_iff {wave : List String} :
    d.assembleWave order store wave = (none, store') ↔ wave.foldlM (d.assemble order) store = .ok store' := by
  induction wave generalizing store with
  | nil => simp [assembleWave, pure, Except.pure]
  | cons x wave ih =>
    unfold assembleWave
    rw [List.foldlM_cons, bind_eq_ok_iff]
    cases d.assemble order store x with
    | error e => simp
    | ok next => simp [ih]

/-- Waves without an error are the assembly of all their projects one after the other. -/
theorem assembleWaves_eq_none_iff {waves : List (List String)} :
    d.assembleWaves order store waves = (none, store') ↔ waves.flatten.foldlM (d.assemble order) store = .ok store' := by
  induction waves generalizing store with
  | nil => simp [assembleWaves, pure, Except.pure]
  | cons wave waves ih =>
    unfold assembleWaves
    rw [List.flatten_cons, List.foldlM_append, bind_eq_ok_iff]
    constructor
    · intro h
      split at h
      · rename_i next hw
        exact ⟨next, assembleWave_eq_none_iff.mp hw, ih.mp h⟩
      · cases h
    · rintro ⟨next, hw, h⟩
      rw [assembleWave_eq_none_iff.mpr hw]
      exact ih.mpr h

end Discovery

namespace Discovered

variable {w : Workspace} {t : Target} {visited : String → Prop} {d : Discovery} {order : List String}
  {store store' : DescriptorStore}

/-- The descriptor of a project is made from the project's own configuration. -/
theorem describe_eq_ok_iff (h : Discovered w t visited d) {x : String} {e : Descriptor} :
    d.describe order store x = .ok e ↔ visited x ∧ ∃ p inherited, w.projects.get? x = some p ∧
      d.inheritance store x (w.node p t).dependencies.items = .ok inherited ∧
      e = (w.localConfiguration p t).descriptor inherited (Discovery.sortedBy order (d.graph.transitiveDependencies x)) := by
  rw [Discovery.describe_eq_ok_iff]
  constructor
  · rintro ⟨n, l, inherited, hn, hl, hi, rfl⟩
    obtain ⟨hx, p, hp, rfl⟩ := (h.node? x n).mp hn
    obtain ⟨-, q, hq, rfl⟩ := (h.lookup x l).mp hl
    rw [hp, Option.some.injEq] at hq
    subst hq
    exact ⟨hx, p, inherited, hp, hi, rfl⟩
  · rintro ⟨hx, p, inherited, hp, hi, rfl⟩
    exact ⟨_, _, inherited, (h.node? x _).mpr ⟨hx, p, hp, rfl⟩, (h.lookup x _).mpr ⟨hx, p, hp, rfl⟩, hi, rfl⟩

/-- A descriptor is that of its project. -/
theorem project_of_describe (h : Discovered w t visited d) {x : String} {e : Descriptor}
    (he : d.describe order store x = .ok e) : e.project = x := by
  obtain ⟨-, p, inherited, hp, -, rfl⟩ := h.describe_eq_ok_iff.mp he
  exact (w.localConfiguration_frame p t).1.trans (Catalog.name_of_get? hp)

/-- The store at the end holds, for every assembled project, the descriptor that the project has by this store. -/
theorem assembled_of_foldlM (h : Discovered w t visited d) {names : List String}
    (hf : names.foldlM (d.assemble order) store = .ok store') :
    ∀ x ∈ names, ∃ e, store'.get? x t = some e ∧ d.describe order store' x = .ok e := by
  refine foldlM_invariant
    (I := fun done s => ∀ x ∈ done, ∃ e, s.get? x t = some e ∧ d.describe order s x = .ok e) ?_
    (fun x hx => absurd hx List.not_mem_nil) hf
  intro done a s s' ih hs x hx
  obtain ⟨e, he, hins⟩ := Discovery.assemble_eq_ok_iff.mp hs
  have hext := DescriptorStore.extends_of_insert hins
  rcases List.mem_append.mp hx with hx | hx
  · obtain ⟨e', hget, hdesc⟩ := ih x hx
    exact ⟨e', hext _ _ _ hget, Discovery.describe_of_extends hext hdesc⟩
  · rw [List.mem_singleton] at hx
    subst hx
    refine ⟨e, ?_, Discovery.describe_of_extends hext he⟩
    obtain ⟨-, rfl⟩ := DescriptorStore.insert_eq_ok_iff.mp hins
    rw [DescriptorStore.get?_cons, if_pos ⟨(h.project_of_describe he).symm, h.target.symm⟩]

/-- A project of which every dependency is in the store has a descriptor. -/
theorem exists_describe (h : Discovered w t visited d) (hv : ∀ a b, visited a → w.Requires t a b → visited b)
    (order : List String) {x : String} (hx : visited x) (hstore : ∀ b, w.Requires t x b → ∃ e, store.get? b t = some e) :
    ∃ e, d.describe order store x = .ok e := by
  obtain ⟨p, hp⟩ := h.declared x hx
  have hdeps : ∀ dep ∈ (w.node p t).dependencies.items, ∃ e, d.inheritedFrom store x dep = .ok e := by
    rintro ⟨b, v⟩ hb
    have hreq : w.Requires t x b := Workspace.requires_of_mem_node hp hb
    unfold Discovery.inheritedFrom
    cases v with
    | pub =>
      obtain ⟨e, he⟩ := hstore b hreq
      dsimp only
      rw [h.target, he]
      exact ⟨_, rfl⟩
    | priv =>
      obtain ⟨q, hq⟩ := h.declared b (hv x b hx hreq)
      dsimp only
      rw [(h.lookup b _).mpr ⟨hv x b hx hreq, q, hq, rfl⟩]
      exact ⟨_, rfl⟩
  obtain ⟨inherited, hi⟩ := exists_forall₂ hdeps
  exact ⟨_, h.describe_eq_ok_iff.mpr ⟨hx, p, inherited, hp, Discovery.inheritance_eq_ok_iff.mpr hi, rfl⟩⟩

/-- Visited projects with dependencies first can be assembled, if the store holds none of them. While they are, the store has a
descriptor of every project that is done and of none that is left. -/
theorem exists_assembled (h : Discovered w t visited d) (hv : ∀ a b, visited a → w.Requires t a b → visited b)
    (order : List String) {names : List String} (hvis : ∀ x ∈ names, visited x) (hnd : names.Nodup)
    (hfirst : DependenciesFirst (w.Requires t) names) (hstore : ∀ x ∈ names, store.get? x t = none) :
    ∃ store', names.foldlM (d.assemble order) store = .ok store' := by
  refine exists_foldlM_eq_ok
    (I := fun done s => (∀ x ∈ done, ∃ e, s.get? x t = some e) ∧ ∀ x ∈ names, x ∉ done → s.get? x t = none) ?_
    ⟨fun x hx => absurd hx List.not_mem_nil, fun x hx _ => hstore x hx⟩
  rintro done a rest hl s ⟨hdone, hleft⟩
  have ha : a ∈ names := by simp [hl]
  have hnew : a ∉ done := by
    rw [hl, List.nodup_append] at hnd
    exact fun hm => hnd.2.2 a hm a (by simp) rfl
  obtain ⟨e, he⟩ := h.exists_describe hv order (hvis a ha) (fun b hab => hdone b (hfirst done a rest hl b hab))
  have hproj := h.project_of_describe he
  refine ⟨⟨((a, t), e) :: s.entries⟩, Discovery.assemble_eq_ok_iff.mpr ⟨e, he, ?_⟩, ?_, ?_⟩
  · rw [DescriptorStore.insert_eq_ok_iff, hproj, h.target]
    exact ⟨hleft a ha hnew, rfl⟩
  · intro x hx
    rw [DescriptorStore.get?_cons]
    by_cases hxa : x = a
    · exact ⟨e, by simp [hxa]⟩
    · have hxd : x ∈ done := by simpa [hxa] using hx
      rw [if_neg (fun hc => hxa hc.1)]
      exact hdone x hxd
  · intro x hx hxn
    rw [List.mem_append, List.mem_singleton, not_or] at hxn
    rw [DescriptorStore.get?_cons, if_neg (fun hc => hxn.2 hc.1)]
    exact hleft x hx hxn.1

end Discovered

end BuildPlan
