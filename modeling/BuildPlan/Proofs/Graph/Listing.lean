import BuildPlan.Proofs.Graph.Order
import Mathlib.Data.List.Induction
import Mathlib.Data.List.Perm.Subperm

/-!
# What a dependency order says

A listing holds no name twice and puts dependencies first; it stops only where every node that is left misses a
dependency. So a graph of which every dependency is a node has an order exactly if it has no cycle
(`topologicalOrder_of_not_cycle`, `IsOrder.not_cycle`), and the order holds every node. Nodes that need no other ones are
listed as they would be alone (`ListsFrom.restrict`), since further nodes in the queue do not change which of them is the
least that is ready.
-/

namespace BuildPlan

open Relation

/-! ### Lists with dependencies first -/

/-- Every member of the list comes after all that it has a step to. -/
def DependenciesFirst (E : String → String → Prop) (order : List String) : Prop :=
  ∀ l₁ a l₂, order = l₁ ++ a :: l₂ → ∀ b, E a b → b ∈ l₁

namespace DependenciesFirst

variable {E : String → String → Prop} {order : List String}

/-- A dependency of a name in the order is in the order. -/
theorem mem (h : DependenciesFirst E order) {a b : String} (ha : a ∈ order) (hab : E a b) : b ∈ order := by
  obtain ⟨l₁, l₂, rfl⟩ := List.append_of_mem ha
  exact List.mem_append_left _ (h l₁ a l₂ rfl b hab)

/-- No names have their dependencies first. -/
theorem nil : DependenciesFirst E [] := by
  intro l₁ a l₂ he
  exact absurd he.symm (by simp)

/-- A name may come last if all that it has a step to is there. -/
theorem concat (h : DependenciesFirst E order) {a : String} (ha : ∀ b, E a b → b ∈ order) :
    DependenciesFirst E (order ++ [a]) := by
  intro l₁ c l₂ he b hcb
  rcases List.append_eq_append_iff.mp he with ⟨m, rfl, hm⟩ | ⟨m, rfl, hm⟩
  · cases m with
    | nil =>
      rw [List.nil_append, List.cons.injEq] at hm
      rw [List.append_nil]
      exact ha b (hm.1 ▸ hcb)
    | cons x m => exact absurd hm (by simp)
  · cases m with
    | nil =>
      rw [List.nil_append, List.cons.injEq] at hm
      have hb := ha b (hm.1 ▸ hcb)
      rwa [List.append_nil] at hb
    | cons x m =>
      rw [List.cons_append, List.cons.injEq] at hm
      exact h l₁ c m (by rw [hm.1]) b hcb

/-- What holds of a member as soon as it holds of its dependencies holds of every member. -/
theorem induction {motive : String → Prop} (h : DependenciesFirst E order)
    (step : ∀ a ∈ order, (∀ b, E a b → motive b) → motive a) : ∀ a ∈ order, motive a := by
  have key : ∀ l₁ l₂, order = l₁ ++ l₂ → ∀ a ∈ l₁, motive a := by
    intro l₁
    induction l₁ using List.reverseRecOn with
    | nil => exact fun _ _ a ha => absurd ha List.not_mem_nil
    | append_singleton l x ih =>
      intro l₂ he a ha
      have he' : order = l ++ x :: l₂ := by rw [he, List.append_assoc, List.singleton_append]
      rcases List.mem_append.mp ha with ha | ha
      · exact ih _ he' a ha
      · rw [List.mem_singleton] at ha
        subst ha
        exact step a (by rw [he']; simp) (fun b hb => ih _ he' b (h l a l₂ he' b hb))
  exact key order [] (List.append_nil order).symm

/-- Every member comes after its transitive dependencies, too. -/
theorem transGen (h : DependenciesFirst E order) : DependenciesFirst (TransGen E) order := by
  intro l₁ a l₂ he b hab
  induction hab with
  | single hab => exact h l₁ a l₂ he _ hab
  | tail _ hbc ih =>
    obtain ⟨m₁, m₂, rfl⟩ := List.append_of_mem ih
    rw [List.append_assoc, List.cons_append] at he
    exact List.mem_append_left _ (h m₁ _ _ he _ hbc)

/-- No member depends on itself. -/
theorem irrefl (h : DependenciesFirst E order) : ∀ a ∈ order, ¬TransGen E a a := by
  refine h.induction (motive := fun a => ¬TransGen E a a) ?_
  intro a _ ih haa
  obtain ⟨b, hab, hba⟩ := TransGen.head'_iff.mp haa
  exact ih b hab (TransGen.tail' hba hab)

/-- The list of some members has dependencies first as well, if the members it has steps to are among them. -/
theorem filter (h : DependenciesFirst E order) {p : String → Bool} (hp : ∀ a b, p a = true → E a b → p b = true) :
    DependenciesFirst E (order.filter p) := by
  intro l₁ a l₂ he b hab
  obtain ⟨m₁, m₂, rfl, h₁, h₂⟩ := List.filter_eq_append_iff.mp he
  obtain ⟨k₁, k₂, rfl, hk, ha, -⟩ := List.filter_eq_cons_iff.mp h₂
  have hpb := hp a b ha hab
  rw [← h₁]
  rcases List.mem_append.mp (h (m₁ ++ k₁) a k₂ (by rw [List.append_assoc]) b hab) with hb | hb
  · exact List.mem_filter.mpr ⟨hb, hpb⟩
  · exact absurd hpb (hk b hb)

end DependenciesFirst

namespace TargetGraph

/-! ### Listings -/

namespace ListsFrom

variable {nodes : List TargetNode} {done l : List String}

/-- What is listed are nodes. -/
theorem subset (h : ListsFrom nodes done l) : ∀ x ∈ l, x ∈ nodes.map TargetNode.name := by
  induction h with
  | stop => exact fun x hx => absurd hx List.not_mem_nil
  | next ready _ _ ih =>
    intro x hx
    rcases List.mem_cons.mp hx with rfl | hx
    · exact List.mem_map.mpr ⟨_, ready.mem, rfl⟩
    · exact ih x hx

/-- No name is listed twice. -/
theorem nodup (h : ListsFrom nodes done l) : l.Nodup ∧ ∀ x ∈ l, x ∉ done := by
  induction h with
  | stop => exact ⟨List.nodup_nil, fun x hx => absurd hx List.not_mem_nil⟩
  | next ready _ _ ih =>
    obtain ⟨hnd, hnew⟩ := ih
    constructor
    · exact List.nodup_cons.mpr ⟨fun hm => hnew _ hm (by simp), hnd⟩
    · intro x hx
      rcases List.mem_cons.mp hx with rfl | hx
      · exact ready.new
      · exact fun hd => hnew x hx (List.mem_append_left _ hd)

/-- A name is listed after the dependencies of its node. -/
theorem met (h : ListsFrom nodes done l) : ∀ l₁ a l₂, l = l₁ ++ a :: l₂ →
    ∃ n ∈ nodes, n.name = a ∧ ∀ b ∈ n.dependencies.names, b ∈ done ++ l₁ := by
  induction h with
  | stop =>
    intro l₁ a l₂ he
    exact absurd he.symm (by simp)
  | @next done rest n ready _ _ ih =>
    intro l₁ a l₂ he
    cases l₁ with
    | nil =>
      rw [List.nil_append, List.cons.injEq] at he
      exact ⟨n, ready.mem, he.1, by simpa using ready.met⟩
    | cons x l₁ =>
      rw [List.cons_append, List.cons.injEq] at he
      obtain ⟨rfl, he⟩ := he
      obtain ⟨m, hm, hma, hmet⟩ := ih l₁ a l₂ he
      exact ⟨m, hm, hma, by simpa using hmet⟩

/-- Where the listing stops, every node that is left misses a dependency. -/
theorem stuck (h : ListsFrom nodes done l) :
    ∀ n ∈ nodes, n.name ∉ done ++ l → ∃ b ∈ n.dependencies.names, b ∉ done ++ l := by
  induction h with
  | @stop done h =>
    intro n hn hnew
    rw [List.append_nil] at hnew ⊢
    by_contra hc
    push Not at hc
    exact h n ⟨hn, hnew, hc⟩
  | next _ _ _ ih => simpa using ih

/-- From the same names done, nodes are listed in one way only. -/
theorem unique {done' l' : List String} (h : ListsFrom nodes done l) (h' : ListsFrom nodes done' l')
    (hd : ∀ x, x ∈ done ↔ x ∈ done') : l = l' := by
  have hready : ∀ {d d' : List String} {n : TargetNode}, (∀ x, x ∈ d ↔ x ∈ d') → Ready nodes d n → Ready nodes d' n :=
    fun hd r => ⟨r.mem, fun hx => r.new ((hd _).mpr hx), fun b hb => (hd b).mp (r.met b hb)⟩
  induction h generalizing done' l' with
  | stop h =>
    cases h' with
    | stop => rfl
    | next ready' => exact absurd (hready (fun x => (hd x).symm) ready') (h _)
  | @next done rest n ready least _ ih =>
    cases h' with
    | stop h' => exact absurd (hready hd ready) (h' _)
    | @next _ rest' n' ready' least' tail' =>
      have hn : n = n' := by
        rcases least n' (hready (fun x => (hd x).symm) ready') with e | hlt
        · exact e.symm
        · rcases least' n (hready hd ready) with e | hgt
          · exact e
          · exact absurd hgt (Place.not_before_of_before hlt)
      subst hn
      rw [ih tail' (fun x => by simp [hd x])]

/-- Some of the nodes that need no other ones are listed in the order in which they stand among all, since a node of the part
is ready within the part exactly if it is ready among all. -/
theorem restrict {some : List TargetNode} {done' : List String} (h : ListsFrom nodes done l)
    (hsub : ∀ n ∈ some, n ∈ nodes) (hinj : ∀ n ∈ nodes, ∀ m ∈ nodes, n.name = m.name → n = m)
    (hclosed : ∀ n ∈ some, ∀ b ∈ n.dependencies.names, b ∈ some.map TargetNode.name)
    (hd : ∀ x ∈ some.map TargetNode.name, x ∈ done ↔ x ∈ done') :
    ListsFrom some done' (l.filter (fun x => (some.map TargetNode.name).contains x)) := by
  have hready : ∀ {d d' : List String} {n : TargetNode}, (∀ x ∈ some.map TargetNode.name, x ∈ d ↔ x ∈ d') →
      n ∈ some → (Ready some d' n ↔ Ready nodes d n) := by
    intro d d' n hd hn
    have hname := hd n.name (List.mem_map.mpr ⟨n, hn, rfl⟩)
    constructor
    · exact fun r => ⟨hsub n hn, fun hx => r.new (hname.mp hx), fun b hb => (hd b (hclosed n hn b hb)).mpr (r.met b hb)⟩
    · exact fun r => ⟨hn, fun hx => r.new (hname.mpr hx), fun b hb => (hd b (hclosed n hn b hb)).mp (r.met b hb)⟩
  induction h generalizing done' with
  | stop h => exact ListsFrom.stop (fun n r => h n ((hready hd r.mem).mp r))
  | @next done rest n ready least _ ih =>
    by_cases hn : n ∈ some
    · have hc : (some.map TargetNode.name).contains n.name = true := by simpa using ⟨n, hn, rfl⟩
      rw [List.filter_cons, if_pos hc]
      refine ListsFrom.next ((hready hd hn).mpr ready) ?_ (ih ?_)
      · exact fun m r => least m ((hready hd r.mem).mp r)
      · intro x hx
        simp [hd x hx]
    · have hne : ∀ x ∈ some.map TargetNode.name, x ≠ n.name := by
        rintro x hx rfl
        obtain ⟨m, hm, hmn⟩ := List.mem_map.mp hx
        exact hn (hinj m (hsub m hm) n ready.mem hmn ▸ hm)
      have hc : ¬(some.map TargetNode.name).contains n.name = true := by
        intro hc
        exact hne n.name (by simpa using hc) rfl
      rw [List.filter_cons, if_neg hc]
      refine ih ?_
      intro x hx
      rw [List.mem_append, List.mem_singleton, ← hd x hx]
      simp [hne x hx]

end ListsFrom

/-! ### The order of a graph -/

/-- The listed names are nodes. -/
theorem listed_subset (g : TargetGraph) : ∀ x ∈ g.listed, x ∈ g.nodes.names := g.listed_canonical.subset

/-- No name is listed twice. -/
theorem nodup_listed (g : TargetGraph) : g.listed.Nodup := g.listed_canonical.nodup.1

/-- As many names are listed as there are nodes exactly if all are listed. -/
theorem length_listed_iff {g : TargetGraph} :
    g.listed.length = g.nodes.size ↔ ∀ x ∈ g.nodes.names, x ∈ g.listed := by
  have hsub : g.listed.Subperm g.nodes.names := List.subperm_of_subset g.nodup_listed g.listed_subset
  have hsize : g.nodes.names.length = g.nodes.size := by simp [Catalog.names, Catalog.size]
  constructor
  · intro h x hx
    exact (hsub.perm_of_length_le (by omega)).mem_iff.mpr hx
  · intro h
    have hsub' : g.nodes.names.Subperm g.listed := List.subperm_of_subset g.nodes.nodup h
    rw [← hsize]
    exact Nat.le_antisymm hsub.length_le hsub'.length_le

/-- What an order says: it holds every node once and puts dependencies first. -/
structure IsOrder (g : TargetGraph) (order : List String) : Prop where
  canonical : ListsFrom g.nodes.items [] order
  complete : ∀ x, x ∈ order ↔ x ∈ g.nodes.names

namespace IsOrder

variable {g : TargetGraph} {order : List String}

/-- No name stands in an order twice. -/
theorem nodup (h : g.IsOrder order) : order.Nodup := h.canonical.nodup.1

/-- In an order dependencies come first. -/
theorem dependenciesFirst (h : g.IsOrder order) : DependenciesFirst g.Edge order := by
  intro l₁ a l₂ he b hab
  obtain ⟨n, hn, rfl, hmet⟩ := h.canonical.met l₁ a l₂ he
  simpa using hmet b ((edge_name_iff hn).mp hab)

/-- The orders of two graphs agree on common nodes that need no other ones. -/
theorem filter_eq {g' : TargetGraph} {order' : List String} (h : g.IsOrder order) (h' : g'.IsOrder order')
    {common : List TargetNode} (hsub : ∀ n ∈ common, n ∈ g.nodes.items ∧ n ∈ g'.nodes.items)
    (hclosed : ∀ n ∈ common, ∀ b ∈ n.dependencies.names, b ∈ common.map TargetNode.name) :
    order.filter (fun x => (common.map TargetNode.name).contains x) =
      order'.filter (fun x => (common.map TargetNode.name).contains x) := by
  have hl : ListsFrom common [] (order.filter (fun x => (common.map TargetNode.name).contains x)) :=
    h.canonical.restrict (fun n hn => (hsub n hn).1) (fun n hn m hm e => Catalog.eq_of_name_eq hn hm e) hclosed
      (fun _ _ => Iff.rfl)
  have hl' : ListsFrom common [] (order'.filter (fun x => (common.map TargetNode.name).contains x)) :=
    h'.canonical.restrict (fun n hn => (hsub n hn).2) (fun n hn m hm e => Catalog.eq_of_name_eq hn hm e) hclosed
      (fun _ _ => Iff.rfl)
  exact hl.unique hl' (fun _ => Iff.rfl)

end IsOrder

/-- The order that is given back is one. -/
theorem isOrder_of_topologicalOrder {g : TargetGraph} {order : List String} (h : g.topologicalOrder = .ok order) :
    g.IsOrder order := by
  unfold topologicalOrder at h
  split at h
  · rename_i hlen
    cases h
    exact ⟨g.listed_canonical, fun x => ⟨g.listed_subset x, length_listed_iff.mp hlen x⟩⟩
  · cases h

/-- Where there is no order, the cycle is reported. -/
theorem topologicalOrder_eq_error {g : TargetGraph} {e : BuildError} (h : g.topologicalOrder = .error e) : e = g.cyclic := by
  unfold topologicalOrder at h
  split at h
  · cases h
  · cases h
    rfl

/-- A node that is not listed depends on another such node, if every dependency is a node. -/
theorem exists_unlisted_dependency {g : TargetGraph} (hc : g.Closed) :
    ∀ a ∈ g.nodes.names.filter (fun x => decide (x ∉ g.listed)),
      ∃ b ∈ g.nodes.names.filter (fun x => decide (x ∉ g.listed)), g.Edge a b := by
  intro a ha
  obtain ⟨ha, hnew⟩ : a ∈ g.nodes.names ∧ a ∉ g.listed := by simpa using ha
  obtain ⟨n, hn, rfl⟩ := List.mem_map.mp ha
  obtain ⟨b, hb, hbnew⟩ := g.listed_canonical.stuck n hn (by rw [List.nil_append]; exact hnew)
  rw [List.nil_append] at hbnew
  have hab : g.Edge n.name b := (edge_name_iff hn).mpr hb
  exact ⟨b, by simpa using ⟨hc _ _ hab, hbnew⟩, hab⟩

/-- A graph of which every dependency is a node has an order if it has no cycle. -/
theorem topologicalOrder_of_not_cycle {g : TargetGraph} (hc : g.Closed) (ha : ∀ a, ¬TransGen g.Edge a a) :
    g.topologicalOrder = .ok g.listed := by
  refine if_pos (length_listed_iff.mpr ?_)
  intro x hx
  by_contra hnew
  obtain ⟨a, -, haa⟩ := exists_cycle (List.ne_nil_of_mem (a := x) (by simpa using ⟨hx, hnew⟩))
    (exists_unlisted_dependency hc)
  exact ha a haa

/-- A graph that has an order has no cycle. -/
theorem IsOrder.not_cycle {g : TargetGraph} {order : List String} (h : g.IsOrder order) : ∀ a, ¬TransGen g.Edge a a := by
  intro a haa
  obtain ⟨b, hab, -⟩ := TransGen.head'_iff.mp haa
  exact h.dependenciesFirst.irrefl a ((h.complete a).mpr hab.source) haa

end TargetGraph

end BuildPlan
