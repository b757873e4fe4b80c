import BuildPlan.Graph.Waves
import BuildPlan.Proofs.Graph.Listing

/-!
# What waves say

The waves of a graph hold every node once, and every dependency of a node lies in an earlier wave (`wavesFrom_earlier`).
The waves one after the other are therefore a list with dependencies first. Waves exist where a dependency order exists:
a node that never becomes ready depends on another such node.
-/

namespace BuildPlan.TargetGraph

open Relation

/-- Sorting by index keeps the nodes. -/
theorem byIndex_perm (nodes : List TargetNode) : (byIndex nodes).Perm nodes := List.mergeSort_perm _ _

/-- The nodes of the next wave are those left that need nothing more. -/
theorem mem_readyNodes {done : List String} {left : List TargetNode} {n : TargetNode} :
    n ∈ readyNodes done left ↔ n ∈ left ∧ ∀ b ∈ n.dependencies.names, b ∈ done := by
  simp [readyNodes, isReady]

/-- The nodes that stay are those left that need something still. -/
theorem mem_blockedNodes {done : List String} {left : List TargetNode} {n : TargetNode} :
    n ∈ blockedNodes done left ↔ n ∈ left ∧ ∃ b ∈ n.dependencies.names, b ∉ done := by
  simp [blockedNodes, isReady]

/-- The waves and the nodes that never become ready are all nodes. -/
theorem wavesFrom_perm (done : List String) (left : List TargetNode) :
    ((wavesFrom done left).1.flatten ++ (wavesFrom done left).2.map TargetNode.name).Perm (left.map TargetNode.name) := by
  fun_induction wavesFrom done left with
  | case1 done left h => exact List.Perm.refl _
  | case2 done left h wave later ih =>
    have hwave : wave.Perm ((readyNodes done left).map TargetNode.name) := (byIndex_perm _).map _
    have hall : (readyNodes done left ++ blockedNodes done left).Perm left := List.filter_append_perm _ _
    rw [List.flatten_cons, List.append_assoc]
    refine (hwave.append ih).trans ?_
    rw [← List.map_append]
    exact hall.map _

/-- The dependencies of a node lie in earlier waves than the node. -/
theorem wavesFrom_earlier (done : List String) (left : List TargetNode) :
    ∀ ws₁ wave ws₂, (wavesFrom done left).1 = ws₁ ++ wave :: ws₂ →
      ∀ a ∈ wave, ∃ n ∈ left, n.name = a ∧ ∀ b ∈ n.dependencies.names, b ∈ done ++ ws₁.flatten := by
  fun_induction wavesFrom done left with
  | case1 done left h =>
    intro ws₁ wave ws₂ he
    exact absurd he.symm (by simp)
  | case2 done left h wave later ih =>
    intro ws₁ v ws₂ he a ha
    cases ws₁ with
    | nil =>
      rw [List.nil_append, List.cons.injEq] at he
      rw [← he.1] at ha
      obtain ⟨n, hn, rfl⟩ := List.mem_map.mp ha
      obtain ⟨hleft, hmet⟩ := mem_readyNodes.mp ((byIndex_perm _).mem_iff.mp hn)
      exact ⟨n, hleft, rfl, by simpa using hmet⟩
    | cons w ws₁ =>
      rw [List.cons_append, List.cons.injEq] at he
      obtain ⟨rfl, he⟩ := he
      obtain ⟨n, hn, hna, hmet⟩ := ih ws₁ v ws₂ he a ha
      exact ⟨n, (mem_blockedNodes.mp hn).1, hna, by simpa using hmet⟩

/-- A node that never becomes ready has a dependency that is never done. -/
theorem wavesFrom_stuck (done : List String) (left : List TargetNode) :
    ∀ n ∈ (wavesFrom done left).2, n ∈ left ∧ ∃ b ∈ n.dependencies.names, b ∉ done ++ (wavesFrom done left).1.flatten := by
  fun_induction wavesFrom done left with
  | case1 done left h =>
    intro n hn
    refine ⟨hn, ?_⟩
    by_contra hc
    have hr : n ∈ readyNodes done left := mem_readyNodes.mpr ⟨hn, by simpa using hc⟩
    rw [h] at hr
    exact List.not_mem_nil hr
  | case2 done left h wave later ih =>
    intro n hn
    obtain ⟨hb, b, hbn, hnew⟩ := ih n hn
    exact ⟨(mem_blockedNodes.mp hb).1, b, hbn, by simpa using hnew⟩

/-- A place in some lists one after the other lies in one of the lists, after those before it. -/
theorem exists_of_flatten_eq {ws : List (List String)} {l₁ l₂ : List String} {a : String}
    (h : ws.flatten = l₁ ++ a :: l₂) :
    ∃ ws₁ wave ws₂, ws = ws₁ ++ wave :: ws₂ ∧ a ∈ wave ∧ ∀ b ∈ ws₁.flatten, b ∈ l₁ := by
  induction ws generalizing l₁ with
  | nil => exact absurd h.symm (by simp)
  | cons w ws ih =>
    rw [List.flatten_cons, List.append_eq_append_iff] at h
    rcases h with ⟨m, rfl, hm⟩ | ⟨m, rfl, hm⟩
    · obtain ⟨ws₁, wave, ws₂, rfl, ha, hb⟩ := ih hm
      refine ⟨w :: ws₁, wave, ws₂, rfl, ha, ?_⟩
      intro b hbm
      rcases List.mem_append.mp hbm with hbm | hbm
      · exact List.mem_append_left _ hbm
      · exact List.mem_append_right _ (hb b hbm)
    · cases m with
      | nil =>
        have hm' : ws.flatten = [] ++ a :: l₂ := hm.symm
        obtain ⟨ws₁, wave, ws₂, rfl, ha, hb⟩ := ih hm'
        refine ⟨l₁ :: ws₁, wave, ws₂, by simp, ha, ?_⟩
        intro b hbm
        rcases List.mem_append.mp hbm with hbm | hbm
        · exact hbm
        · exact absurd (hb b hbm) List.not_mem_nil
      | cons x m =>
        rw [List.cons_append, List.cons.injEq] at hm
        exact ⟨[], l₁ ++ x :: m, ws, rfl, by simp [hm.1], by simp⟩

/-! ### The waves of a graph -/

/-- Waves are given back where the scans leave no node. -/
theorem parallelGroups_eq_ok {g : TargetGraph} {waves : List (List String)} (h : g.parallelGroups = .ok waves) :
    (wavesFrom [] g.nodes.items).1 = waves ∧ (wavesFrom [] g.nodes.items).2 = [] := by
  unfold parallelGroups at h
  split at h
  rename_i ws stuck he
  split at h
  · rename_i hs
    cases h
    exact ⟨by rw [he], by rw [he]; simpa using hs⟩
  · cases h

/-- Where there are no waves, the cycle is reported. -/
theorem parallelGroups_eq_error {g : TargetGraph} {e : BuildError} (h : g.parallelGroups = .error e) : e = g.cyclic := by
  unfold parallelGroups at h
  split at h
  split at h
  · cases h
  · cases h
    rfl

/-- The waves hold every node once. -/
theorem flatten_perm_of_parallelGroups {g : TargetGraph} {waves : List (List String)}
    (h : g.parallelGroups = .ok waves) : waves.flatten.Perm g.nodes.names := by
  obtain ⟨rfl, hs⟩ := parallelGroups_eq_ok h
  have hp := wavesFrom_perm [] g.nodes.items
  rw [hs, List.map_nil, List.append_nil] at hp
  exact hp

/-- The dependencies of a project lie in waves before its own. -/
theorem earlier_of_parallelGroups {g : TargetGraph} {waves ws₁ ws₂ : List (List String)} {wave : List String} {a b : String}
    (h : g.parallelGroups = .ok waves) (hw : waves = ws₁ ++ wave :: ws₂) (ha : a ∈ wave) (hab : g.Edge a b) :
    b ∈ ws₁.flatten := by
  obtain ⟨rfl, -⟩ := parallelGroups_eq_ok h
  obtain ⟨n, hn, rfl, hmet⟩ := wavesFrom_earlier [] g.nodes.items ws₁ wave ws₂ hw a ha
  simpa using hmet b ((edge_name_iff hn).mp hab)

/-- The waves one after the other put dependencies first. -/
theorem dependenciesFirst_of_parallelGroups {g : TargetGraph} {waves : List (List String)}
    (h : g.parallelGroups = .ok waves) : DependenciesFirst g.Edge waves.flatten := by
  intro l₁ a l₂ he b hab
  obtain ⟨ws₁, wave, ws₂, hws, ha, hb⟩ := exists_of_flatten_eq he
  exact hb b (earlier_of_parallelGroups h hws ha hab)

/-- A graph of which every dependency is a node has waves if it has no cycle. -/
theorem parallelGroups_of_not_cycle {g : TargetGraph} (hc : g.Closed) (ha : ∀ a, ¬TransGen g.Edge a a) :
    g.parallelGroups = .ok (wavesFrom [] g.nodes.items).1 := by
  have hstuck : (wavesFrom [] g.nodes.items).2 = [] := by
    by_contra hne
    obtain ⟨a, -, haa⟩ := exists_cycle (R := g.Edge) (l := (wavesFrom [] g.nodes.items).2.map TargetNode.name)
      (by simpa using hne) (by
        intro a ha
        obtain ⟨n, hn, rfl⟩ := List.mem_map.mp ha
        obtain ⟨hmem, b, hb, hnew⟩ := wavesFrom_stuck [] g.nodes.items n hn
        have hab : g.Edge n.name b := (edge_name_iff hmem).mpr hb
        have hall := (wavesFrom_perm [] g.nodes.items).mem_iff.mpr (hc _ _ hab)
        rw [List.nil_append] at hnew
        exact ⟨b, (List.mem_append.mp hall).resolve_left hnew, hab⟩)
    exact ha a haa
  unfold parallelGroups
  split
  rename_i ws stuck he
  rw [he] at hstuck ⊢
  exact if_pos (List.isEmpty_iff.mpr hstuck)

end BuildPlan.TargetGraph
