import BuildPlan.Proofs.Catalog
import BuildPlan.Proofs.Except
import BuildPlan.Rule.Registry

/-!
# What a base chain is

`RuleSet.Chain` says without a search what the chain of an id is: it ends with the rule set of this id and has in front of
it the chain of the base, if there is one. An id has one chain at most, and no rule set stands in it twice. The walk along
the bases succeeds exactly for the ids that have a chain, and returns it (`RuleSet.walk_eq_ok_iff`).
-/

namespace BuildPlan

namespace RuleSet

/-- The rule sets that lead to an id: the chain of the base, if there is one, and then the rule set of the id itself. -/
inductive Chain (sets : Catalog RuleSet) : String → List RuleSet → Prop
  | root {id : String} {s : RuleSet} : sets.get? id = some s → s.base = none → Chain sets id [s]
  | derived {id base : String} {s : RuleSet} {chain : List RuleSet} :
      sets.get? id = some s → s.base = some base → Chain sets base chain → Chain sets id (chain ++ [s])

namespace Chain

variable {sets : Catalog RuleSet} {id : String} {chain : List RuleSet}

theorem get?_of_mem (h : Chain sets id chain) : ∀ s ∈ chain, sets.get? s.id = some s := by
  have hget : ∀ {id s}, sets.get? id = some s → sets.get? s.id = some s :=
    fun hs => Catalog.get?_name (Catalog.mem_of_get? hs)
  induction h with
  | root hs =>
    intro s hmem
    rw [List.mem_singleton] at hmem
    exact hmem ▸ hget hs
  | derived hs _ _ ih =>
    intro s hmem
    rcases List.mem_append.mp hmem with hmem | hmem
    · exact ih s hmem
    · rw [List.mem_singleton] at hmem
      exact hmem ▸ hget hs

/-- An id has one chain only. -/
theorem unique {chain' : List RuleSet} (h : Chain sets id chain) (h' : Chain sets id chain') : chain = chain' := by
  induction h generalizing chain' with
  | root hs hbase =>
    cases h' with
    | root hs' =>
      rw [hs, Option.some.injEq] at hs'
      rw [hs']
    | derived hs' hbase' =>
      rw [hs, Option.some.injEq] at hs'
      rw [hs', hbase'] at hbase
      cases hbase
  | derived hs hbase _ ih =>
    cases h' with
    | root hs' hbase' =>
      rw [hs, Option.some.injEq] at hs'
      rw [hs', hbase'] at hbase
      cases hbase
    | derived hs' hbase' hrest' =>
      rw [hs, Option.some.injEq] at hs'
      subst hs'
      rw [hbase, Option.some.injEq] at hbase'
      subst hbase'
      rw [ih hrest']

/-- The part of a chain up to one of its members is the chain of this member. -/
theorem exists_prefix (h : Chain sets id chain) : ∀ s ∈ chain, ∃ front, Chain sets s.id front ∧ front <+: chain := by
  induction h with
  | @root id s hs hbase =>
    intro s' hmem
    rw [List.mem_singleton] at hmem
    subst hmem
    exact ⟨[s'], .root (Catalog.get?_name (Catalog.mem_of_get? hs)) hbase, List.prefix_refl _⟩
  | @derived id base s chain hs hbase hchain ih =>
    intro s' hmem
    rcases List.mem_append.mp hmem with hmem | hmem
    · obtain ⟨front, hfront, hprefix⟩ := ih s' hmem
      exact ⟨front, hfront, hprefix.trans (List.prefix_append _ _)⟩
    · rw [List.mem_singleton] at hmem
      subst hmem
      exact ⟨chain ++ [s'], .derived (Catalog.get?_name (Catalog.mem_of_get? hs)) hbase hchain, List.prefix_refl _⟩

/-- No rule set stands in a chain twice, as the second one would have a shorter chain than the id has. -/
theorem nodup (h : Chain sets id chain) : (chain.map RuleSet.id).Nodup := by
  induction h with
  | root => exact List.nodup_singleton _
  | @derived id base s chain hs hbase hchain ih =>
    rw [List.map_append, List.map_singleton, List.nodup_append]
    refine ⟨ih, List.nodup_singleton _, ?_⟩
    rintro x hx y hy rfl
    rw [List.mem_singleton] at hy
    obtain ⟨s', hs', hid⟩ := List.mem_map.mp hx
    obtain ⟨front, hfront, hprefix⟩ := hchain.exists_prefix s' hs'
    have hname : s.id = id := Catalog.name_of_get? hs
    rw [hid, hy, hname] at hfront
    have hlength := hprefix.length_le
    rw [hfront.unique (.derived hs hbase hchain), List.length_append, List.length_singleton] at hlength
    omega

/-- A registry that holds the same rule sets as far as the chain goes has the same chain. -/
theorem of_get? {sets' : Catalog RuleSet} (h : Chain sets id chain)
    (hsets : ∀ s ∈ chain, sets'.get? s.id = some s) : Chain sets' id chain := by
  induction h with
  | @root id s hs hbase =>
    have hname : s.id = id := Catalog.name_of_get? hs
    exact .root (hname ▸ hsets s (List.mem_singleton.mpr rfl)) hbase
  | @derived id base s chain hs hbase _ ih =>
    have hname : s.id = id := Catalog.name_of_get? hs
    exact .derived (hname ▸ hsets s (by simp)) hbase (ih (fun s' hs' => hsets s' (by simp [hs'])))

/-- With another rule set of the same base under the id, the chain ends with this one. -/
theorem replace_last {sets' : Catalog RuleSet} {s s' : RuleSet} (h : Chain sets id chain) (hs : sets.get? id = some s)
    (hs' : sets'.get? id = some s') (hbase : s'.base = s.base)
    (hothers : ∀ id', id' ≠ id → sets'.get? id' = sets.get? id') :
    ∃ front, chain = front ++ [s] ∧ Chain sets' id (front ++ [s']) := by
  have hnodup := h.nodup
  cases h with
  | root hroot hnone =>
    rw [hs, Option.some.injEq] at hroot
    subst hroot
    exact ⟨[], rfl, .root hs' (hbase.trans hnone)⟩
  | @derived _ base _ front hlast hsome hfront =>
    rw [hs, Option.some.injEq] at hlast
    subst hlast
    have hid : s.id = id := Catalog.name_of_get? hs
    refine ⟨front, rfl, .derived hs' (hbase.trans hsome) (hfront.of_get? (fun x hx => ?_))⟩
    rw [List.map_append, List.map_singleton, List.nodup_append, hid] at hnodup
    have hne : x.id ≠ id := hnodup.2.2 _ (List.mem_map_of_mem hx) _ (List.mem_singleton.mpr rfl)
    rw [hothers x.id hne]
    exact hfront.get?_of_mem x hx

end Chain

/-! ### The walk along the bases -/

theorem exists_chain_of_walk {sets : Catalog RuleSet} {derived : List String} {id : String} {ids : List String}
    (h : walk sets derived id = .ok ids) : ∃ chain, Chain sets id chain ∧ ids = chain.map RuleSet.id ++ derived := by
  fun_induction walk sets derived id generalizing ids with
  | case1 => cases h
  | case2 => cases h
  | case3 derived id hd s hs hbase =>
    have hname : s.id = id := Catalog.name_of_get? hs
    cases h
    exact ⟨[s], .root hs hbase, by rw [List.map_singleton, hname, List.singleton_append]⟩
  | case4 derived id hd s hs base hbase ih =>
    have hname : s.id = id := Catalog.name_of_get? hs
    obtain ⟨chain, hchain, rfl⟩ := ih h
    exact ⟨chain ++ [s], .derived hs hbase hchain, by simp [hname]⟩

/-- A step of the walk at a rule set that is registered and was not met before. -/
theorem walk_of_get? {sets : Catalog RuleSet} {derived : List String} {id : String} {s : RuleSet} (hd : id ∉ derived)
    (hs : sets.get? id = some s) :
    walk sets derived id =
      match s.base with
      | none => .ok (id :: derived)
      | some base => walk sets (id :: derived) base := by
  rw [walk, dif_neg hd]
  split
  · rename_i hnone
    rw [hs] at hnone
    cases hnone
  · rename_i s' hs'
    rw [hs, Option.some.injEq] at hs'
    subst hs'
    rfl

/-- The walk succeeds where there is a chain, if it has met none of its members. -/
theorem Chain.walk {sets : Catalog RuleSet} {id : String} {chain : List RuleSet} (h : Chain sets id chain)
    {derived : List String} (hnew : ∀ s ∈ chain, s.id ∉ derived) :
    RuleSet.walk sets derived id = .ok (chain.map RuleSet.id ++ derived) := by
  induction h generalizing derived with
  | @root id s hs hbase =>
    have hname : s.id = id := Catalog.name_of_get? hs
    rw [walk_of_get? (hname ▸ hnew s (List.mem_singleton.mpr rfl)) hs, hbase, List.map_singleton, hname]
    rfl
  | @derived id base s chain hs hbase hchain ih =>
    have hname : s.id = id := Catalog.name_of_get? hs
    have hnodup := (Chain.derived hs hbase hchain).nodup
    rw [List.map_append, List.map_singleton, hname, List.nodup_append] at hnodup
    have hnew' : ∀ s' ∈ chain, s'.id ∉ id :: derived := by
      intro s' hs'
      rw [List.mem_cons, not_or]
      refine ⟨fun he => ?_, hnew s' (List.mem_append_left _ hs')⟩
      exact hnodup.2.2 _ (List.mem_map_of_mem hs') _ (List.mem_singleton.mpr rfl) he
    rw [walk_of_get? (hname ▸ hnew s (by simp)) hs, hbase]
    dsimp only
    rw [ih hnew', List.map_append, List.map_singleton, hname, List.append_assoc, List.singleton_append]

/-- The walk from an id returns its chain, and succeeds exactly if there is one. -/
theorem walk_eq_ok_iff {sets : Catalog RuleSet} {id : String} {ids : List String} :
    walk sets [] id = .ok ids ↔ ∃ chain, Chain sets id chain ∧ ids = chain.map RuleSet.id := by
  constructor
  · intro h
    obtain ⟨chain, hchain, rfl⟩ := exists_chain_of_walk h
    exact ⟨chain, hchain, List.append_nil _⟩
  · rintro ⟨chain, hchain, rfl⟩
    rw [hchain.walk (fun _ _ => List.not_mem_nil), List.append_nil]

end RuleSet

namespace RuleRegistry

variable {r : RuleRegistry} {id : String}

/-- A registry gives the chain of an id. -/
theorem chain_eq {chain : List RuleSet} (h : RuleSet.Chain r.sets id chain) : r.chain id = chain := by
  have hget := h.get?_of_mem
  rw [RuleRegistry.chain, RuleSet.walk_eq_ok_iff.mpr ⟨chain, h, rfl⟩]
  dsimp only
  rw [List.filterMap_map]
  calc chain.filterMap (r.get? ∘ RuleSet.id)
      = chain.filterMap some := List.filterMap_congr (fun s hs => hget s hs)
    _ = chain := List.filterMap_some

/-- An id without a chain has none in the registry. -/
theorem chain_eq_nil (h : ∀ chain, ¬RuleSet.Chain r.sets id chain) : r.chain id = [] := by
  cases hw : RuleSet.walk r.sets [] id with
  | error e => rw [RuleRegistry.chain, hw]
  | ok ids =>
    obtain ⟨chain, hchain, -⟩ := RuleSet.walk_eq_ok_iff.mp hw
    exact (h chain hchain).elim

theorem checkChains_eq_ok_iff {sets : Catalog RuleSet} {l : List RuleSet} :
    checkChains sets l = .ok () ↔ ∀ s ∈ l, ∃ chain, RuleSet.Chain sets s.id chain := by
  induction l with
  | nil => simp [checkChains]
  | cons s l ih =>
    unfold checkChains
    rw [bind_eq_ok_iff, List.forall_mem_cons, ih]
    refine ⟨fun ⟨ids, hids, hrest⟩ => ⟨?_, hrest⟩, fun ⟨⟨chain, hchain⟩, hrest⟩ => ⟨chain.map RuleSet.id, ?_, hrest⟩⟩
    · obtain ⟨chain, hchain, -⟩ := RuleSet.walk_eq_ok_iff.mp hids
      exact ⟨chain, hchain⟩
    · exact RuleSet.walk_eq_ok_iff.mpr ⟨chain, hchain, rfl⟩

/-- Rule sets make a registry exactly if each of them has a chain. -/
theorem ofSets_eq_ok_iff {sets : Catalog RuleSet} :
    ofSets sets = .ok r ↔ r = ⟨sets⟩ ∧ ∀ s ∈ sets.items, ∃ chain, RuleSet.Chain sets s.id chain := by
  unfold ofSets
  rw [bind_eq_ok_iff, ← checkChains_eq_ok_iff]
  constructor
  · rintro ⟨_, hchains, h⟩
    cases h
    exact ⟨rfl, hchains⟩
  · rintro ⟨rfl, hchains⟩
    exact ⟨(), hchains, rfl⟩

end RuleRegistry

end BuildPlan
