import BuildPlan.Proofs.Rule.Chain
import Mathlib.Data.List.Chain

/-!
# The chains of a registry

`RuleSet.ancestor?` follows the bases step by step, without looking at what it met before. Rule sets make a registry exactly
if these steps end at each of them, and the chains of this registry are then what was met on the way, turned around: the set
without a base first, the set of the id last, and each set right behind its base (`base_chains_exact`).
-/

namespace BuildPlan

namespace RuleSet

variable {sets : Catalog RuleSet} {id : String} {chain : List RuleSet}

/-- The rule set that some steps along the bases lead to from an id; none if an id on the way is not registered, or if a rule
set without a base comes too early. -/
def ancestor? (sets : Catalog RuleSet) : Nat → String → Option RuleSet
  | 0, id => sets.get? id
  | n + 1, id => (sets.get? id).bind (fun s => s.base.bind (ancestor? sets n))

/-- The walk from an id along the bases only meets registered rule sets and ends in one without a base. -/
def Rooted (sets : Catalog RuleSet) (id : String) : Prop := ∃ n s, ancestor? sets n id = some s ∧ s.base = none

theorem Chain.rooted (h : Chain sets id chain) : Rooted sets id := by
  induction h with
  | root hs hbase => exact ⟨0, _, hs, hbase⟩
  | derived hs hbase _ ih =>
    obtain ⟨n, a, ha, hnone⟩ := ih
    exact ⟨n + 1, a, by rw [ancestor?, hs, Option.bind_some, hbase, Option.bind_some, ha], hnone⟩

/-- The ids that have a chain are those from which the walk ends. -/
theorem exists_chain_iff : (∃ chain, Chain sets id chain) ↔ Rooted sets id := by
  refine ⟨fun ⟨_, hchain⟩ => hchain.rooted, ?_⟩
  rintro ⟨n, a, ha, hnone⟩
  induction n generalizing id with
  | zero => exact ⟨[a], .root ha hnone⟩
  | succ n ih =>
    obtain ⟨s, hs, ha⟩ := Option.bind_eq_some_iff.mp ha
    obtain ⟨base, hbase, ha⟩ := Option.bind_eq_some_iff.mp ha
    obtain ⟨chain, hchain⟩ := ih ha
    exact ⟨chain ++ [s], .derived hs hbase hchain⟩

namespace Chain

theorem ne_nil (h : Chain sets id chain) : chain ≠ [] := by
  cases h with
  | root => exact List.cons_ne_nil _ _
  | derived => exact List.append_ne_nil_of_right_ne_nil _ (List.cons_ne_nil _ _)

/-- A chain ends with the rule set of its id. -/
theorem getLast?_eq (h : Chain sets id chain) : chain.getLast? = sets.get? id := by
  cases h with
  | root hs => rw [List.getLast?_singleton, hs]
  | derived hs => rw [List.getLast?_concat, hs]

/-- A chain begins with a rule set without a base. -/
theorem base_of_mem_head? (h : Chain sets id chain) : ∀ s ∈ chain.head?, s.base = none := by
  induction h with
  | root _ hbase =>
    intro s hs
    cases hs
    exact hbase
  | derived _ _ hchain ih => rwa [List.head?_append_of_ne_nil _ hchain.ne_nil]

/-- In a chain each rule set stands right behind its base. -/
theorem isChain (h : Chain sets id chain) : chain.IsChain (fun a b => b.base = some a.id) := by
  induction h with
  | root => exact List.isChain_singleton _
  | derived _ hbase hchain ih =>
    refine ih.append (List.isChain_singleton _) ?_
    intro a ha b hb
    rw [hchain.getLast?_eq] at ha
    have hid : a.id = _ := Catalog.name_of_get? ha
    cases hb
    rw [hbase, hid]

/-- Turned around, a chain is what the steps along the bases meet. -/
theorem getElem?_reverse (h : Chain sets id chain) (n : Nat) : chain.reverse[n]? = ancestor? sets n id := by
  induction h generalizing n with
  | root hs hbase =>
    cases n with
    | zero => exact hs.symm
    | succ n => rw [ancestor?, hs, Option.bind_some, hbase, Option.bind_none]; rfl
  | derived hs hbase _ ih =>
    rw [List.reverse_append, List.reverse_singleton, List.singleton_append]
    cases n with
    | zero => exact hs.symm
    | succ n => rw [ancestor?, hs, Option.bind_some, hbase, Option.bind_some, List.getElem?_cons_succ, ih]

end Chain

end RuleSet

/-! ### Why rule sets are refused -/

/-- The walk reports an id as unknown only if it is not registered. -/
theorem RuleSet.not_mem_of_walk {sets : Catalog RuleSet} {derived : List String} {id n : String}
    {reference : RuleSetReference} (h : walk sets derived id = .error (.unknownRuleSet n reference)) : n ∉ sets.names := by
  fun_induction walk sets derived id with
  | case1 => cases h
  | case2 derived id hd hs =>
    cases h
    exact Catalog.get?_eq_none_iff.mp hs
  | case3 => cases h
  | case4 _ _ _ _ _ _ _ ih => exact ih h

namespace RuleRegistry

/-- The error of a registry is that of the first rule set without a chain. -/
theorem exists_walk_of_ofSets_error {sets : Catalog RuleSet} {e : BuildError} (h : ofSets sets = .error e) :
    ∃ before s after, sets.items = before ++ s :: after ∧ (∀ x ∈ before, RuleSet.Rooted sets x.id) ∧
      RuleSet.walk sets [] s.id = .error e := by
  have key : ∀ l, checkChains sets l = .error e → ∃ before s after, l = before ++ s :: after ∧
      (∀ x ∈ before, RuleSet.Rooted sets x.id) ∧ RuleSet.walk sets [] s.id = .error e := by
    intro l
    induction l with
    | nil => exact fun h => nomatch h
    | cons s l ih =>
      intro h
      rcases bind_eq_error_iff.mp h with hwalk | ⟨ids, hids, h⟩
      · exact ⟨[], s, l, rfl, fun x hx => absurd hx List.not_mem_nil, hwalk⟩
      · obtain ⟨before, s', after, rfl, hbefore, hwalk⟩ := ih h
        obtain ⟨chain, hchain, -⟩ := RuleSet.walk_eq_ok_iff.mp hids
        exact ⟨s :: before, s', after, rfl, List.forall_mem_cons.mpr ⟨hchain.rooted, hbefore⟩, hwalk⟩
  rcases bind_eq_error_iff.mp h with h | ⟨_, _, h⟩
  · exact key _ h
  · cases h

end RuleRegistry

/-- Rule sets make a registry exactly if the walk along the bases ends from each of them: it only meets registered rule sets
and comes to one without a base. The chain that the registry gives for the id of a rule set has no repeats, ends with the rule
set of the id, begins with one without a base, and has in front of each rule set its base; it holds all that the walk meets.
For an id that is not registered it is empty. -/
theorem base_chains_exact (sets : Catalog RuleSet) :
    ((∃ r, RuleRegistry.ofSets sets = .ok r) ↔ ∀ s ∈ sets.items, RuleSet.Rooted sets s.id) ∧
    ∀ r, RuleRegistry.ofSets sets = .ok r →
      (∀ id ∈ sets.names,
        ((r.chain id).map RuleSet.id).Nodup ∧
        (r.chain id).getLast?.map RuleSet.id = some id ∧
        (∀ s ∈ (r.chain id).head?, s.base = none) ∧
        (r.chain id).IsChain (fun a b => b.base = some a.id) ∧
        ∀ n, (r.chain id).reverse[n]? = RuleSet.ancestor? sets n id) ∧
      ∀ id, id ∉ sets.names → r.chain id = [] := by
  have hrooted : (∀ s ∈ sets.items, ∃ chain, RuleSet.Chain sets s.id chain) ↔
      ∀ s ∈ sets.items, RuleSet.Rooted sets s.id :=
    forall₂_congr (fun _ _ => RuleSet.exists_chain_iff)
  refine ⟨?_, fun r hr => ?_⟩
  · rw [← hrooted]
    exact ⟨fun ⟨_, hr⟩ => (RuleRegistry.ofSets_eq_ok_iff.mp hr).2,
      fun h => ⟨_, RuleRegistry.ofSets_eq_ok_iff.mpr ⟨rfl, h⟩⟩⟩
  · obtain ⟨rfl, hchains⟩ := RuleRegistry.ofSets_eq_ok_iff.mp hr
    refine ⟨fun id hid => ?_, fun id hid => ?_⟩
    · obtain ⟨s, hs⟩ := Catalog.mem_names_iff.mp hid
      have hname : s.id = id := Catalog.name_of_get? hs
      obtain ⟨chain, hchain⟩ := hchains s (Catalog.mem_of_get? hs)
      rw [hname] at hchain
      rw [RuleRegistry.chain_eq hchain]
      refine ⟨hchain.nodup, ?_, hchain.base_of_mem_head?, hchain.isChain, hchain.getElem?_reverse⟩
      rw [hchain.getLast?_eq, hs, Option.map_some, hname]
    · refine RuleRegistry.chain_eq_nil (fun chain hchain => hid ?_)
      cases hchain with
      | root hs => exact Catalog.mem_names_of_get? hs
      | derived hs => exact Catalog.mem_names_of_get? hs

/-- Rule sets of which each is registered before its base. -/
def packageSets : Catalog RuleSet :=
  Catalog.ofList [{ id := "boost", base := some "vcpkg" }, { id := "vcpkg", base := some "export" }, { id := "export" }]

theorem base_chains_exact_boost :
    ∃ r, RuleRegistry.ofSets packageSets = .ok r ∧ (r.chain "boost").map RuleSet.id = ["export", "vcpkg", "boost"] ∧
      r.chain "missing" = [] := by
  obtain ⟨hexists, hchains⟩ := base_chains_exact packageSets
  have hrooted : ∀ s ∈ packageSets.items, RuleSet.Rooted packageSets s.id := by
    rw [packageSets]
    exact List.forall_mem_cons.mpr ⟨⟨2, _, rfl, rfl⟩, List.forall_mem_cons.mpr ⟨⟨1, _, rfl, rfl⟩,
      List.forall_mem_singleton.mpr ⟨0, _, rfl, rfl⟩⟩⟩
  obtain ⟨r, hr⟩ := hexists.mpr hrooted
  obtain ⟨hknown, hunknown⟩ := hchains r hr
  obtain ⟨-, -, -, -, hwalk⟩ := hknown "boost" (by decide)
  refine ⟨r, hr, ?_, hunknown "missing" (by decide)⟩
  have hreverse : (r.chain "boost").reverse = [
      { id := "boost", base := some "vcpkg" }, { id := "vcpkg", base := some "export" }, { id := "export" }] := by
    refine List.ext_getElem? (fun n => ?_)
    rw [hwalk]
    match n with
    | 0 | 1 | 2 | _ + 3 => rfl
  rw [← List.reverse_reverse (r.chain "boost"), hreverse]
  rfl

end BuildPlan
