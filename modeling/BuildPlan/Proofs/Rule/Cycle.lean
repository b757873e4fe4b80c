import BuildPlan.Proofs.Graph.Cycle
import BuildPlan.Proofs.Rule.Registry

/-!
# The base chain that is reported as circular

An id has one base at most, so the bases of an id either end or lead into one cycle. A registry that is refused for a circular
chain names what the walk met from the first rule set without a chain on, the latest first (`RuleSet.walk_eq_cycle`): the cycle
with its first id repeated, and behind it the ids over which the walk came to the cycle. These lie on no cycle, so what is
reported is a cycle exactly if the walk started on it (`base_cycle_reported`); it need not have (`base_cycle_overrun`).
-/

namespace BuildPlan

open Relation

namespace RuleSet

variable {sets : Catalog RuleSet} {a b c id first : String} {others leadIn ids derived : List String}

/-- The rule set of an id is registered and has another id as its base. -/
def IsBaseOf (sets : Catalog RuleSet) (base id : String) : Prop := ∃ s, sets.get? id = some s ∧ s.base = some base

/-- A rule set has one base only. -/
theorem IsBaseOf.unique (h : IsBaseOf sets a id) (h' : IsBaseOf sets b id) : a = b := by
  obtain ⟨s, hs, ha⟩ := h
  obtain ⟨s', hs', hb⟩ := h'
  rw [hs, Option.some.injEq] at hs'
  subst hs'
  rw [ha, Option.some.injEq] at hb
  exact hb

/-- A cycle of bases from a first id through others back to the first: each is the base of the next one, and none comes
twice. -/
structure IsBaseCycle (sets : Catalog RuleSet) (first : String) (others : List String) : Prop where
  nodup : (first :: others).Nodup
  bases : (first :: (others ++ [first])).IsChain (IsBaseOf sets)

/-- In a chain of a relation every item but the first has one before it. -/
theorem exists_before_of_isChain {R : String → String → Prop} {l : List String} (h : (a :: (l ++ [b])).IsChain R) :
    ∀ c ∈ l ++ [b], ∃ x ∈ a :: l, R x c := by
  induction l generalizing a with
  | nil =>
    intro c hc
    rw [List.nil_append, List.mem_singleton] at hc
    exact ⟨a, List.mem_cons_self, hc ▸ (List.isChain_cons_cons.mp h).1⟩
  | cons x l ih =>
    obtain ⟨hax, h⟩ := List.isChain_cons_cons.mp h
    intro c hc
    rcases List.mem_cons.mp hc with rfl | hc
    · exact ⟨a, List.mem_cons_self, hax⟩
    · obtain ⟨y, hy, hyc⟩ := ih h c hc
      exact ⟨y, List.mem_cons_of_mem _ hy, hyc⟩

namespace IsBaseCycle

/-- The base of an id of a cycle is on the cycle. -/
theorem mem_of_isBaseOf (h : IsBaseCycle sets first others) (hc : c ∈ first :: others) (hbc : IsBaseOf sets b c) :
    b ∈ first :: others := by
  have hc' : c ∈ others ++ [first] := by
    rcases List.mem_cons.mp hc with rfl | hc
    · exact List.mem_append_right _ (List.mem_singleton.mpr rfl)
    · exact List.mem_append_left _ hc
  obtain ⟨x, hx, hxc⟩ := exists_before_of_isChain h.bases c hc'
  rwa [hbc.unique hxc]

/-- All that leads to an id of a cycle over bases is on the cycle. -/
theorem mem_of_reflTransGen (h : IsBaseCycle sets first others) (hbc : ReflTransGen (IsBaseOf sets) b c)
    (hc : c ∈ first :: others) : b ∈ first :: others := by
  induction hbc using ReflTransGen.head_induction_on with
  | refl => exact hc
  | head hab _ ih => exact h.mem_of_isBaseOf ih hab

/-- Every id of a cycle leads back to itself. -/
theorem transGen (h : IsBaseCycle sets first others) (hc : c ∈ first :: others) : TransGen (IsBaseOf sets) c c := by
  rcases List.mem_cons.mp hc with rfl | hc
  · exact TargetGraph.transGen_of_isChain h.bases
  · obtain ⟨front, back, hothers⟩ := List.append_of_mem hc
    have hbases := h.bases
    rw [hothers, List.append_assoc, List.cons_append, ← List.cons_append, List.isChain_split] at hbases
    exact (TargetGraph.transGen_of_isChain hbases.2).trans (TargetGraph.transGen_of_isChain hbases.1)

end IsBaseCycle

/-- An id that leads back to itself leads back to all that leads to it: it has one base only, so its cycle and the path come to
it over the same one. -/
theorem reflTransGen_of_transGen_self (hac : ReflTransGen (IsBaseOf sets) a c) (hcc : TransGen (IsBaseOf sets) c c) :
    ReflTransGen (IsBaseOf sets) c a := by
  induction hac with
  | refl => exact .refl
  | tail _ hbc ih =>
    obtain ⟨b', hcb, hb'⟩ := TransGen.tail'_iff.mp hcc
    rw [hb'.unique hbc] at hcb
    exact hcb.trans (ih (.head' hbc hcb))

/-- A cycle of bases with its first id again at its end, and behind it a lead-in: ids over which the bases lead to the cycle.
No id but the first one comes twice. -/
structure IsLasso (sets : Catalog RuleSet) (first : String) (others leadIn : List String) : Prop where
  nodup : (others ++ first :: leadIn).Nodup
  bases : (first :: (others ++ first :: leadIn)).IsChain (IsBaseOf sets)

namespace IsLasso

/-- A lasso is a cycle and a lead-in from the same id. -/
theorem split (h : IsLasso sets first others leadIn) :
    (first :: (others ++ [first])).IsChain (IsBaseOf sets) ∧ (first :: leadIn).IsChain (IsBaseOf sets) := by
  have hbases := h.bases
  rwa [← List.cons_append, List.isChain_split, List.cons_append] at hbases

/-- A lasso begins with a cycle. -/
theorem isBaseCycle (h : IsLasso sets first others leadIn) : IsBaseCycle sets first others := by
  obtain ⟨hothers, -, hdisjoint⟩ := List.nodup_append.mp h.nodup
  exact ⟨List.nodup_cons.mpr ⟨fun hmem => hdisjoint first hmem first List.mem_cons_self rfl, hothers⟩, h.split.1⟩

/-- No id of the lead-in stands on the cycle. -/
theorem not_mem_of_leadIn (h : IsLasso sets first others leadIn) (hid : id ∈ leadIn) : id ∉ first :: others := by
  obtain ⟨-, hleadIn, hdisjoint⟩ := List.nodup_append.mp h.nodup
  intro hmem
  rcases List.mem_cons.mp hmem with rfl | hmem
  · exact (List.nodup_cons.mp hleadIn).1 hid
  · exact hdisjoint id hmem id (List.mem_cons_of_mem _ hid) rfl

/-- The ids of the lead-in are on no cycle. -/
theorem not_transGen_of_leadIn (h : IsLasso sets first others leadIn) (hid : id ∈ leadIn) :
    ¬TransGen (IsBaseOf sets) id id := by
  intro hself
  obtain ⟨front, back, hleadIn⟩ := List.append_of_mem hid
  have hbases := h.split.2
  rw [hleadIn, ← List.cons_append, List.isChain_split, List.cons_append] at hbases
  have hreach : ReflTransGen (IsBaseOf sets) first id := (TargetGraph.transGen_of_isChain hbases.1).to_reflTransGen
  exact h.not_mem_of_leadIn hid
    (h.isBaseCycle.mem_of_reflTransGen (reflTransGen_of_transGen_self hreach hself) List.mem_cons_self)

/-- The ids that lead back to themselves are those of the cycle. -/
theorem transGen_iff (h : IsLasso sets first others leadIn) (hid : id ∈ first :: (others ++ first :: leadIn)) :
    TransGen (IsBaseOf sets) id id ↔ id ∈ first :: others := by
  refine ⟨fun hself => ?_, h.isBaseCycle.transGen⟩
  rw [← List.cons_append, List.mem_append, List.mem_cons (l := leadIn)] at hid
  rcases hid with hid | rfl | hid
  · exact hid
  · exact List.mem_cons_self
  · exact absurd hself (h.not_transGen_of_leadIn hid)

end IsLasso

/-! ### What the walk meets -/

/-- The ids of a walk that ends in a cycle: the id it comes back to and before it all that it met, each the base of the
next one. -/
theorem walk_eq_cycle (h : walk sets derived id = .error (.ruleChainCycle ids)) (hnodup : derived.Nodup)
    (hbases : (id :: derived).IsChain (IsBaseOf sets)) :
    ∃ first others leadIn, ids = first :: (others ++ first :: leadIn) ∧ IsLasso sets first others leadIn ∧
      id :: derived <:+ ids := by
  fun_induction walk sets derived id with
  | case1 derived id hd =>
    cases h
    obtain ⟨others, leadIn, rfl⟩ := List.append_of_mem hd
    exact ⟨id, others, leadIn, rfl, ⟨hnodup, hbases⟩, List.suffix_refl _⟩
  | case2 => cases h
  | case3 => cases h
  | case4 derived id hd s hs base hbase ih =>
    obtain ⟨first, others, leadIn, hids, hlasso, hsuffix⟩ :=
      ih h (List.nodup_cons.mpr ⟨hd, hnodup⟩) (List.isChain_cons_cons.mpr ⟨⟨s, hs, hbase⟩, hbases⟩)
    exact ⟨first, others, leadIn, hids, hlasso, (List.suffix_cons _ _).trans hsuffix⟩

end RuleSet

/-- What is reported of a circular base chain. The walk started at the first rule set from which the bases do not end, and the
report lists what it met, the latest first, each id the base of the next one: a cycle, its first id again, and a lead-in that
ends with the id at which the walk started. No other id comes twice. The ids of the cycle lead back to themselves, those of the
lead-in do not; so the report is a cycle exactly if the walk started on it. The text joins the ids by arrows. -/
theorem base_cycle_reported {sets : Catalog RuleSet} {ids : List String}
    (h : RuleRegistry.ofSets sets = .error (.ruleChainCycle ids)) :
    ∃ before s after, sets.items = before ++ s :: after ∧ (∀ x ∈ before, RuleSet.Rooted sets x.id) ∧
      ids.getLast? = some s.id ∧
      (∃ first others leadIn, ids = first :: (others ++ first :: leadIn) ∧ RuleSet.IsLasso sets first others leadIn ∧
        ∀ id ∈ ids, TransGen (RuleSet.IsBaseOf sets) id id ↔ id ∈ first :: others) ∧
      ((∃ first others, ids = first :: (others ++ [first]) ∧ RuleSet.IsBaseCycle sets first others) ↔
        TransGen (RuleSet.IsBaseOf sets) s.id s.id) ∧
      (BuildError.ruleChainCycle ids).message = "Rule set base chain is circular: " ++ Text.join " -> " ids := by
  obtain ⟨before, s, after, hitems, hbefore, hwalk⟩ := RuleRegistry.exists_walk_of_ofSets_error h
  obtain ⟨first, others, leadIn, rfl, hlasso, l, hlast⟩ :=
    RuleSet.walk_eq_cycle hwalk List.nodup_nil (List.isChain_singleton s.id)
  have hlast : (first :: (others ++ first :: leadIn)).getLast? = some s.id := by rw [← hlast, List.getLast?_concat]
  refine ⟨before, s, after, hitems, hbefore, hlast,
    ⟨first, others, leadIn, rfl, hlasso, fun id hid => hlasso.transGen_iff hid⟩, ?_, rfl⟩
  constructor
  · rintro ⟨a, l, hids, hcycle⟩
    rw [hids, ← List.cons_append, List.getLast?_concat, Option.some.injEq] at hlast
    exact hlast ▸ hcycle.transGen List.mem_cons_self
  · intro hself
    have hnone : leadIn = [] := by
      by_contra hne
      rw [← List.cons_append, List.getLast?_append_cons, List.getLast?_cons_of_ne_nil hne] at hlast
      exact hlasso.not_transGen_of_leadIn (List.mem_of_getLast? hlast) hself
    exact ⟨first, others, by rw [hnone], hlasso.isBaseCycle⟩

/-- Two rule sets that are the base of each other, and one registered before them that leads to them. -/
def overrunSets : Catalog RuleSet :=
  Catalog.ofList [{ id := "Tools", base := some "Common" }, { id := "Common", base := some "Platform" },
    { id := "Platform", base := some "Common" }]

/-- The report on the sample goes on behind the cycle. -/
theorem ofSets_overrunSets :
    RuleRegistry.ofSets overrunSets = .error (.ruleChainCycle ["Common", "Platform", "Common", "Tools"]) := by cbv

theorem base_cycle_reported_overrun :
    RuleRegistry.ofSets overrunSets = .error (.ruleChainCycle ["Common", "Platform", "Common", "Tools"]) ∧
      ∃ others leadIn, ["Platform", "Common", "Tools"] = others ++ "Common" :: leadIn ∧
        RuleSet.IsLasso overrunSets "Common" others leadIn := by
  obtain ⟨-, -, -, -, -, -, ⟨first, others, leadIn, hids, hlasso, -⟩, -, -⟩ := base_cycle_reported ofSets_overrunSets
  obtain ⟨rfl, hrest⟩ := List.cons.inj hids
  exact ⟨ofSets_overrunSets, others, leadIn, hrest, hlasso⟩

/-- A walk that starts ahead of the cycle has its start in the report: what is reported is then not a cycle. -/
theorem base_cycle_overrun :
    ¬∀ (sets : Catalog RuleSet) (ids : List String), RuleRegistry.ofSets sets = .error (.ruleChainCycle ids) →
      ∃ first others, ids = first :: (others ++ [first]) ∧ RuleSet.IsBaseCycle sets first others := by
  intro hclaim
  obtain ⟨first, others, hids, -⟩ := hclaim _ _ ofSets_overrunSets
  obtain ⟨rfl, hrest⟩ := List.cons.inj hids
  have hlast := congrArg List.getLast? hrest
  rw [List.getLast?_concat] at hlast
  exact absurd hlast (by decide)

end BuildPlan
