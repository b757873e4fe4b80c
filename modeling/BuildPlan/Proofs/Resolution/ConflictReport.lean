import BuildPlan.Proofs.Resolution.Conflicts
import BuildPlan.Proofs.Workspace
import Mathlib.Data.List.Nodup

/-!
# Which conflict is reported

Declared rules are in conflict where one of them gives to a scalar field another value than the last rule before it that set
the field. A configuration keeps these conflicts in the order in which they are completed: by the place of the second rule
among the rules that are applied, and for one rule by the order in which it writes its fields
(`Workspace.conflicts_applyRules`). So what strict mode reports is the conflict that is completed first
(`conflict_report_exact`).
-/

namespace BuildPlan

/-! ### The first of some candidates -/

/-- The first item of a list that gives a result, where a rank grows along the list. -/
theorem findSome?_eq_some_iff_of_rank {α β : Type} {g : α → Option β} {rank : α → Nat} {l : List α} {b : β}
    (h : l.Pairwise (fun x y => rank x < rank y)) :
    l.findSome? g = some b ↔ ∃ a ∈ l, g a = some b ∧ ∀ a' ∈ l, rank a' < rank a → g a' = none := by
  rw [List.findSome?_eq_some_iff]
  constructor
  · rintro ⟨before, a, after, rfl, ha, hbefore⟩
    refine ⟨a, by simp, ha, fun a' ha' hlt => ?_⟩
    obtain ⟨-, hrest, -⟩ := List.pairwise_append.mp h
    rcases List.mem_append.mp ha' with ha' | ha'
    · exact hbefore a' ha'
    · rcases List.mem_cons.mp ha' with rfl | ha'
      · exact absurd hlt (Nat.lt_irrefl _)
      · exact absurd (List.rel_of_pairwise_cons hrest ha') (Nat.lt_asymm hlt)
  · rintro ⟨a, ha, hsome, hnone⟩
    obtain ⟨before, after, rfl⟩ := List.append_of_mem ha
    obtain ⟨-, -, hlt⟩ := List.pairwise_append.mp h
    exact ⟨before, a, after, rfl, hsome, fun a' ha' =>
      hnone a' (List.mem_append_left _ ha') (hlt a' ha' a List.mem_cons_self)⟩

/-- The last item of a list that gives a result. -/
theorem getLast?_filterMap_eq_some_iff {α β : Type} {g : α → Option β} {l : List α} {b : β} :
    (l.filterMap g).getLast? = some b ↔
      ∃ before a after, l = before ++ a :: after ∧ g a = some b ∧ ∀ a' ∈ after, g a' = none := by
  rw [List.getLast?_filterMap, List.findSome?_eq_some_iff]
  constructor
  · rintro ⟨after, a, before, heq, ha, hnone⟩
    refine ⟨before.reverse, a, after.reverse, ?_, ha, fun a' ha' => hnone a' (List.mem_reverse.mp ha')⟩
    rw [← l.reverse_reverse, heq]
    simp
  · rintro ⟨before, a, after, rfl, ha, hnone⟩
    exact ⟨after.reverse, a, before.reverse, by simp, ha, fun a' ha' => hnone a' (List.mem_reverse.mp ha')⟩

/-! ### The fields of one rule -/

namespace ScalarField

/-- The place of a field among those that a declared rule writes. -/
def place : ScalarField → Nat
  | outputKind => 0
  | outputPath => 1
  | intermediatePath => 2
  | targetFileName => 3

/-- Every scalar field has a place in the order in which a rule writes them. -/
theorem mem_inOrder (f : ScalarField) : f ∈ inOrder := by
  cases f <;> decide

/-- The fields stand in the order of their places. -/
theorem pairwise_inOrder : inOrder.Pairwise (fun f g => f.place < g.place) := by decide

/-- The write of a field by the `j`-th rule comes no later than another one: it is the write of an earlier rule, or of the same
rule to a field that does not come later. -/
def NoLater (j : Nat) (f : ScalarField) (j' : Nat) (f' : ScalarField) : Prop := j < j' ∨ j = j' ∧ f.place ≤ f'.place

/-- The first of the results that the writes of some rules give, rule by rule and field by field. -/
theorem head?_flatMap_inOrder {β : Type} {g : Nat → ScalarField → Option β} {n : Nat} {b : β}
    (hbound : ∀ j f, n ≤ j → g j f = none) :
    ((List.range n).flatMap (fun j => inOrder.filterMap (g j))).head? = some b ↔
      ∃ j f, g j f = some b ∧ ∀ j' f' b', g j' f' = some b' → NoLater j f j' f' := by
  have hlt : ∀ {j f b}, g j f = some b → j < n := by
    intro j f b hsome
    refine Nat.lt_of_not_le (fun hle => ?_)
    rw [hbound j f hle] at hsome
    cases hsome
  rw [List.head?_flatMap, findSome?_eq_some_iff_of_rank List.pairwise_lt_range]
  simp only [List.head?_filterMap, findSome?_eq_some_iff_of_rank pairwise_inOrder, List.findSome?_eq_none_iff]
  constructor
  · rintro ⟨j, -, ⟨f, -, hf, hfields⟩, hrules⟩
    refine ⟨j, f, hf, fun j' f' b' hf' => ?_⟩
    rcases Nat.lt_trichotomy j j' with hj | rfl | hj
    · exact Or.inl hj
    · refine Or.inr ⟨rfl, Nat.le_of_not_lt (fun hplace => ?_)⟩
      rw [hfields f' (mem_inOrder f') hplace] at hf'
      cases hf'
    · rw [hrules j' (List.mem_range.mpr (hlt hf')) hj f' (mem_inOrder f')] at hf'
      cases hf'
  · rintro ⟨j, f, hf, hfirst⟩
    have hnone : ∀ j' f', ¬NoLater j f j' f' → g j' f' = none := by
      intro j' f' hearlier
      rw [Option.eq_none_iff_forall_ne_some]
      exact fun b' hf' => hearlier (hfirst j' f' b' hf')
    refine ⟨j, List.mem_range.mpr (hlt hf), ⟨f, mem_inOrder f, hf, fun f' _ hplace => hnone j f' ?_⟩,
      fun j' _ hj f' _ => hnone j' f' ?_⟩
    · unfold NoLater
      omega
    · unfold NoLater
      omega

/-- What is written to the fields in order is written to each of them once. -/
theorem nodup_written (value : ScalarField → Option String) :
    ((inOrder.filterMap (fun f => (value f).map (fun v => (f, v)))).map Prod.fst).Nodup := by
  have hfield : ∀ {f g}, g ∈ ((value f).map (fun v => (f, v))).map Prod.fst → f = g := by
    intro f g hg
    cases hv : value f with
    | none =>
      rw [hv] at hg
      cases hg
    | some v =>
      rw [hv] at hg
      exact Option.some.inj hg
  rw [List.map_filterMap]
  exact List.Nodup.filterMap (fun _ _ _ hf hg => (hfield hf).trans (hfield hg).symm) (by decide)

end ScalarField

namespace Rule

variable {r : Rule}

/-- A declared rule writes its scalar fields in order, the same in whatever it reads. -/
theorem Declarative.filterMap_scalar?_writes (h : r.Declarative) (x y : RuleContext) (c : Configuration) :
    (r.writes.run y c).filterMap Write.scalar? =
      ScalarField.inOrder.filterMap (fun f => (r.value? x f).map (fun v => (f, v))) := by
  obtain ⟨entry, hentry⟩ := h
  obtain ⟨filter, outputKind, rfl⟩ := Manifest.RuleEntry.rule_eq_ok hentry
  have hvalue : ∀ f, value? ⟨entry.name, filter, entry.priority, .always (entry.writes outputKind)⟩ x f =
      entry.value? outputKind f := by
    intro f
    rw [value?, ← List.head?_filterMap]
    refine (congrArg List.head? (entry.filterMap_value?_writes outputKind f)).trans ?_
    cases entry.value? outputKind f <;> rfl
  simp only [hvalue]
  exact entry.filterMap_scalar?_writes outputKind

end Rule

namespace Configuration

variable {c : Configuration} {author : Provenance}

/-- A conflict is recorded exactly if the last write of the field is disputed, and reports both. -/
theorem conflict?_eq_some_iff {f : ScalarField} {last : Option ScalarWrite} {v : String} {report : ScalarConflict} :
    conflict? f last author v = some report ↔
      ∃ y, last = some y ∧ y.Disputes ⟨author, v⟩ ∧
        report = ⟨f, author.ruleSet, y.author.rule, y.value, author.rule, v⟩ := by
  cases last with
  | none => simp [conflict?]
  | some y => simp [conflict?, ScalarWrite.Disputes, eq_comm (b := report)]

/-- Writes of different scalar fields make the conflicts that each of them makes with what was written before all of them. -/
theorem conflicts_writeAll (hc : c.current = some author) {ws : List Write}
    (hfields : ((ws.filterMap Write.scalar?).map Prod.fst).Nodup) :
    (c.writeAll ws).conflicts =
      c.conflicts ++ (ws.filterMap Write.scalar?).filterMap (fun s => conflict? s.1 (c.lastWrite s.1) author s.2) := by
  unfold writeAll
  induction ws generalizing c with
  | nil => exact (List.append_nil _).symm
  | cons w ws ih =>
    have hrest := fun h => ih (c := c.write w) ((current_write c w).trans hc) h
    rw [List.foldl_cons]
    cases hw : w.scalar? with
    | none =>
      obtain ⟨hlast, hconflicts⟩ := write_of_scalar?_eq_none (c := c) hw
      rw [List.filterMap_cons_none hw] at hfields ⊢
      rw [hrest hfields, hlast, hconflicts]
    | some s =>
      obtain ⟨field, v⟩ := s
      obtain ⟨hlast, hconflicts⟩ := write_of_scalar?_eq_some hw hc
      rw [List.filterMap_cons_some hw] at hfields ⊢
      obtain ⟨hnew, hfields⟩ := List.nodup_cons.mp hfields
      have hothers : ∀ s ∈ ws.filterMap Write.scalar?, conflict? s.1 ((c.write w).lastWrite s.1) author s.2 =
          conflict? s.1 (c.lastWrite s.1) author s.2 := by
        intro s hs
        have hne : s.1 ≠ field := fun heq => hnew (List.mem_map.mpr ⟨s, hs, heq⟩)
        rw [hlast, if_neg hne]
      rw [hrest hfields, hconflicts, List.filterMap_congr hothers, List.append_assoc, List.filterMap_cons]
      cases conflict? field (c.lastWrite field) author v <;> rfl

end Configuration

/-! ### The rules of a chain -/

namespace Workspace

variable {w : Workspace} {p : Project} {t : Target} {x : RuleContext} {f : ScalarField}

/-- The last write of a field by some rules. -/
def lastSet (x : RuleContext) (f : ScalarField) (rules : List (RuleSet × Rule)) : Option ScalarWrite :=
  (rules.filterMap (fun e => (e.2.value? x f).map (ScalarWrite.mk (AppliedRule.ofRule x e).1))).getLast?

/-- The conflict that a rule completes when it sets a field after some rules. -/
def conflictAfter (x : RuleContext) (earlier : List (RuleSet × Rule)) (e : RuleSet × Rule) (f : ScalarField) :
    Option ScalarConflict :=
  (e.2.value? x f).bind (fun v => Configuration.conflict? f (lastSet x f earlier) (AppliedRule.ofRule x e).1 v)

/-- The conflict that the rule of a place among some rules completes when it sets a field. -/
def conflictAt (x : RuleContext) (rules : List (RuleSet × Rule)) (j : Nat) (f : ScalarField) : Option ScalarConflict :=
  rules[j]?.bind (fun e => conflictAfter x (rules.take j) e f)

/-- Of declared rules the last one that sets a field makes the last write of it. -/
theorem lastSet_eq_some_iff {rules : List (RuleSet × Rule)} (h : ∀ e ∈ rules, e.2.Declarative) {y : ScalarWrite} :
    lastSet x f rules = some y ↔
      ∃ before s r between, rules = before ++ (s, r) :: between ∧ r.Sets f y.value ∧
        y.author = ⟨s.id, r.name, r.priority⟩ ∧ ∀ e ∈ between, ∀ v, ¬e.2.Sets f v := by
  rw [lastSet, getLast?_filterMap_eq_some_iff]
  constructor
  · rintro ⟨before, ⟨s, r⟩, between, rfl, hwrite, hnone⟩
    obtain ⟨v, hv, rfl⟩ := Option.map_eq_some_iff.mp hwrite
    refine ⟨before, s, r, between, rfl, ((h (s, r) (by simp)).sets_iff x).mpr hv, rfl, fun e he v hset => ?_⟩
    have hunset := Option.map_eq_none_iff.mp (hnone e he)
    rw [((h e (by simp [he])).sets_iff x).mp hset] at hunset
    cases hunset
  · rintro ⟨before, s, r, between, rfl, hsets, hauthor, hunset⟩
    have hv := ((h (s, r) (by simp)).sets_iff x).mp hsets
    refine ⟨before, (s, r), between, rfl, Option.map_eq_some_iff.mpr ⟨_, hv, ?_⟩, fun e he => ?_⟩
    · obtain ⟨author, value⟩ := y
      exact congrArg (fun a => ScalarWrite.mk a value) hauthor.symm
    · rw [Option.map_eq_none_iff, Option.eq_none_iff_forall_ne_some]
      exact fun v hv => hunset e he v (((h e (by simp [he])).sets_iff x).mpr hv)

/-- The conflict of a rule does not depend on the rules after it. -/
theorem conflictAt_concat (x : RuleContext) (rules : List (RuleSet × Rule)) (e : RuleSet × Rule) {j : Nat}
    (hj : j < rules.length) : conflictAt x (rules ++ [e]) j = conflictAt x rules j := by
  funext f
  rw [conflictAt, conflictAt, List.getElem?_append_left hj, List.take_append_of_le_length (Nat.le_of_lt hj)]

/-- The conflict of the last rule is the one that it completes after the rules before it. -/
theorem conflictAt_length (x : RuleContext) (rules : List (RuleSet × Rule)) (e : RuleSet × Rule) :
    conflictAt x (rules ++ [e]) rules.length = conflictAfter x rules e := by
  funext f
  rw [conflictAt, List.getElem?_concat_length, List.take_left' rfl, Option.bind_some]

/-- The conflicts of declared rules, in the order of the rules and for each of them in the order of the fields. -/
theorem conflicts_applyRules (project : String) (t : Target) {rules : List (RuleSet × Rule)}
    (h : ∀ e ∈ rules, e.2.Declarative) :
    ((Configuration.initial project t).applyRules (rules.map (AppliedRule.ofRule x))).conflicts =
      (List.range rules.length).flatMap (fun j => ScalarField.inOrder.filterMap (conflictAt x rules j)) := by
  induction rules using List.reverseRecOn with
  | nil => rfl
  | append_singleton rules e ih =>
    have hrules : ∀ e ∈ rules, e.2.Declarative := fun e he => h e (List.mem_append_left _ he)
    let c := (Configuration.initial project t).applyRules (rules.map (AppliedRule.ofRule x))
    let a := AppliedRule.ofRule x e
    have hscalars : (a.2 (c.beginRule a.1)).filterMap Write.scalar? =
        ScalarField.inOrder.filterMap (fun f => (e.2.value? x f).map (fun v => (f, v))) :=
      (h e (by simp)).filterMap_scalar?_writes x x _
    have hlast : ∀ f, c.lastWrite f = lastSet x f rules := by
      intro f
      have hrecord := (Configuration.recorded_initial project t).applyRules (rules.map (AppliedRule.ofRule x))
      rw [hrecord.last, List.nil_append, fieldWrites_map_ofRule x f _ hrules, lastSet]
    have hfields : (((a.2 (c.beginRule a.1)).filterMap Write.scalar?).map Prod.fst).Nodup := by
      rw [hscalars]
      exact ScalarField.nodup_written _
    have hconflicts : (c.applyRule a).conflicts =
        c.conflicts ++ ScalarField.inOrder.filterMap (conflictAfter x rules e) := by
      refine (Configuration.conflicts_writeAll (c := c.beginRule a.1) rfl hfields).trans ?_
      rw [hscalars, List.filterMap_filterMap]
      refine congrArg (c.conflicts ++ ·) (List.filterMap_congr (fun f _ => ?_))
      rw [conflictAfter, ← hlast]
      cases e.2.value? x f <;> rfl
    have hold : ∀ j ∈ List.range rules.length, ScalarField.inOrder.filterMap (conflictAt x (rules ++ [e]) j) =
        ScalarField.inOrder.filterMap (conflictAt x rules j) :=
      fun j hj => by rw [conflictAt_concat x rules e (List.mem_range.mp hj)]
    rw [List.length_append, List.length_singleton, List.range_succ, List.flatMap_append, List.flatMap_congr hold,
      List.flatMap_singleton, conflictAt_length, ← ih hrules, ← hconflicts, List.map_append, Configuration.applyRules,
      List.foldl_append]
    rfl

/-! ### Reports -/

/-- Two rules of one rule set of a project's chain that hold for a target are in conflict as a report says. The second one has
place `j` among the rules that are applied; the first one is before it, and no rule that is applied in between sets the field. -/
structure ConflictBetween (w : Workspace) (p : Project) (t : Target) (j : Nat) (s : RuleSet) (r r' : Rule)
    (report : ScalarConflict) : Prop where
  chain : s ∈ w.chainOf p
  applying : r ∈ s.applying t ∧ r' ∈ s.applying t
  second : (w.rulesFor p t)[j]? = some (s, r')
  first : ∃ before between, (w.rulesFor p t).take j = before ++ (s, r) :: between ∧
    ∀ e ∈ between, ∀ v, ¬e.2.Sets report.field v
  priority : r.priority = r'.priority
  name : r.name ≠ r'.name
  sets : r.Sets report.field report.firstValue ∧ r'.Sets report.field report.secondValue
  value : report.firstValue ≠ report.secondValue
  ruleSet : report.ruleSet = s.id
  firstRule : report.firstRule = r.name
  secondRule : report.secondRule = r'.name

/-- The rules that a project applies are those of its chain that hold for the target. -/
theorem mem_rulesFor {e : RuleSet × Rule} : e ∈ w.rulesFor p t ↔ e.1 ∈ w.chainOf p ∧ e.2 ∈ e.1.applying t := by
  obtain ⟨s, r⟩ := e
  simp only [rulesFor, List.mem_flatMap, List.mem_map, Prod.mk.injEq]
  constructor
  · rintro ⟨s, hs, r, hr, rfl, rfl⟩
    exact ⟨hs, hr⟩
  · rintro ⟨hs, hr⟩
    exact ⟨s, hs, r, hr, rfl, rfl⟩

/-- The rule sets of a chain have different ids. -/
theorem eq_of_mem_chainOf {s s' : RuleSet} (hs : s ∈ w.chainOf p) (hs' : s' ∈ w.chainOf p) (h : s.id = s'.id) : s = s' := by
  have hget := get?_of_mem_chainOf hs
  rw [h, get?_of_mem_chainOf hs', Option.some.injEq] at hget
  exact hget.symm

/-- The conflicts that the rules of a chain complete. -/
theorem conflictAt_eq_some_iff (h : w.DeclarativeChain p) {j : Nat} {report : ScalarConflict} :
    conflictAt ⟨w.context, p, t⟩ (w.rulesFor p t) j f = some report ↔
      report.field = f ∧ ∃ s r r', w.ConflictBetween p t j s r r' report := by
  have hrules : ∀ e ∈ w.rulesFor p t, e.2.Declarative := fun e he => h.of_mem_rulesFor he
  have htaken : ∀ e ∈ (w.rulesFor p t).take j, e.2.Declarative := fun e he => hrules e (List.mem_of_mem_take he)
  constructor
  · intro hreport
    obtain ⟨⟨s', r'⟩, hj, hreport⟩ := Option.bind_eq_some_iff.mp hreport
    obtain ⟨v', hv', hreport⟩ := Option.bind_eq_some_iff.mp hreport
    obtain ⟨y, hlast, ⟨hid, hpriority, hname, hvalue⟩, rfl⟩ := Configuration.conflict?_eq_some_iff.mp hreport
    obtain ⟨before, s, r, between, htake, hsets, hauthor, hunset⟩ := (lastSet_eq_some_iff htaken).mp hlast
    rw [hauthor] at hid hpriority hname
    have hmem : (s, r) ∈ w.rulesFor p t := by
      refine List.mem_of_mem_take (i := j) ?_
      rw [htake]
      simp
    have hmem' : (s', r') ∈ w.rulesFor p t := List.mem_of_getElem? hj
    obtain ⟨hs, hr⟩ := mem_rulesFor.mp hmem
    obtain ⟨hs', hr'⟩ := mem_rulesFor.mp hmem'
    obtain rfl : s = s' := eq_of_mem_chainOf hs hs' hid
    have hsets' : r'.Sets f v' := ((hrules _ hmem').sets_iff _).mpr hv'
    exact ⟨rfl, s, r, r', hs, ⟨hr, hr'⟩, hj, ⟨before, between, htake, hunset⟩, hpriority, hname, ⟨hsets, hsets'⟩, hvalue, rfl,
      congrArg Provenance.rule hauthor, rfl⟩
  · rintro ⟨rfl, s, r, r', hreport⟩
    obtain ⟨before, between, htake, hunset⟩ := hreport.first
    have hv' := ((hrules _ (List.mem_of_getElem? hreport.second)).sets_iff ⟨w.context, p, t⟩).mp hreport.sets.2
    have hlast : lastSet ⟨w.context, p, t⟩ report.field ((w.rulesFor p t).take j) =
        some ⟨⟨s.id, r.name, r.priority⟩, report.firstValue⟩ :=
      (lastSet_eq_some_iff htaken).mpr ⟨before, s, r, between, htake, hreport.sets.1, rfl, hunset⟩
    refine Option.bind_eq_some_iff.mpr ⟨(s, r'), hreport.second, Option.bind_eq_some_iff.mpr ⟨_, hv', ?_⟩⟩
    refine Configuration.conflict?_eq_some_iff.mpr
      ⟨_, hlast, ⟨rfl, hreport.priority, hreport.name, hreport.value⟩, ?_⟩
    obtain ⟨field, ruleSet, firstRule, firstValue, secondRule, secondValue⟩ := report
    obtain rfl := hreport.ruleSet
    obtain rfl := hreport.firstRule
    obtain rfl := hreport.secondRule
    rfl

/-- The first conflict that a configuration keeps is the one that is completed first. -/
theorem head?_conflicts_eq_some_iff (h : w.DeclarativeChain p) {report : ScalarConflict} :
    (w.chainConfiguration p t).conflicts.head? = some report ↔
      ∃ j s r r', w.ConflictBetween p t j s r r' report ∧
        ∀ j' s' u u' report', w.ConflictBetween p t j' s' u u' report' →
          ScalarField.NoLater j report.field j' report'.field := by
  have hrules : ∀ e ∈ w.rulesFor p t, e.2.Declarative := fun e he => h.of_mem_rulesFor he
  have hbound : ∀ j f, (w.rulesFor p t).length ≤ j → conflictAt ⟨w.context, p, t⟩ (w.rulesFor p t) j f = none := by
    intro j f hj
    rw [conflictAt, List.getElem?_eq_none hj, Option.bind_none]
  rw [chainConfiguration, ← map_ofRule_rulesFor, conflicts_applyRules p.name t hrules,
    ScalarField.head?_flatMap_inOrder hbound]
  simp only [conflictAt_eq_some_iff h]
  constructor
  · rintro ⟨j, f, ⟨rfl, s, r, r', hreport⟩, hfirst⟩
    exact ⟨j, s, r, r', hreport, fun j' s' u u' report' hother => hfirst j' _ report' ⟨rfl, s', u, u', hother⟩⟩
  · rintro ⟨j, s, r, r', hreport, hfirst⟩
    refine ⟨j, _, ⟨rfl, s, r, r', hreport⟩, ?_⟩
    rintro j' f' report' ⟨rfl, s', u, u', hother⟩
    exact hfirst j' s' u u' report' hother

end Workspace

/-- What strict mode reports is genuine and the first there is. Strict mode refuses a project of which all rules are declared
exactly if two rules of one rule set of its chain are in conflict, and it reports the conflict that is completed first: no other
one is completed by an earlier rule, nor by the same rule with a field that it writes earlier. Whatever the rules are, no project
is refused without strict mode, and what strict mode accepts has the same local configuration without it. -/
theorem conflict_report_exact (w : Workspace) (p : Project) (t : Target) :
    (w.DeclarativeChain p → ∀ e, w.compileLocal true p t = .error e ↔
      ∃ report j s r r', e = .scalarConflict p.name report ∧ w.ConflictBetween p t j s r r' report ∧
        ∀ j' s' u u' report', w.ConflictBetween p t j' s' u u' report' →
          ScalarField.NoLater j report.field j' report'.field) ∧
      (∃ l, w.compileLocal false p t = .ok l) ∧
      ∀ l, w.compileLocal true p t = .ok l → w.compileLocal false p t = .ok l := by
  refine ⟨fun h e => ?_, ⟨w.localConfiguration p t, rfl⟩, fun l hl => ?_⟩
  · simp only [exists_and_left, ← Workspace.head?_conflicts_eq_some_iff h]
    unfold Workspace.compileLocal
    cases (w.chainConfiguration p t).conflicts with
    | nil => simp
    | cons report rest => simp [eq_comm]
  · unfold Workspace.compileLocal at hl ⊢
    cases hconflicts : (w.chainConfiguration p t).conflicts with
    | nil =>
      rw [hconflicts] at hl
      exact hl
    | cons report rest =>
      rw [hconflicts] at hl
      cases hl

/-- A rule that is declared to set both paths. -/
def pathsRule (name output intermediate : String) : Rule where
  name
  writes := .always (Manifest.RuleEntry.writes
    { name, outputPath := some output, intermediatePath := some intermediate } none)

/-- The rule of the sample is declarative. -/
theorem declarative_pathsRule (name output intermediate : String) : (pathsRule name output intermediate).Declarative :=
  ⟨{ name, outputPath := some output, intermediatePath := some intermediate }, rfl⟩

/-- Of two conflicts that one rule completes, that over the field which it writes first is reported. -/
theorem conflict_report_exact_paths :
    (coreWorkspace [pathsRule "first" "bin/a" "obj/a", pathsRule "second" "bin/c" "obj/c"]).compileLocal true coreProject {} =
        .error (.scalarConflict "Core" ⟨.outputPath, "Core", "first", "bin/a", "second", "bin/c"⟩) ∧
      ∃ j s r r', (coreWorkspace [pathsRule "first" "bin/a" "obj/a", pathsRule "second" "bin/c" "obj/c"]).ConflictBetween
        coreProject {} j s r r' ⟨.outputPath, "Core", "first", "bin/a", "second", "bin/c"⟩ := by
  let rules := [pathsRule "first" "bin/a" "obj/a", pathsRule "second" "bin/c" "obj/c"]
  have hdecl : ∀ r ∈ rules, r.Declarative := by
    intro r hr
    rcases List.mem_pair.mp hr with rfl | rfl
    · exact declarative_pathsRule _ _ _
    · exact declarative_pathsRule _ _ _
  have hconflicts : ((coreWorkspace rules).chainConfiguration coreProject {}).conflicts = [
      ⟨.outputPath, "Core", "first", "bin/a", "second", "bin/c"⟩,
      ⟨.intermediatePath, "Core", "first", "obj/a", "second", "obj/c"⟩] := by
    rw [Workspace.chainConfiguration, ← Workspace.map_ofRule_rulesFor, rulesFor_core]
    rfl
  have hcompile : (coreWorkspace rules).compileLocal true coreProject {} =
      .error (.scalarConflict "Core" ⟨.outputPath, "Core", "first", "bin/a", "second", "bin/c"⟩) := by
    unfold Workspace.compileLocal
    rw [hconflicts]
    rfl
  obtain ⟨hreport, -, -⟩ := conflict_report_exact (coreWorkspace rules) coreProject {}
  obtain ⟨report, j, s, r, r', herror, hbetween, -⟩ := (hreport (declarativeChain_core hdecl) _).mp hcompile
  cases herror
  exact ⟨hcompile, j, s, r, r', hbetween⟩

end BuildPlan
