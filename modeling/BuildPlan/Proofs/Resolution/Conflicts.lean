import BuildPlan.Manifest.Registration
import BuildPlan.Proofs.Resolution.Local
import Mathlib.Data.List.Chain

/-!
# When rules are in conflict

A configuration remembers of each scalar field the last write alone, so a conflict is one between two writes of a field with
no write of it in between (`Recorded`, kept by every write). For rules that write the same whatever they read this comes to
two rules of the chain between which no other rule sets the field (`conflict_iff_adjacent`). Two rules that a third one
separates go unnoticed (`conflict_missed`).
-/

namespace BuildPlan

/-! ### Writes of scalar fields -/

/-- The scalar field that a write sets, with the value. -/
def Write.scalar? : Write → Option (ScalarField × String)
  | .outputKind k => some (.outputKind, k.name)
  | .outputPath p => some (.outputPath, p)
  | .intermediatePath p => some (.intermediatePath, p)
  | .targetFileName n => some (.targetFileName, n)
  | _ => none

/-- The value that a write gives to a scalar field, if it sets this field. -/
def Write.value? (f : ScalarField) (w : Write) : Option String :=
  w.scalar?.bind (fun s => if s.1 = f then some s.2 else none)

/-- Two writes of a field are in conflict: different rules of one rule set and of equal priority give different values. -/
def ScalarWrite.Disputes (x y : ScalarWrite) : Prop :=
  x.author.ruleSet = y.author.ruleSet ∧ x.author.priority = y.author.priority ∧ x.author.rule ≠ y.author.rule ∧
    x.value ≠ y.value

namespace Configuration

variable {c : Configuration} {author : Provenance}

/-- A write is recorded without a conflict exactly if it does not dispute the last one. -/
theorem conflict?_eq_none_iff {f : ScalarField} {last : Option ScalarWrite} {v : String} :
    conflict? f last author v = none ↔ ∀ x ∈ last, ¬x.Disputes ⟨author, v⟩ := by
  unfold conflict?
  cases last with
  | none => simp
  | some x => simp [ScalarWrite.Disputes]

/-- A write that sets no scalar field leaves the memory of the fields alone. -/
theorem write_of_scalar?_eq_none {w : Write} (h : w.scalar? = none) :
    (c.write w).lastWrite = c.lastWrite ∧ (c.write w).conflicts = c.conflicts := by
  cases w with
  | outputKind | outputPath | intermediatePath | targetFileName => cases h
  | _ => exact ⟨rfl, rfl⟩

/-- A write that sets a scalar field is remembered as the last one of this field. -/
theorem write_of_scalar?_eq_some {w : Write} {f : ScalarField} {v : String} (h : w.scalar? = some (f, v))
    (hc : c.current = some author) :
    (∀ g, (c.write w).lastWrite g = if g = f then some ⟨author, v⟩ else c.lastWrite g) ∧
      (c.write w).conflicts = c.conflicts ++ (conflict? f (c.lastWrite f) author v).toList := by
  have hrecord : ∀ f v,
      (∀ g, (c.recordScalar f v).lastWrite g = if g = f then some ⟨author, v⟩ else c.lastWrite g) ∧
      (c.recordScalar f v).conflicts = c.conflicts ++ (conflict? f (c.lastWrite f) author v).toList := by
    intro f v
    unfold recordScalar
    rw [hc]
    exact ⟨fun _ => rfl, rfl⟩
  cases w with
  | outputKind | outputPath | intermediatePath | targetFileName =>
    cases h
    exact hrecord _ _
  | _ => cases h

/-- A write leaves the rule that is being applied. -/
theorem current_write (c : Configuration) (w : Write) : (c.write w).current = c.current := by
  have hrecord : ∀ f v, (c.recordScalar f v).current = c.current := by
    intro f v
    unfold recordScalar
    split
    · rfl
    · rfl
  cases w with
  | outputKind | outputPath | intermediatePath | targetFileName => exact hrecord _ _
  | _ => rfl

/-! ### What is remembered -/

/-- The memory of a configuration, given all writes of each scalar field so far: it knows the last one of each, and there is
no conflict exactly if no write is in conflict with the next one of its field. -/
structure Recorded (c : Configuration) (log : ScalarField → List ScalarWrite) : Prop where
  last : ∀ f, c.lastWrite f = (log f).getLast?
  clear : c.conflicts = [] ↔ ∀ f, (log f).IsChain (fun x y => ¬x.Disputes y)

/-- At the beginning no write of a scalar is recorded. -/
theorem recorded_initial (project : String) (t : Target) : Recorded (initial project t) (fun _ => []) where
  last := fun _ => rfl
  clear := ⟨fun _ _ => List.isChain_nil, fun _ => rfl⟩

/-- When one of some chains gets a new last member, they stay chains if this one stands in relation to the last before. -/
theorem forall_isChain_concat_iff {R : ScalarWrite → ScalarWrite → Prop} {log : ScalarField → List ScalarWrite}
    {field : ScalarField} {x : ScalarWrite} :
    (∀ f, (log f ++ if f = field then [x] else []).IsChain R) ↔
      (∀ f, (log f).IsChain R) ∧ ∀ y ∈ (log field).getLast?, R y x := by
  constructor
  · intro hchain
    refine ⟨fun f => (List.isChain_append.mp (hchain f)).1, fun y hy => ?_⟩
    have hlast := (List.isChain_append.mp (hchain field)).2.2 y hy
    rw [if_pos rfl] at hlast
    exact hlast x rfl
  · rintro ⟨hchain, hpair⟩ f
    by_cases hf : f = field
    · rw [if_pos hf, List.isChain_append]
      refine ⟨hchain f, List.isChain_singleton _, fun y hy z hz => ?_⟩
      cases hz
      exact hpair y (hf ▸ hy)
    · rw [if_neg hf, List.append_nil]
      exact hchain f

namespace Recorded

variable {log : ScalarField → List ScalarWrite}

/-- A write of the rule that is being applied comes after all that was written to its field. -/
theorem write (h : Recorded c log) (hc : c.current = some author) (w : Write) :
    Recorded (c.write w) (fun f => log f ++ ((w.value? f).map (ScalarWrite.mk author)).toList) := by
  cases hw : w.scalar? with
  | none =>
    obtain ⟨hlast, hconflicts⟩ := write_of_scalar?_eq_none (c := c) hw
    have hnew : ∀ f, ((w.value? f).map (ScalarWrite.mk author)).toList = [] := by
      intro f
      rw [Write.value?, hw]
      rfl
    simp only [hnew, List.append_nil]
    exact ⟨fun f => (congrFun hlast f).trans (h.last f), hconflicts ▸ h.clear⟩
  | some s =>
    obtain ⟨field, v⟩ := s
    obtain ⟨hlast, hconflicts⟩ := write_of_scalar?_eq_some hw hc
    have hnew : ∀ f, ((w.value? f).map (ScalarWrite.mk author)).toList = if f = field then [⟨author, v⟩] else [] := by
      intro f
      rw [Write.value?, hw, Option.bind_some]
      by_cases hf : f = field
      · rw [if_pos hf.symm, if_pos hf]
        rfl
      · rw [if_neg (Ne.symm hf), if_neg hf]
        rfl
    simp only [hnew]
    refine ⟨fun f => ?_, ?_⟩
    · rw [hlast, h.last]
      by_cases hf : f = field
      · simp [hf]
      · simp [hf]
    · rw [hconflicts, List.append_eq_nil_iff, h.clear, Option.toList_eq_nil_iff, conflict?_eq_none_iff, h.last]
      exact forall_isChain_concat_iff.symm

/-- The writes of a rule are recorded as those of the rule, field by field and in order. -/
theorem writeAll (h : Recorded c log) (hc : c.current = some author) (ws : List Write) :
    Recorded (c.writeAll ws) (fun f => log f ++ (ws.filterMap (Write.value? f)).map (ScalarWrite.mk author)) := by
  unfold Configuration.writeAll
  induction ws generalizing c log with
  | nil => simpa using h
  | cons w ws ih =>
    have hw := ih (h.write hc w) ((current_write c w).trans hc)
    have hlog : ∀ f, ((w :: ws).filterMap (Write.value? f)).map (ScalarWrite.mk author) =
        ((w.value? f).map (ScalarWrite.mk author)).toList ++
          (ws.filterMap (Write.value? f)).map (ScalarWrite.mk author) := by
      intro f
      rw [List.filterMap_cons]
      cases w.value? f <;> rfl
    simp only [hlog, ← List.append_assoc]
    exact hw

/-- A rule writes after all that was written before it. -/
theorem applyRule (h : Recorded c log) (a : AppliedRule) :
    Recorded (c.applyRule a)
      (fun f => log f ++ ((a.2 (c.beginRule a.1)).filterMap (Write.value? f)).map (ScalarWrite.mk a.1)) := by
  have hbegin : Recorded (c.beginRule a.1) log := ⟨h.last, h.clear⟩
  have hwrites := hbegin.writeAll rfl (a.2 (c.beginRule a.1))
  exact ⟨hwrites.last, hwrites.clear⟩

end Recorded

/-- The writes of a field by some rules, in order. -/
def fieldWrites (f : ScalarField) (c : Configuration) : List AppliedRule → List ScalarWrite
  | [] => []
  | a :: rest =>
    ((a.2 (c.beginRule a.1)).filterMap (Write.value? f)).map (ScalarWrite.mk a.1) ++ fieldWrites f (c.applyRule a) rest

/-- Some rules leave the memory of all that they write. -/
theorem Recorded.applyRules {log : ScalarField → List ScalarWrite} (h : Recorded c log) (rules : List AppliedRule) :
    Recorded (c.applyRules rules) (fun f => log f ++ fieldWrites f c rules) := by
  unfold Configuration.applyRules
  induction rules generalizing c log with
  | nil => simpa [fieldWrites] using h
  | cons a rules ih =>
    have hrest := ih (h.applyRule a)
    simp only [List.append_assoc] at hrest
    exact hrest

end Configuration

/-! ### Declared rules -/

/-- The value that an entry gives to a scalar field, with its output kind as it is read. -/
def Manifest.RuleEntry.value? (r : Manifest.RuleEntry) (outputKind : Option OutputKind) : ScalarField → Option String
  | .outputKind => outputKind.map OutputKind.name
  | .outputPath => r.outputPath
  | .intermediatePath => r.intermediatePath
  | .targetFileName => r.targetFileName

/-- The scalar fields in the order in which a declared rule writes them. -/
def ScalarField.inOrder : List ScalarField := [outputKind, outputPath, intermediatePath, targetFileName]

/-- The rule of an entry writes its scalar fields in order. -/
theorem Manifest.RuleEntry.filterMap_scalar?_writes (r : Manifest.RuleEntry) (outputKind : Option OutputKind) :
    (r.writes outputKind).filterMap Write.scalar? =
      ScalarField.inOrder.filterMap (fun f => (r.value? outputKind f).map (fun v => (f, v))) := by
  have hoption : ∀ o : Option Write, o.toList.filterMap Write.scalar? = (o.bind Write.scalar?).toList := by
    intro o
    cases o with
    | none => rfl
    | some w => cases hw : w.scalar? <;> simp [hw]
  have hfiles : [Write.libraryFiles r.libraryFiles].filterMap Write.scalar? = [] := rfl
  have hfield : ∀ (g : ScalarField → Option (ScalarField × String)) f, [f].filterMap g = (g f).toList := by
    intro g f
    cases hg : g f <;> simp [hg]
  have hinOrder : ScalarField.inOrder = [.outputKind] ++ [.outputPath] ++ [.intermediatePath] ++ [.targetFileName] := rfl
  unfold writes
  simp only [hinOrder, List.filterMap_append, hoption, hfield, hfiles, Option.bind_map]
  simp [Function.comp_def, Write.scalar?, value?, Option.map_eq_bind, Option.bind_assoc]

/-- The rule of an entry writes a scalar field once at most. -/
theorem Manifest.RuleEntry.filterMap_value?_writes (r : Manifest.RuleEntry) (outputKind : Option OutputKind)
    (f : ScalarField) : (r.writes outputKind).filterMap (Write.value? f) = (r.value? outputKind f).toList := by
  have hvalue : (r.writes outputKind).filterMap (Write.value? f) =
      ((r.writes outputKind).filterMap Write.scalar?).filterMap (fun s => if s.1 = f then some s.2 else none) :=
    List.filterMap_filterMap.symm
  have hfield : ∀ g, (((r.value? outputKind g).map (fun v => (g, v))).bind (fun s => if s.1 = f then some s.2 else none)) =
      if g = f then r.value? outputKind f else none := by
    intro g
    by_cases hg : g = f
    · subst hg
      cases r.value? outputKind g <;> simp
    · cases r.value? outputKind g <;> simp [hg]
  rw [hvalue, filterMap_scalar?_writes, List.filterMap_filterMap]
  simp only [hfield]
  cases hv : r.value? outputKind f with
  | none => simp
  | some v => cases f <;> rfl

/-- The rule of an entry has the name, the priority and the writes of the entry, whatever the configuration. -/
theorem Manifest.RuleEntry.rule_eq_ok {entry : Manifest.RuleEntry} {r : Rule} (h : entry.rule = .ok r) :
    ∃ filter outputKind, r = ⟨entry.name, filter, entry.priority, .always (entry.writes outputKind)⟩ := by
  unfold rule at h
  obtain ⟨filter, -, h⟩ := bind_eq_ok_iff.mp h
  dsimp only at h
  split at h
  · cases h
    exact ⟨filter, none, rfl⟩
  · obtain ⟨kind, -, h⟩ := bind_eq_ok_iff.mp h
    cases h
    exact ⟨filter, kind, rfl⟩

namespace Rule

/-- A rule that is declared by an entry. -/
def Declarative (r : Rule) : Prop := ∃ entry : Manifest.RuleEntry, entry.rule = .ok r

/-- A rule gives a value to a scalar field, whatever it reads. -/
def Sets (r : Rule) (f : ScalarField) (v : String) : Prop :=
  ∀ x c, ∃ w ∈ r.writes.run x c, w.value? f = some v

/-- The first value that a rule gives to a scalar field where nothing has been written yet. -/
def value? (r : Rule) (x : RuleContext) (f : ScalarField) : Option String :=
  (r.writes.run x (Configuration.initial x.project.name x.target)).findSome? (Write.value? f)

variable {r : Rule}

/-- A declared rule writes each scalar field once at most, the same in whatever it reads. -/
theorem Declarative.filterMap_writes (h : r.Declarative) (x y : RuleContext) (c : Configuration) (f : ScalarField) :
    (r.writes.run y c).filterMap (Write.value? f) = (r.value? x f).toList := by
  obtain ⟨entry, hentry⟩ := h
  obtain ⟨filter, outputKind, rfl⟩ := Manifest.RuleEntry.rule_eq_ok hentry
  have hwrites : ∀ y c, ((Merge.always (entry.writes outputKind)).run y c).filterMap (Write.value? f) =
      (entry.value? outputKind f).toList := fun _ _ => entry.filterMap_value?_writes outputKind f
  rw [value?, ← List.head?_filterMap, hwrites, hwrites]
  cases entry.value? outputKind f <;> rfl

/-- A declarative rule sets a field to the one value that it has for it. -/
theorem Declarative.sets_iff (h : r.Declarative) (x : RuleContext) {f : ScalarField} {v : String} :
    r.Sets f v ↔ r.value? x f = some v := by
  have hmem : ∀ y c, (∃ w ∈ r.writes.run y c, w.value? f = some v) ↔ r.value? x f = some v := by
    intro y c
    rw [← List.mem_filterMap, h.filterMap_writes x, Option.mem_toList]
  exact ⟨fun hs => (hmem x (Configuration.initial x.project.name x.target)).mp (hs _ _), fun hv y c => (hmem y c).mpr hv⟩

end Rule

/-! ### The rules of a chain -/

/-- Where what a list is mapped to is not a chain, two items stand in relation that no mapped item separates. -/
theorem not_isChain_filterMap_iff {α β : Type} {R : β → β → Prop} {g : α → Option β} {l : List α} :
    ¬(l.filterMap g).IsChain (fun x y => ¬R x y) ↔
      ∃ before a between b after x y, l = before ++ a :: (between ++ b :: after) ∧ g a = some x ∧ g b = some y ∧ R x y ∧
        ∀ m ∈ between, g m = none := by
  rw [List.isChain_iff_forall_rel_of_append_cons_cons]
  push Not
  constructor
  · rintro ⟨x, y, l₁, l₂, heq, hR⟩
    obtain ⟨before, rest, rfl, -, hrest⟩ := List.filterMap_eq_append_iff.mp heq
    obtain ⟨more, a, rest, rfl, -, ha, hrest⟩ := List.filterMap_eq_cons_iff.mp hrest
    obtain ⟨between, b, after, rfl, hnone, hb, -⟩ := List.filterMap_eq_cons_iff.mp hrest
    exact ⟨before ++ more, a, between, b, after, x, y, (List.append_assoc _ _ _).symm, ha, hb, hR, hnone⟩
  · rintro ⟨before, a, between, b, after, x, y, rfl, ha, hb, hR, hnone⟩
    refine ⟨x, y, before.filterMap g, after.filterMap g, ?_, hR⟩
    rw [List.filterMap_append, List.filterMap_cons_some ha, List.filterMap_append, List.filterMap_cons_some hb,
      List.filterMap_eq_nil_iff.mpr hnone, List.nil_append]

/-- A rule of a set as it is applied. -/
def AppliedRule.ofRule (x : RuleContext) (e : RuleSet × Rule) : AppliedRule :=
  (⟨e.1.id, e.2.name, e.2.priority⟩, e.2.writes.run x)

namespace Workspace

variable {w : Workspace} {p : Project} {t : Target}

/-- The rules of a project's chain that hold for a target, in the order in which they are applied, each with its set. -/
def rulesFor (w : Workspace) (p : Project) (t : Target) : List (RuleSet × Rule) :=
  (w.chainOf p).flatMap fun s => (s.applying t).map fun r => (s, r)

/-- The rules of the chain that hold for a target are those the project applies. -/
theorem map_ofRule_rulesFor : (w.rulesFor p t).map (AppliedRule.ofRule ⟨w.context, p, t⟩) = w.appliedRules p t := by
  rw [rulesFor, List.map_flatMap, appliedRules]
  refine List.flatMap_congr (fun s _ => ?_)
  rw [List.map_map]
  rfl

/-- Every rule of a project's chain is declared by an entry. -/
def DeclarativeChain (w : Workspace) (p : Project) : Prop := ∀ s ∈ w.chainOf p, ∀ r ∈ s.rules, r.Declarative

/-- In a declarative chain every rule that holds for a target is declarative. -/
theorem DeclarativeChain.of_mem_rulesFor (h : w.DeclarativeChain p) {e : RuleSet × Rule} (he : e ∈ w.rulesFor p t) :
    e.2.Declarative := by
  obtain ⟨s, hs, he⟩ := List.mem_flatMap.mp he
  obtain ⟨r, hr, rfl⟩ := List.mem_map.mp he
  exact h s hs r (List.mem_filter.mp hr).1

/-- Declared rules leave one write of a field for each of them that sets it. -/
theorem fieldWrites_map_ofRule (x : RuleContext) (f : ScalarField) (c : Configuration) {rules : List (RuleSet × Rule)}
    (h : ∀ e ∈ rules, e.2.Declarative) :
    Configuration.fieldWrites f c (rules.map (AppliedRule.ofRule x)) =
      rules.filterMap (fun e => (e.2.value? x f).map (ScalarWrite.mk (AppliedRule.ofRule x e).1)) := by
  induction rules generalizing c with
  | nil => rfl
  | cons e rules ih =>
    have hrest := ih (c.applyRule (AppliedRule.ofRule x e)) (fun e' he' => h e' (List.mem_cons_of_mem _ he'))
    have hfirst : ((AppliedRule.ofRule x e).2 (c.beginRule (AppliedRule.ofRule x e).1)).filterMap (Write.value? f) =
        (e.2.value? x f).toList := (h e List.mem_cons_self).filterMap_writes x x _ f
    rw [List.map_cons, Configuration.fieldWrites, hrest, hfirst, List.filterMap_cons]
    cases e.2.value? x f <;> rfl

/-- In strict mode the first conflict is the error. -/
theorem exists_scalarConflict_iff :
    (∃ conflict, w.compileLocal true p t = .error (.scalarConflict p.name conflict)) ↔
      (w.chainConfiguration p t).conflicts ≠ [] := by
  unfold compileLocal
  cases (w.chainConfiguration p t).conflicts with
  | nil => simp
  | cons conflict rest => simp

end Workspace

/-- In strict mode, a project of which all rules are declared has a conflict on a target exactly if two rules of one rule
set, with different names and of equal priority, give different values to a scalar field and no rule that is applied in
between gives one to it. -/
theorem conflict_iff_adjacent (w : Workspace) (p : Project) (t : Target) (h : w.DeclarativeChain p) :
    (∃ conflict, w.compileLocal true p t = .error (.scalarConflict p.name conflict)) ↔
      ∃ f before s r between s' r' after v v', w.rulesFor p t = before ++ (s, r) :: (between ++ (s', r') :: after) ∧
        (s.id = s'.id ∧ r.priority = r'.priority ∧ r.name ≠ r'.name) ∧ r.Sets f v ∧ r'.Sets f v' ∧ v ≠ v' ∧
        ∀ e ∈ between, ∀ u, ¬e.2.Sets f u := by
  let x : RuleContext := ⟨w.context, p, t⟩
  have hrecord := (Configuration.recorded_initial p.name t).applyRules (w.appliedRules p t)
  have hsets : ∀ e ∈ w.rulesFor p t, ∀ f v, e.2.Sets f v ↔ e.2.value? x f = some v :=
    fun e he f v => (h.of_mem_rulesFor he).sets_iff x
  rw [Workspace.exists_scalarConflict_iff, Workspace.chainConfiguration, Ne, hrecord.clear]
  push Not
  refine exists_congr (fun f => ?_)
  rw [List.nil_append, ← Workspace.map_ofRule_rulesFor,
    Workspace.fieldWrites_map_ofRule x f _ (fun e he => h.of_mem_rulesFor he), not_isChain_filterMap_iff]
  constructor
  · rintro ⟨before, ⟨s, r⟩, between, ⟨s', r'⟩, after, _, _, heq, ha, hb, hR, hnone⟩
    obtain ⟨v, hv, rfl⟩ := Option.map_eq_some_iff.mp ha
    obtain ⟨v', hv', rfl⟩ := Option.map_eq_some_iff.mp hb
    obtain ⟨hset, hpriority, hname, hvalue⟩ := hR
    refine ⟨before, s, r, between, s', r', after, v, v', heq, ⟨hset, hpriority, hname⟩,
      (hsets (s, r) (by simp [heq]) f v).mpr hv, (hsets (s', r') (by simp [heq]) f v').mpr hv', hvalue, fun e he u hu => ?_⟩
    have hnone := hnone e he
    rw [(hsets e (by simp [heq, he]) f u).mp hu] at hnone
    cases hnone
  · rintro ⟨before, s, r, between, s', r', after, v, v', heq, ⟨hset, hpriority, hname⟩, hv, hv', hvalue, hnone⟩
    refine ⟨before, (s, r), between, (s', r'), after, _, _, heq, Option.map_eq_some_iff.mpr ⟨v, ?_, rfl⟩,
      Option.map_eq_some_iff.mpr ⟨v', ?_, rfl⟩, ⟨hset, hpriority, hname, hvalue⟩, fun e he => ?_⟩
    · exact (hsets (s, r) (by simp [heq]) f v).mp hv
    · exact (hsets (s', r') (by simp [heq]) f v').mp hv'
    · rw [Option.map_eq_none_iff, Option.eq_none_iff_forall_ne_some]
      exact fun u hu => hnone e he u ((hsets e (by simp [heq, he]) f u).mpr hu)

/-! ### A conflict that goes unnoticed -/

namespace Workspace

/-- Two rules of one rule set of the chain that hold for a target and have equal priority give different values to a scalar
field. -/
def Disputed (w : Workspace) (p : Project) (t : Target) : Prop :=
  ∃ s ∈ w.chainOf p, ∃ r ∈ s.applying t, ∃ r' ∈ s.applying t, r.priority = r'.priority ∧
    ∃ f v v', r.Sets f v ∧ r'.Sets f v' ∧ v ≠ v'

end Workspace

/-- A project with a rule set of its own. -/
def coreProject : Project where
  name := "Core"
  sourceRoot := "Core"
  ruleSet := some "Core"

/-- A rule that is declared to set the output path. -/
def outputRule (name : String) (priority : Int) (path : String) : Rule where
  name
  priority
  writes := .always (Manifest.RuleEntry.writes { name, priority, outputPath := some path } none)

/-- The declarations of one project with some rules. -/
def coreDeclarations (rules : List Rule) : Declarations where
  projects := Catalog.ofList [coreProject]
  ruleSets := Catalog.ofList [{ id := "Core", rules }]

/-- The workspace of one project with some rules. -/
def coreWorkspace (rules : List Rule) : Workspace where
  projects := Catalog.ofList [coreProject]
  rules := ⟨Catalog.ofList [{ id := "Core", rules }]⟩

/-- The rule of the sample is declarative. -/
theorem declarative_outputRule (name : String) (priority : Int) (path : String) :
    (outputRule name priority path).Declarative := ⟨{ name, priority, outputPath := some path }, rfl⟩

/-- The rule of the sample sets the output path. -/
theorem sets_outputRule (name : String) (priority : Int) (path : String) :
    (outputRule name priority path).Sets .outputPath path :=
  fun _ _ => ⟨.outputPath path, by simp [outputRule, Merge.always, Manifest.RuleEntry.writes], rfl⟩

/-- The walk over the bases of the one rule set of the sample ends at once. -/
theorem walk_core (rules : List Rule) :
    RuleSet.walk (Catalog.ofList [{ id := "Core", rules : RuleSet }]) [] "Core" = .ok ["Core"] := by
  rw [RuleSet.walk]
  rfl

/-- The sample finishes, whatever its rules. -/
theorem finish_coreDeclarations (rules : List Rule) : (coreDeclarations rules).finish = .ok (coreWorkspace rules) := by
  have hchains : RuleRegistry.ofSets (coreDeclarations rules).ruleSets = .ok (coreWorkspace rules).rules :=
    bind_eq_ok_iff.mpr ⟨(), bind_eq_ok_iff.mpr ⟨_, walk_core rules, rfl⟩, rfl⟩
  refine bind_eq_ok_iff.mpr ⟨(), rfl, bind_eq_ok_iff.mpr ⟨_, hchains, ?_⟩⟩
  exact bind_eq_ok_iff.mpr ⟨(), rfl, bind_eq_ok_iff.mpr ⟨(), rfl, rfl⟩⟩

/-- The chain of the sample has its one rule set. -/
theorem chainOf_core (rules : List Rule) : (coreWorkspace rules).chainOf coreProject = [{ id := "Core", rules }] := by
  have hchain : (coreWorkspace rules).chainOf coreProject = (coreWorkspace rules).rules.chain "Core" := rfl
  rw [hchain, RuleRegistry.chain, coreWorkspace, walk_core]
  rfl

/-- The rules of the sample that hold for a target are picked from its one rule set. -/
theorem rulesFor_core (rules : List Rule) (t : Target) :
    (coreWorkspace rules).rulesFor coreProject t =
      (rules.filter (fun r => r.appliesTo t)).map (fun r => ({ id := "Core", rules }, r)) := by
  rw [Workspace.rulesFor, chainOf_core, List.flatMap_singleton]
  rfl

/-- The chain of the sample is declarative if its rules are. -/
theorem declarativeChain_core {rules : List Rule} (h : ∀ r ∈ rules, r.Declarative) :
    (coreWorkspace rules).DeclarativeChain coreProject := by
  intro s hs r hr
  rw [chainOf_core, List.mem_singleton] at hs
  subst hs
  exact h r hr

/-- Two rules that follow each other are found to be in conflict. -/
theorem conflict_iff_adjacent_core :
    ∃ conflict, (coreWorkspace [outputRule "first" 0 "bin/a", outputRule "second" 0 "bin/c"]).compileLocal true
      coreProject {} = .error (.scalarConflict "Core" conflict) := by
  have hdecl : ∀ r ∈ [outputRule "first" 0 "bin/a", outputRule "second" 0 "bin/c"], r.Declarative := by
    intro r hr
    rcases List.mem_pair.mp hr with rfl | rfl
    · exact declarative_outputRule _ _ _
    · exact declarative_outputRule _ _ _
  refine (conflict_iff_adjacent _ coreProject {} (declarativeChain_core hdecl)).mpr ?_
  rw [rulesFor_core]
  exact ⟨.outputPath, [], _, outputRule "first" 0 "bin/a", [], _, outputRule "second" 0 "bin/c", [], "bin/a", "bin/c", rfl,
    ⟨rfl, rfl, by simp [outputRule]⟩, sets_outputRule _ _ _, sets_outputRule _ _ _, by decide,
    fun e he => absurd he List.not_mem_nil⟩

/-- A rule of another priority in between hides the conflict of two rules of one rule set: strict mode accepts the chain. -/
theorem conflict_missed :
    ¬∀ (d : Declarations) (w : Workspace), d.finish = .ok w → ∀ p ∈ w.projects.items, ∀ t,
      w.DeclarativeChain p → w.Disputed p t →
        ∃ conflict, w.compileLocal true p t = .error (.scalarConflict p.name conflict) := by
  intro hclaim
  let rules := [outputRule "first" 0 "bin/a", outputRule "loud" 10 "bin/b", outputRule "second" 0 "bin/c"]
  have hdecl : ∀ r ∈ rules, r.Declarative := by
    intro r hr
    simp only [rules, List.mem_cons, List.not_mem_nil, or_false] at hr
    rcases hr with rfl | rfl | rfl
    · exact declarative_outputRule _ _ _
    · exact declarative_outputRule _ _ _
    · exact declarative_outputRule _ _ _
  have hdisputed : (coreWorkspace rules).Disputed coreProject {} := by
    have hfirst : outputRule "first" 0 "bin/a" ∈ RuleSet.applying { id := "Core", rules } {} :=
      List.mem_filter.mpr ⟨by simp [rules], rfl⟩
    have hsecond : outputRule "second" 0 "bin/c" ∈ RuleSet.applying { id := "Core", rules } {} :=
      List.mem_filter.mpr ⟨by simp [rules], rfl⟩
    refine ⟨{ id := "Core", rules }, by simp [chainOf_core], _, hfirst, _, hsecond, rfl, ?_⟩
    exact ⟨.outputPath, _, _, sets_outputRule _ _ _, sets_outputRule _ _ _, by decide⟩
  obtain ⟨conflict, h⟩ := hclaim _ _ (finish_coreDeclarations rules) coreProject List.mem_cons_self {}
    (declarativeChain_core hdecl) hdisputed
  have hnone : ((coreWorkspace rules).chainConfiguration coreProject {}).conflicts = [] := by
    rw [Workspace.chainConfiguration, ← Workspace.map_ofRule_rulesFor, rulesFor_core]
    rfl
  exact Workspace.exists_scalarConflict_iff.mp ⟨conflict, h⟩ hnone

end BuildPlan
