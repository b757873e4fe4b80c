import BuildPlan.Proofs.Except
import BuildPlan.Resolution.Local
import Mathlib.Tactic.Push

/-!
# What a local configuration says of its project

Whatever the rules write, the configuration stays that of its project and target, and it lists the rules that hold for the
target (`appliedRules_chainConfiguration`). So a project has a variant for a target exactly if its chain has no rule or
one that holds for the target (`hasVariant_localConfiguration_iff`). The dependencies it has are those that one of these
rules declares, given what the rules before it have written (`declaresDependency_iff`).
-/

namespace BuildPlan

namespace Configuration

/-- Remembering the last writer of a field leaves the project, the target, the applied rules and the dependencies alone. -/
theorem recordScalar_frame (c : Configuration) (field : ScalarField) (value : String) :
    (c.recordScalar field value).project = c.project ∧ (c.recordScalar field value).target = c.target ∧
      (c.recordScalar field value).appliedRules = c.appliedRules ∧
      (c.recordScalar field value).dependencies = c.dependencies := by
  unfold recordScalar
  split
  · exact ⟨rfl, rfl, rfl, rfl⟩
  · exact ⟨rfl, rfl, rfl, rfl⟩

/-- A write changes neither whose configuration it is nor which rules were applied. -/
theorem write_frame (c : Configuration) (w : Write) :
    (c.write w).project = c.project ∧ (c.write w).target = c.target ∧ (c.write w).appliedRules = c.appliedRules := by
  have hrecord : ∀ f v, (c.recordScalar f v).project = c.project ∧ (c.recordScalar f v).target = c.target ∧
      (c.recordScalar f v).appliedRules = c.appliedRules := by
    intro f v
    obtain ⟨hp, ht, ha, -⟩ := c.recordScalar_frame f v
    exact ⟨hp, ht, ha⟩
  cases w with
  | outputKind k => exact hrecord _ _
  | outputPath p => exact hrecord _ _
  | intermediatePath p => exact hrecord _ _
  | targetFileName n => exact hrecord _ _
  | _ => exact ⟨rfl, rfl, rfl⟩

/-- Writes leave the project, the target and the labels of the applied rules. -/
theorem writeAll_frame (c : Configuration) (ws : List Write) :
    (c.writeAll ws).project = c.project ∧ (c.writeAll ws).target = c.target ∧
      (c.writeAll ws).appliedRules = c.appliedRules := by
  unfold writeAll
  induction ws generalizing c with
  | nil => exact ⟨rfl, rfl, rfl⟩
  | cons w ws ih =>
    obtain ⟨hp, ht, ha⟩ := ih (c.write w)
    obtain ⟨hp', ht', ha'⟩ := c.write_frame w
    exact ⟨hp.trans hp', ht.trans ht', ha.trans ha'⟩

/-- A rule changes neither the project nor the target, and its label is added to those of the rules before it. -/
theorem applyRule_frame (c : Configuration) (a : AppliedRule) :
    (c.applyRule a).project = c.project ∧ (c.applyRule a).target = c.target ∧
      (c.applyRule a).appliedRules = c.appliedRules ++ [a.1.label] :=
  writeAll_frame (c.beginRule a.1) (a.2 (c.beginRule a.1))

/-- Rules leave the project and the target, and each adds its label. -/
theorem applyRules_frame (c : Configuration) (rules : List AppliedRule) :
    (c.applyRules rules).project = c.project ∧ (c.applyRules rules).target = c.target ∧
      (c.applyRules rules).appliedRules = c.appliedRules ++ rules.map (fun a => a.1.label) := by
  unfold applyRules
  induction rules generalizing c with
  | nil => exact ⟨rfl, rfl, (List.append_nil _).symm⟩
  | cons a rules ih =>
    obtain ⟨hp, ht, hr⟩ := ih (c.applyRule a)
    obtain ⟨hp', ht', hr'⟩ := c.applyRule_frame a
    refine ⟨hp.trans hp', ht.trans ht', ?_⟩
    rw [List.foldl_cons, hr, hr', List.append_assoc, List.map_cons, List.singleton_append]

/-! ### Dependencies -/

/-- The dependencies that are declared so far, each with its visibility. -/
def declared (c : Configuration) : List (String × Visibility) := c.dependencies.map (fun d => (d.project, d.visibility))

/-- The names of the dependencies that are declared so far. -/
def declaredNames (c : Configuration) : List String := c.dependencies.map DeclaredDependency.project

/-- A write declares a dependency if it is one of a dependency, and leaves those declared before. -/
theorem mem_declared_write {c : Configuration} {w : Write} {b : String} {v : Visibility} :
    (b, v) ∈ (c.write w).declared ↔ (b, v) ∈ c.declared ∨ w = .dependency b v := by
  have hrecord : ∀ f x, (c.recordScalar f x).dependencies = c.dependencies := fun f x => (c.recordScalar_frame f x).2.2.2
  unfold declared
  cases w with
  | dependency p u => simp [write, eq_comm]
  | outputKind k => simp [write, hrecord]
  | outputPath p => simp [write, hrecord]
  | intermediatePath p => simp [write, hrecord]
  | targetFileName n => simp [write, hrecord]
  | _ => simp [write]

/-- Writes declare the dependencies that they write. -/
theorem mem_declared_writeAll {c : Configuration} {ws : List Write} {b : String} {v : Visibility} :
    (b, v) ∈ (c.writeAll ws).declared ↔ (b, v) ∈ c.declared ∨ Write.dependency b v ∈ ws := by
  unfold writeAll
  induction ws generalizing c with
  | nil => simp
  | cons w ws ih =>
    rw [List.foldl_cons, ih, mem_declared_write, or_assoc, List.mem_cons, eq_comm (a := w)]

/-- The dependencies that some rules declare, each given the configuration that the rules before it leave. -/
theorem mem_declared_applyRules {c : Configuration} {rules : List AppliedRule} {b : String} {v : Visibility} :
    (b, v) ∈ (c.applyRules rules).declared ↔ (b, v) ∈ c.declared ∨ ∃ before a after, rules = before ++ a :: after ∧
      Write.dependency b v ∈ a.2 ((c.applyRules before).beginRule a.1) := by
  induction rules generalizing c with
  | nil => simp [applyRules]
  | cons a rules ih =>
    have hrule : (b, v) ∈ (c.applyRule a).declared ↔
        (b, v) ∈ c.declared ∨ Write.dependency b v ∈ a.2 (c.beginRule a.1) := mem_declared_writeAll
    rw [show c.applyRules (a :: rules) = (c.applyRule a).applyRules rules from rfl, ih, hrule, or_assoc]
    refine or_congr_right ⟨?_, ?_⟩
    · rintro (hv | ⟨before, a', after, rfl, hv⟩)
      · exact ⟨[], a, rules, rfl, hv⟩
      · exact ⟨a :: before, a', after, rfl, hv⟩
    · rintro ⟨before, a', after, he, hv⟩
      cases before with
      | nil =>
        rw [List.nil_append, List.cons.injEq] at he
        obtain ⟨rfl, -⟩ := he
        exact Or.inl hv
      | cons a'' before =>
        rw [List.cons_append, List.cons.injEq] at he
        obtain ⟨rfl, rfl⟩ := he
        exact Or.inr ⟨before, a', after, rfl, hv⟩

/-- The names of the declared dependencies are those declared with some visibility. -/
theorem mem_declaredNames_iff {c : Configuration} {b : String} : b ∈ c.declaredNames ↔ ∃ v, (b, v) ∈ c.declared := by
  simp only [declaredNames, declared, List.mem_map, Prod.mk.injEq]
  constructor
  · rintro ⟨d, hd, rfl⟩
    exact ⟨d.visibility, d, hd, rfl, rfl⟩
  · rintro ⟨v, d, hd, rfl, -⟩
    exact ⟨d, hd, rfl⟩

end Configuration

namespace Workspace

variable {w : Workspace} {p : Project} {t : Target}

/-- Completing a configuration leaves the project, the target and the labels of the applied rules. -/
theorem complete_frame (w : Workspace) (p : Project) (t : Target) (c : Configuration) :
    (w.complete p t c).project = c.project ∧ (w.complete p t c).target = c.target ∧
      (w.complete p t c).appliedRules = c.appliedRules := by
  unfold complete
  cases p.kind with
  | generate => exact ⟨rfl, rfl, rfl⟩
  | exported => exact ⟨rfl, rfl, rfl⟩

/-- The configuration of a chain lists the rules that hold for the target, in the order of the chain. -/
theorem appliedRules_chainConfiguration (w : Workspace) (p : Project) (t : Target) :
    (w.chainConfiguration p t).appliedRules = (w.appliedRules p t).map (fun a => a.1.label) :=
  (Configuration.applyRules_frame _ _).2.2

/-- A local configuration is that of its project and target, with the rules that its chain has applied. -/
theorem localConfiguration_frame (w : Workspace) (p : Project) (t : Target) :
    (w.localConfiguration p t).settings.project = p.name ∧ (w.localConfiguration p t).settings.target = t ∧
      (w.localConfiguration p t).settings.appliedRules = (w.chainConfiguration p t).appliedRules := by
  obtain ⟨hp, ht, -⟩ := Configuration.applyRules_frame (Configuration.initial p.name t) (w.appliedRules p t)
  unfold localConfiguration
  dsimp only
  split
  · exact ⟨hp, ht, rfl⟩
  · obtain ⟨hp', ht', hr'⟩ := w.complete_frame p t (w.chainConfiguration p t)
    exact ⟨hp'.trans hp, ht'.trans ht, hr'⟩

/-! ### Declared dependencies -/

/-- A rule of a project's chain that holds for the target declares a dependency on a name, given the configuration that the
rules before it leave. -/
def DeclaresDependency (w : Workspace) (p : Project) (t : Target) (b : String) : Prop :=
  ∃ before a after v, w.appliedRules p t = before ++ a :: after ∧
    Write.dependency b v ∈ a.2 (((Configuration.initial p.name t).applyRules before).beginRule a.1)

/-- The configuration of a chain has the dependencies that its rules declare. -/
theorem declaresDependency_iff {b : String} :
    w.DeclaresDependency p t b ↔ ∃ d ∈ (w.chainConfiguration p t).dependencies, d.project = b := by
  rw [← List.mem_map]
  refine Iff.trans ?_ Configuration.mem_declaredNames_iff.symm
  unfold DeclaresDependency chainConfiguration
  simp only [Configuration.mem_declared_applyRules]
  constructor
  · rintro ⟨before, a, after, v, h⟩
    exact ⟨v, Or.inr ⟨before, a, after, h⟩⟩
  · rintro ⟨v, h | ⟨before, a, after, h⟩⟩
    · cases h
    · exact ⟨before, a, after, v, h⟩

/-! ### Variants -/

/-- Whether a project can be depended on for a target: it is built for the target, and its chain has either no rule at all
or a rule that holds for the target. -/
def HasVariant (w : Workspace) (p : Project) (t : Target) : Prop :=
  p.axes.contains t = true ∧
    ((∀ s ∈ w.chainOf p, s.rules = []) ∨ ∃ s ∈ w.chainOf p, ∃ r ∈ s.rules, r.appliesTo t = true)

/-- A project applies no rule exactly if no rule of its chain holds for the target. -/
theorem appliedRules_eq_nil_iff : w.appliedRules p t = [] ↔ ∀ s ∈ w.chainOf p, ∀ r ∈ s.rules, ¬r.appliesTo t = true := by
  simp [appliedRules, RuleSet.applying, List.flatMap_eq_nil_iff, List.filter_eq_nil_iff]

/-- A project has a variant if its chain has no rules at all or one of them holds for the target. -/
theorem hasVariant_localConfiguration_iff :
    (w.localConfiguration p t).hasVariant = true ↔
      (∀ s ∈ w.chainOf p, s.rules = []) ∨ ∃ s ∈ w.chainOf p, ∃ r ∈ s.rules, r.appliesTo t = true := by
  have hrules : (w.localConfiguration p t).hasRules = (w.chainOf p).any (fun s => !s.rules.isEmpty) := rfl
  have happlied : (w.localConfiguration p t).settings.appliedRules = [] ↔ w.appliedRules p t = [] := by
    rw [(w.localConfiguration_frame p t).2.2, appliedRules_chainConfiguration, List.map_eq_nil_iff]
  unfold LocalConfiguration.hasVariant
  rw [Bool.or_eq_true, hrules]
  refine or_congr (by simp) ?_
  rw [Bool.not_eq_true', List.isEmpty_eq_false_iff, ne_eq, happlied, appliedRules_eq_nil_iff]
  push Not
  rfl

/-! ### Two workspaces -/

/-- A chain gives the same in every workspace with the same context. -/
theorem chainConfiguration_congr {w' : Workspace} (hcontext : w'.context = w.context) (hchain : w'.chainOf p = w.chainOf p)
    (t : Target) : w'.chainConfiguration p t = w.chainConfiguration p t := by
  unfold chainConfiguration appliedRules
  rw [hcontext, hchain]

/-- The local configuration depends on the context and the chain of the project only. -/
theorem localConfiguration_congr {w' : Workspace} (hcontext : w'.context = w.context) (hchain : w'.chainOf p = w.chainOf p)
    (t : Target) : w'.localConfiguration p t = w.localConfiguration p t := by
  unfold localConfiguration complete
  rw [chainConfiguration_congr hcontext hchain, hcontext, hchain]

/-! ### Strict mode -/

/-- Whether the rules of a project agree on its scalar fields, as strict mode demands. -/
def Agreeing (w : Workspace) (strict : Bool) (p : Project) (t : Target) : Prop :=
  strict = true → (w.chainConfiguration p t).conflicts = []

/-- A project is compiled on its own exactly if its scalars agree, and then into its local configuration. -/
theorem compileLocal_eq_ok_iff {strict : Bool} {l : LocalConfiguration} :
    w.compileLocal strict p t = .ok l ↔ w.Agreeing strict p t ∧ l = w.localConfiguration p t := by
  unfold compileLocal Agreeing
  rw [eq_comm (a := l)]
  cases strict with
  | false => simp
  | true =>
    cases (w.chainConfiguration p t).conflicts with
    | nil => simp
    | cons conflict rest => simp

/-- A project fails on its own only over scalars in conflict. -/
theorem compileLocal_eq_error {strict : Bool} {e : BuildError} (h : w.compileLocal strict p t = .error e) :
    ∃ conflict, e = .scalarConflict p.name conflict := by
  unfold compileLocal at h
  split at h
  · rename_i conflict _ _
    cases h
    exact ⟨conflict, rfl⟩
  · cases h

end Workspace

end BuildPlan
