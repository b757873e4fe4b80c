import BuildPlan.Proofs.Resolution.Merging
import BuildPlan.Proofs.Workspace

/-!
# What a chain of declared rules means

The settings that a project has on a target, read off the entries that declare its rules (`Workspace.ChainMeaning`): the
lists are put one after the other, a define, a property or a scalar field takes its last value, and tokens are replaced at
the end. Compiling the chain, which goes through all rules and all that each of them writes, comes to the same
(`settings_of_chain`).
-/

namespace BuildPlan

/-! ### What an entry writes -/

/-- Nothing for each of a list is nothing. -/
theorem flatMap_nothing {α β : Type} (l : List α) : l.flatMap (fun _ => ([] : List β)) = [] :=
  List.flatMap_eq_nil_iff.mpr (fun _ _ => rfl)

namespace Manifest.RuleEntry

/-- The output kind of an entry, if it has one that can be read. -/
def kind? (r : RuleEntry) : Option OutputKind := r.outputKind.bind (fun k => (AxisNames.readOutputKind k).toOption)

/-- The values that an entry gives to a list field. -/
def values (r : RuleEntry) : ListField → List String
  | .includePaths => r.includePaths
  | .privateIncludePaths => r.privateIncludePaths
  | .libraryPaths => r.libraryPaths
  | .libraryFiles => r.libraryFiles
  | .compilerOptions => r.compilerOptions

/-- The defines that an entry gives to a field. -/
def definesOf (r : RuleEntry) : DefineField → List (String × Option String)
  | .defines => r.defines.map parseDefine
  | .exportDefines => r.exportDefines.map parseDefine

/-- The dependencies of an entry, the public ones first, in the name of a rule. -/
def dependencies (r : RuleEntry) (label : String) : List DeclaredDependency :=
  r.publicDependencies.map (fun p => ⟨p, .pub, label⟩) ++ r.privateDependencies.map (fun p => ⟨p, .priv, label⟩)

variable {r : RuleEntry} {kind : Option OutputKind}

/-- A declared rule has the name and the priority of its entry and writes what the entry says, whatever it reads. -/
theorem of_rule_eq_ok {rule : Rule} (h : r.rule = .ok rule) :
    rule.name = r.name ∧ rule.priority = r.priority ∧ rule.writes = .always (r.writes r.kind?) := by
  unfold RuleEntry.rule at h
  obtain ⟨filter, -, h⟩ := bind_eq_ok_iff.mp h
  dsimp only at h
  split at h
  · rename_i hkind
    cases h
    exact ⟨rfl, rfl, by simp [kind?, hkind]⟩
  · rename_i name hkind
    obtain ⟨kind, hread, h⟩ := bind_eq_ok_iff.mp h
    have hkind' : r.kind? = kind := by
      rw [kind?, hkind, Option.bind_some]
      cases hr : AxisNames.readOutputKind name with
      | error e =>
        rw [hr] at hread
        cases hread
      | ok k =>
        rw [hr] at hread
        cases hread
        rfl
    cases h
    exact ⟨rfl, rfl, by rw [hkind']⟩

/-- What the writes of an entry come to is what each part of the entry comes to. -/
theorem flatMap_writes {β : Type} (g : Write → List β) :
    (r.writes kind).flatMap g =
      r.includePaths.flatMap (fun p => g (.includePath p)) ++
        r.privateIncludePaths.flatMap (fun p => g (.privateIncludePath p)) ++
        r.defines.flatMap (fun d => g (.define d)) ++ r.exportDefines.flatMap (fun d => g (.exportDefine d)) ++
        r.libraryPaths.flatMap (fun p => g (.libraryPath p)) ++ g (.libraryFiles r.libraryFiles) ++
        r.compilerOptions.flatMap (fun o => g (.compilerOption o)) ++
        r.properties.items.flatMap (fun e => g (.property e.1 e.2)) ++
        kind.toList.flatMap (fun k => g (.outputKind k)) ++ r.outputPath.toList.flatMap (fun p => g (.outputPath p)) ++
        r.intermediatePath.toList.flatMap (fun p => g (.intermediatePath p)) ++
        r.targetFileName.toList.flatMap (fun n => g (.targetFileName n)) ++
        r.publicDependencies.flatMap (fun p => g (.dependency p .pub)) ++
        r.privateDependencies.flatMap (fun p => g (.dependency p .priv)) := by
  simp only [writes, List.flatMap_append, List.flatMap_map, Option.toList_map, List.flatMap_singleton]

/-- The writes of a declared rule have the values that the rule gives to a list field, in order. -/
theorem flatMap_values_writes (f : ListField) : (r.writes kind).flatMap (Write.values f) = r.values f := by
  rw [flatMap_writes]
  cases f <;> simp [Write.values, values, flatMap_nothing]

/-- The writes of a declared rule have the symbols that the rule gives to a define field, in order. -/
theorem flatMap_definesOf_writes (f : DefineField) : (r.writes kind).flatMap (Write.definesOf f) = r.definesOf f := by
  rw [flatMap_writes]
  cases f <;> simp [Write.definesOf, definesOf, flatMap_nothing, ← List.map_eq_flatMap]

/-- The writes of a declared rule have its properties, in order. -/
theorem flatMap_properties_writes : (r.writes kind).flatMap Write.properties = r.properties.items := by
  rw [flatMap_writes]
  simp [Write.properties, flatMap_nothing]

/-- The writes of a declared rule have its dependencies, in order. -/
theorem flatMap_dependencies_writes (label : String) :
    (r.writes kind).flatMap (Write.dependencies label) = r.dependencies label := by
  rw [flatMap_writes]
  simp [Write.dependencies, dependencies, flatMap_nothing, ← List.map_eq_flatMap]

end Manifest.RuleEntry

/-! ### The entries of a chain -/

/-- The label of the rule that an entry declares in a rule set. -/
def RuleSet.labelOf (s : RuleSet) (r : Manifest.RuleEntry) : String := s.id ++ "/" ++ r.name

/-- The rule of an entry as it is applied. -/
def AppliedRule.ofEntry (a : RuleSet × Manifest.RuleEntry) : AppliedRule :=
  (⟨a.1.id, a.2.name, a.2.priority⟩, fun _ => a.2.writes a.2.kind?)

/-- Declared rules log the writes of their entries. -/
theorem Configuration.ruleLog_map_ofEntry (c : Configuration) (entries : List (RuleSet × Manifest.RuleEntry)) :
    c.ruleLog (entries.map AppliedRule.ofEntry) =
      entries.flatMap fun a => (a.2.writes a.2.kind?).map fun w => (a.1.labelOf a.2, w) := by
  induction entries generalizing c with
  | nil => rfl
  | cons a entries ih =>
    rw [List.map_cons, ruleLog, ih, List.flatMap_cons]
    rfl

namespace Workspace

variable {w : Workspace} {p : Project} {t : Target} {entries : List (RuleSet × Manifest.RuleEntry)}

/-- The entries that declare the rules of a project's chain that hold for a target, in the order in which these are applied,
each with its rule set. -/
def DeclaredBy (w : Workspace) (p : Project) (t : Target) (entries : List (RuleSet × Manifest.RuleEntry)) : Prop :=
  List.Forall₂ (fun e a => a.1 = e.1 ∧ a.2.rule = .ok e.2) (w.rulesFor p t) entries

/-- The rules of a chain of declared rules have entries. -/
theorem DeclarativeChain.exists_declaredBy (h : w.DeclarativeChain p) (t : Target) : ∃ entries, w.DeclaredBy p t entries := by
  refine exists_forall₂ (fun e he => ?_)
  obtain ⟨entry, hentry⟩ := h.of_mem_rulesFor he
  exact ⟨(e.1, entry), rfl, hentry⟩

/-- The rules that a project applies are those of the entries that declare it. -/
theorem DeclaredBy.appliedRules_eq (h : w.DeclaredBy p t entries) :
    w.appliedRules p t = entries.map AppliedRule.ofEntry := by
  rw [← map_ofRule_rulesFor, ← List.forall₂_eq_eq_eq, List.forall₂_map_left_iff, List.forall₂_map_right_iff]
  refine List.Forall₂.imp ?_ h
  rintro ⟨s, rule⟩ ⟨s', entry⟩ ⟨hset, hentry⟩
  obtain ⟨hname, hpriority, hwrites⟩ := Manifest.RuleEntry.of_rule_eq_ok hentry
  dsimp only at hset hname hpriority hwrites
  unfold AppliedRule.ofRule AppliedRule.ofEntry
  dsimp only
  rw [hset, hname, hpriority, hwrites]
  rfl

/-- The configuration of a chain holds the writes of its entries. -/
theorem DeclaredBy.holds (h : w.DeclaredBy p t entries) :
    (w.chainConfiguration p t).Holds
      (entries.flatMap fun a => (a.2.writes a.2.kind?).map fun w => (a.1.labelOf a.2, w)) := by
  have hrun := (Configuration.holds_initial p.name t).applyRules (w.appliedRules p t)
  rw [List.nil_append, h.appliedRules_eq, Configuration.ruleLog_map_ofEntry, ← h.appliedRules_eq] at hrun
  exact hrun

namespace DeclaredBy

/-- A list field has the distinct values of all entries, in order. -/
theorem values_chainConfiguration (h : w.DeclaredBy p t entries) (f : ListField) :
    (w.chainConfiguration p t).values f = distinct (entries.flatMap fun a => a.2.values f) := by
  rw [h.holds.values, List.flatMap_assoc]
  simp only [List.flatMap_map, Manifest.RuleEntry.flatMap_values_writes]

/-- A define field records the symbols of all entries, in order. -/
theorem definesOf_chainConfiguration (h : w.DeclaredBy p t entries) (f : DefineField) :
    ((w.chainConfiguration p t).definesOf f).Records (entries.flatMap fun a => a.2.definesOf f) := by
  have hrecords := h.holds.definesOf f
  rw [List.flatMap_assoc] at hrecords
  simpa only [List.flatMap_map, Manifest.RuleEntry.flatMap_definesOf_writes] using hrecords

/-- The properties record those of all entries, in order. -/
theorem properties_chainConfiguration (h : w.DeclaredBy p t entries) :
    (w.chainConfiguration p t).properties.Records (entries.flatMap fun a => a.2.properties.items) := by
  have hrecords := h.holds.properties
  rw [List.flatMap_assoc] at hrecords
  simpa only [List.flatMap_map, Manifest.RuleEntry.flatMap_properties_writes] using hrecords

/-- The dependencies are those of all entries, in order and with the label of the entry. -/
theorem dependencies_chainConfiguration (h : w.DeclaredBy p t entries) :
    (w.chainConfiguration p t).dependencies = entries.flatMap fun a => a.2.dependencies (a.1.labelOf a.2) := by
  rw [h.holds.dependencies, List.flatMap_assoc]
  simp only [List.flatMap_map, Manifest.RuleEntry.flatMap_dependencies_writes]

/-- A scalar field has the value of the last entry that gives one, and before that the value it has at the start. -/
theorem scalar_chainConfiguration (h : w.DeclaredBy p t entries) (f : ScalarField) :
    (w.chainConfiguration p t).scalar f =
      ((entries.filterMap fun a => a.2.value? a.2.kind? f).getLast?).or ((Configuration.initial p.name t).scalar f) := by
  obtain ⟨hproject, htarget, -⟩ := Configuration.applyRules_frame (Configuration.initial p.name t) (w.appliedRules p t)
  have hwrites : ∀ a : RuleSet × Manifest.RuleEntry,
      (((a.2.writes a.2.kind?).map fun w => (a.1.labelOf a.2, w)).filterMap fun e => e.2.value? f) =
        (a.2.value? a.2.kind? f).toList := by
    intro a
    rw [List.filterMap_map]
    exact a.2.filterMap_value?_writes a.2.kind? f
  rw [h.holds.scalar, List.filterMap_flatMap]
  simp only [hwrites, List.filterMap_eq_flatMap_toList]
  unfold chainConfiguration
  rw [hproject, htarget]
  rfl

/-- The labels of the rules that were applied are those of all entries, in order. -/
theorem appliedRules_chainConfiguration (h : w.DeclaredBy p t entries) :
    (w.chainConfiguration p t).appliedRules = entries.map fun a => a.1.labelOf a.2 := by
  rw [Workspace.appliedRules_chainConfiguration, h.appliedRules_eq, List.map_map]
  rfl

end DeclaredBy

/-! ### The tokens and the paths -/

/-- The text with the tokens of a project on a target replaced. -/
def expansion (w : Workspace) (p : Project) (t : Target) : String → String := (TokenValues.ofProject w.context p t).expand

/-- The values of a list field have their tokens replaced, compiler options apart. What this makes equal is one value. -/
theorem values_complete {c : Configuration} {f : ListField} {l : List String} (h : c.values f = distinct l) :
    (w.complete p t c).values f =
      distinct (l.map (if f = .compilerOptions then id else w.expansion p t)) := by
  have hmap : (w.complete p t c).values f = (c.mapStrings (w.expansion p t)).values f := by
    unfold complete
    cases p.kind <;> cases f <;> rfl
  rw [hmap]
  exact Configuration.values_mapStrings _ h

/-- The symbol of the build configuration has no value. -/
theorem parseDefine_configurationSymbol (t : Target) : parseDefine (configurationSymbol t) = (configurationSymbol t, none) := by
  have hnames : ∀ (o : Optimization) (m : LaunchMode),
      parseDefine (configurationSymbol { optimization := o, launchMode := m }) =
        (configurationSymbol { optimization := o, launchMode := m }, none) := by
    intro o m
    cases o <;> cases m <;> rfl
  exact hnames t.optimization t.launchMode

/-- Defines have the tokens in their values replaced, and the symbol of the build configuration is set after that. -/
theorem defines_complete (c : Configuration) :
    (w.complete p t c).defines =
        (c.defines.mapValues (Option.map (w.expansion p t))).set (configurationSymbol t) none ∧
      (w.complete p t c).exportDefines = c.exportDefines.mapValues (Option.map (w.expansion p t)) := by
  rw [Keyed.set, ← parseDefine_configurationSymbol]
  unfold complete
  cases p.kind with
  | generate => exact ⟨rfl, rfl⟩
  | exported => exact ⟨rfl, rfl⟩

/-- What is no list, no define and no path is left, apart from its tokens. -/
theorem complete_frame_settings (c : Configuration) :
    (w.complete p t c).properties = c.properties.mapValues (w.expansion p t) ∧
      (w.complete p t c).outputKind = c.outputKind ∧
      (w.complete p t c).targetFileName = c.targetFileName.map (w.expansion p t) ∧
      (w.complete p t c).dependencies = c.dependencies := by
  unfold complete
  cases p.kind with
  | generate => exact ⟨rfl, rfl, rfl, rfl⟩
  | exported => exact ⟨rfl, rfl, rfl, rfl⟩

/-! ### The meaning of a chain -/

/-- The value that the last of some entries gives, if one of them gives a value. -/
def lastValue {β : Type} (value : Manifest.RuleEntry → Option β) (entries : List (RuleSet × Manifest.RuleEntry)) : Option β :=
  (entries.filterMap fun a => value a.2).getLast?

/-- A path of a project: the one the entries give, or the default if they give none. A project without entries has no path,
and a project that is not compiled has none either. -/
def settledPath (p : Project) (entries : List (RuleSet × Manifest.RuleEntry)) (given : Option String) (default : String) :
    Option String :=
  match p.kind with
  | .generate => if entries.isEmpty then none else some (given.getD default)
  | .exported => none

/-- The paths of a completed configuration are settled by what was given, with a default from the roots of the workspace and the
name of the configuration. -/
theorem paths_complete (c : Configuration) (h : entries ≠ []) :
    (w.complete p t c).outputPath =
        settledPath p entries (c.outputPath.map (w.expansion p t)) (w.context.outputRoot ++ "/" ++ t.configurationName) ∧
      (w.complete p t c).intermediatePath =
        settledPath p entries (c.intermediatePath.map (w.expansion p t))
          (w.context.intermediateRoot ++ "/" ++ t.configurationName ++ "/" ++ p.name) := by
  unfold complete settledPath
  rw [List.isEmpty_eq_false_iff.mpr h]
  cases p.kind with
  | generate => exact ⟨rfl, rfl⟩
  | exported => exact ⟨rfl, rfl⟩

/-- The settings of a project on a target, read off the entries of its chain that hold for the target. -/
structure ChainMeaning (w : Workspace) (p : Project) (t : Target) (entries : List (RuleSet × Manifest.RuleEntry))
    (c : Configuration) : Prop where
  appliedRules : c.appliedRules = entries.map fun a => a.1.labelOf a.2
  includePaths : c.includePaths = ((entries.flatMap fun a => a.2.includePaths).map (w.expansion p t)).eraseDups
  privateIncludePaths :
    c.privateIncludePaths = ((entries.flatMap fun a => a.2.privateIncludePaths).map (w.expansion p t)).eraseDups
  libraryPaths : c.libraryPaths = ((entries.flatMap fun a => a.2.libraryPaths).map (w.expansion p t)).eraseDups
  libraryFiles : c.libraryFiles = ((entries.flatMap fun a => a.2.libraryFiles).map (w.expansion p t)).eraseDups
  compilerOptions : c.compilerOptions = (entries.flatMap fun a => a.2.compilerOptions).eraseDups
  defines : c.defines.Records
    (((entries.flatMap fun a => a.2.defines.map parseDefine).map fun d => (d.1, d.2.map (w.expansion p t))) ++
      if entries.isEmpty then [] else [(configurationSymbol t, none)])
  exportDefines : c.exportDefines.Records
    ((entries.flatMap fun a => a.2.exportDefines.map parseDefine).map fun d => (d.1, d.2.map (w.expansion p t)))
  properties : c.properties.Records
    ((entries.flatMap fun a => a.2.properties.items).map fun e => (e.1, w.expansion p t e.2))
  outputKind : c.outputKind = (lastValue Manifest.RuleEntry.kind? entries).getD t.outputKind
  outputPath : c.outputPath =
    settledPath p entries ((lastValue Manifest.RuleEntry.outputPath entries).map (w.expansion p t))
      (w.context.outputRoot ++ "/" ++ t.configurationName)
  intermediatePath : c.intermediatePath =
    settledPath p entries ((lastValue Manifest.RuleEntry.intermediatePath entries).map (w.expansion p t))
      (w.context.intermediateRoot ++ "/" ++ t.configurationName ++ "/" ++ p.name)
  targetFileName : c.targetFileName = (lastValue Manifest.RuleEntry.targetFileName entries).map (w.expansion p t)
  dependencies : c.dependencies = entries.flatMap fun a =>
    a.2.publicDependencies.map (fun n => ⟨n, .pub, a.1.labelOf a.2⟩) ++
      a.2.privateDependencies.map (fun n => ⟨n, .priv, a.1.labelOf a.2⟩)
  /-- The symbol of the build configuration is defined without a value where an entry holds for the target. -/
  symbol : entries ≠ [] → c.defines.lookup (configurationSymbol t) = some none

namespace DeclaredBy

/-- The kind of output is the last one that an entry gives, or that of the target. -/
theorem outputKind_chainConfiguration (h : w.DeclaredBy p t entries) :
    (w.chainConfiguration p t).outputKind = (lastValue Manifest.RuleEntry.kind? entries).getD t.outputKind := by
  have hscalar := h.scalar_chainConfiguration .outputKind
  have hlast : (entries.filterMap fun a => a.2.value? a.2.kind? .outputKind).getLast? =
      (lastValue Manifest.RuleEntry.kind? entries).map OutputKind.name := by
    rw [lastValue, ← List.getLast?_map, List.map_filterMap]
    rfl
  rw [hlast] at hscalar
  exact Configuration.outputKind_of_scalar hscalar

/-- Without entries nothing is set. -/
theorem meaning_nil (h : w.DeclaredBy p t []) : w.ChainMeaning p t [] (w.localConfiguration p t).settings := by
  have hrules : w.appliedRules p t = [] := h.appliedRules_eq
  have hsettings : (w.localConfiguration p t).settings = Configuration.initial p.name t := by
    unfold localConfiguration chainConfiguration
    rw [hrules]
    rfl
  have hpath : ∀ given default, settledPath p [] given default = none := by
    intro given default
    unfold settledPath
    cases p.kind <;> rfl
  rw [hsettings]
  constructor
  case defines | exportDefines => exact Keyed.Records.empty
  case properties => exact Keyed.Records.empty
  case outputPath | intermediatePath => exact (hpath _ _).symm
  case symbol => exact fun hne => absurd rfl hne
  all_goals rfl

/-- Entries that hold for the target give what they mean. -/
theorem meaning_of_ne_nil (h : w.DeclaredBy p t entries) (hne : entries ≠ []) :
    w.ChainMeaning p t entries (w.localConfiguration p t).settings := by
  let c := w.chainConfiguration p t
  have happlied : c.appliedRules.isEmpty = false := by
    rw [h.appliedRules_chainConfiguration, List.isEmpty_map, List.isEmpty_eq_false_iff]
    exact hne
  have hsettings : (w.localConfiguration p t).settings = w.complete p t c := by
    unfold localConfiguration
    exact if_neg (by rw [happlied]; exact Bool.false_ne_true)
  have hvalues := fun f => w.values_complete (p := p) (t := t) (h.values_chainConfiguration f)
  have hlast : ∀ f, (Configuration.initial p.name t).scalar f = none →
      c.scalar f = (entries.filterMap fun a => a.2.value? a.2.kind? f).getLast? := by
    intro f hf
    rw [h.scalar_chainConfiguration, hf, Option.or_none]
  have houtputPath : c.outputPath = lastValue Manifest.RuleEntry.outputPath entries := hlast .outputPath rfl
  have hintermediatePath : c.intermediatePath = lastValue Manifest.RuleEntry.intermediatePath entries :=
    hlast .intermediatePath rfl
  have hfileName : c.targetFileName = lastValue Manifest.RuleEntry.targetFileName entries := hlast .targetFileName rfl
  obtain ⟨hdefines, hexportDefines⟩ := defines_complete (w := w) (p := p) (t := t) c
  obtain ⟨hproperties, houtputKind, htargetFileName, hdependencies⟩ := complete_frame_settings (w := w) (p := p) (t := t) c
  obtain ⟨houtput, hintermediate⟩ := paths_complete (w := w) (p := p) (t := t) c hne
  have hrecords : (w.complete p t c).defines.Records
      ((((entries.flatMap fun a => a.2.definesOf .defines).map fun d => (d.1, d.2.map (w.expansion p t)))) ++
        [(configurationSymbol t, none)]) := by
    rw [hdefines]
    exact ((h.definesOf_chainConfiguration .defines).mapValues _).set _ _
  rw [hsettings]
  exact {
    appliedRules := (w.complete_frame p t c).2.2.trans h.appliedRules_chainConfiguration
    includePaths := (hvalues .includePaths).trans (distinct_eq_eraseDups _)
    privateIncludePaths := (hvalues .privateIncludePaths).trans (distinct_eq_eraseDups _)
    libraryPaths := (hvalues .libraryPaths).trans (distinct_eq_eraseDups _)
    libraryFiles := (hvalues .libraryFiles).trans (distinct_eq_eraseDups _)
    compilerOptions := by
      have hoptions := (hvalues .compilerOptions).trans (distinct_eq_eraseDups _)
      rw [if_pos rfl, List.map_id] at hoptions
      exact hoptions
    defines := by
      rw [List.isEmpty_eq_false_iff.mpr hne]
      exact hrecords
    exportDefines := by
      rw [hexportDefines]
      exact (h.definesOf_chainConfiguration .exportDefines).mapValues _
    properties := by
      rw [hproperties]
      exact h.properties_chainConfiguration.mapValues _
    outputKind := houtputKind.trans h.outputKind_chainConfiguration
    outputPath := houtputPath ▸ houtput
    intermediatePath := hintermediatePath ▸ hintermediate
    targetFileName := hfileName ▸ htargetFileName
    dependencies := hdependencies.trans h.dependencies_chainConfiguration
    symbol := fun _ => hrecords.lookup_concat }

end DeclaredBy

end Workspace

/-- What compiling a chain of declared rules gives. For a project of a finished workspace, of which all rules are declared:

1. its chain is that of its rule set, the set without a base first, and is empty if it has no rule set;
2. the rules of the chain that hold for a target, in order, are declared by some entries;
3. whenever compiling succeeds, the settings are what such entries mean. -/
theorem settings_of_chain {d : Declarations} {w : Workspace} (hw : d.finish = .ok w) {p : Project}
    (hp : p ∈ w.projects.items) (hdecl : w.DeclarativeChain p) (t : Target) :
    (p.ruleSet = none ∧ w.chainOf p = [] ∨ ∃ id, p.ruleSet = some id ∧ RuleSet.Chain w.rules.sets id (w.chainOf p)) ∧
      (∃ entries, w.DeclaredBy p t entries) ∧
      ∀ strict l, w.compileLocal strict p t = .ok l → ∀ entries, w.DeclaredBy p t entries →
        w.ChainMeaning p t entries l.settings := by
  obtain ⟨-, hfinished⟩ := Declarations.finish_eq_ok_iff.mp hw
  refine ⟨hfinished.chainOf hp, hdecl.exists_declaredBy t, ?_⟩
  intro strict l hl entries hentries
  obtain ⟨-, rfl⟩ := Workspace.compileLocal_eq_ok_iff.mp hl
  cases entries with
  | nil => exact hentries.meaning_nil
  | cons a entries => exact hentries.meaning_of_ne_nil (List.cons_ne_nil a entries)

/-! ### Two chains with an output path -/

/-- The entry of a rule that gives an output path. -/
def outputEntry (name path : String) : Manifest.RuleEntry where
  name
  outputPath := some path

/-- The project of the sample is declared by its one rule. -/
theorem declaredBy_core (name path : String) (t : Target) :
    (coreWorkspace [outputRule name 0 path]).DeclaredBy coreProject t
      [({ id := "Core", rules := [outputRule name 0 path] }, outputEntry name path)] := by
  rw [Workspace.DeclaredBy, rulesFor_core]
  exact List.Forall₂.cons ⟨rfl, rfl⟩ List.Forall₂.nil

/-- The output path of a rule is that of the project, with the tokens replaced. -/
theorem settings_of_chain_core :
    ∃ l, (coreWorkspace [outputRule "output" 0 "bin/[project.Name]"]).compileLocal true coreProject {} = .ok l ∧
      l.settings.outputPath = some "bin/Core" ∧ l.settings.appliedRules = ["Core/output"] := by
  have hdecl : (coreWorkspace [outputRule "output" 0 "bin/[project.Name]"]).DeclarativeChain coreProject :=
    declarativeChain_core (fun r hr => List.mem_singleton.mp hr ▸ declarative_outputRule _ _ _)
  have hagree : (coreWorkspace [outputRule "output" 0 "bin/[project.Name]"]).Agreeing true coreProject {} := by
    intro _
    rw [Workspace.chainConfiguration, ← Workspace.map_ofRule_rulesFor, rulesFor_core]
    rfl
  obtain ⟨-, -, hmeaning⟩ := settings_of_chain (finish_coreDeclarations _) (p := coreProject) List.mem_cons_self hdecl {}
  have hl := Workspace.compileLocal_eq_ok_iff.mpr ⟨hagree, rfl⟩
  have h := hmeaning true _ hl _ (declaredBy_core _ _ _)
  refine ⟨_, hl, h.outputPath.trans ?_, h.appliedRules⟩
  have hexpand : (coreWorkspace [outputRule "output" 0 "bin/[project.Name]"]).expansion coreProject {} "bin/[project.Name]" =
      "bin/Core" := by
    simp [Workspace.expansion, TokenValues.expand, TokenValues.expandChars, TokenValues.closer?, TokenValues.cutAt,
      TokenValues.value?, TokenValues.ofProject, coreProject]
  exact congrArg some hexpand

/-- A project that hands on what is built elsewhere, with a rule set of its own. -/
def packageProject : Project := { coreProject with kind := .exported }

/-- The workspace of this project with some rules. -/
def packageWorkspace (rules : List Rule) : Workspace :=
  { coreWorkspace rules with projects := Catalog.ofList [packageProject] }

/-- The sample with a package finishes. -/
theorem finish_packageDeclarations (rules : List Rule) :
    { coreDeclarations rules with projects := Catalog.ofList [packageProject] }.finish = .ok (packageWorkspace rules) := by
  obtain ⟨-, h⟩ := Declarations.finish_eq_ok_iff.mp (finish_coreDeclarations rules)
  refine Declarations.finish_eq_ok_iff.mpr ⟨rfl, ⟨h.edges, h.chains, ?_, ?_, h.members, h.solutionAxes⟩⟩
  · intro p hp
    rw [List.mem_singleton.mp hp]
    exact h.ruleSets coreProject List.mem_cons_self
  · intro p hp
    rw [List.mem_singleton.mp hp]
    exact h.axes coreProject List.mem_cons_self

/-- A project that is not compiled has no output path, whatever the last rule that gives one says. -/
theorem output_path_dropped :
    ¬∀ (d : Declarations) (w : Workspace), d.finish = .ok w → ∀ p ∈ w.projects.items, w.DeclarativeChain p →
      ∀ strict t l, w.compileLocal strict p t = .ok l → ∀ entries, w.DeclaredBy p t entries →
        ∀ path, Workspace.lastValue Manifest.RuleEntry.outputPath entries = some path →
          l.settings.outputPath = some (w.expansion p t path) := by
  intro hkept
  let rules := [outputRule "output" 0 "bin"]
  have hdecl : (packageWorkspace rules).DeclarativeChain packageProject :=
    declarativeChain_core (fun r hr => List.mem_singleton.mp hr ▸ declarative_outputRule _ _ _)
  have hentries : (packageWorkspace rules).DeclaredBy packageProject {} _ := declaredBy_core "output" "bin" {}
  have hpath := hkept _ _ (finish_packageDeclarations rules) packageProject List.mem_cons_self hdecl false {} _ rfl _
    hentries "bin" rfl
  have hnone := (hentries.meaning_of_ne_nil (List.cons_ne_nil _ _)).outputPath
  exact Option.some_ne_none _ (hpath.symm.trans hnone)

end BuildPlan
