import BuildPlan.Axes.Predicate
import BuildPlan.Proofs.Axes

/-!
# Axes and filters of one declaration

Lists of names can be declared for a project, which is built for the targets they make up, and for a filter, which admits the
targets they name. Both are read list by list. `Axis.knows` says which names an axis has and `Target.IsNamed` whether a name
stands for the value of a target. Reading fails with the first name that its axis does not know, whatever the lists are for;
if it succeeds and there is a list for every axis, the axes contain the targets that the filter admits
(`axes_and_filter_agree`).
-/

namespace BuildPlan

/-! ### Names of values -/

/-- Whether some value of an axis has a name. Platforms and environments can have any name. -/
def Axis.knows : Axis → String → Bool
  | .optimization, n => (Flag.all : List Optimization).any (fun a => Text.sameAsciiName a.name n)
  | .outputKind, n => OutputKind.all.any (fun k => Text.lower n == k.name)
  | .launchMode, n => (Flag.all : List LaunchMode).any (fun a => Text.sameAsciiName a.name n)
  | .buildSystem, n => BuildSystem.all.any (fun b => Text.lower n == b.name)
  | _, _ => true

/-- A name stands for the value that a target has on an axis. -/
def Target.IsNamed (t : Target) : Axis → String → Prop
  | .platform, n => Platform.ofName n = t.platform
  | .devEnv, n => DevEnv.ofName n = t.devEnv
  | .optimization, n => Text.sameAsciiName t.optimization.name n = true
  | .outputKind, n => Text.lower n = t.outputKind.name
  | .launchMode, n => Text.sameAsciiName t.launchMode.name n = true
  | .buildSystem, n => Text.lower n = t.buildSystem.name
  | .target, _ => True

/-- A set of flags contains the values of the list that it was made of. -/
theorem FlagSet.contains_ofList {α : Type} [DecidableEq α] (l : List α) (a : α) : (ofList l).contains a = l.contains a := by
  have key : ∀ s : FlagSet α, (l.foldl insert s).contains a = (l.contains a || s.contains a) := by
    induction l with
    | nil => exact fun s => rfl
    | cons b l ih =>
      intro s
      rw [List.foldl_cons, ih, List.contains_cons, insert, Bool.or_left_comm, Bool.or_assoc]
  exact (key empty).trans (Bool.or_false _)

namespace AxisNames

/-- The names that are declared for an axis. -/
def list (d : AxisNames) : Axis → Option (List String)
  | .platform => d.platforms
  | .devEnv => d.devEnvs
  | .optimization => d.optimizations
  | .outputKind => d.outputKinds
  | .launchMode => d.launchModes
  | .buildSystem => d.buildSystems
  | .target => none

/-- The axes of the lists in order. -/
def axes : List Axis := [.platform, .devEnv, .optimization, .outputKind, .launchMode, .buildSystem]

/-- All names with their axes, in the order of the axes. -/
def entries (d : AxisNames) : List (Axis × String) :=
  axes.flatMap fun axis => ((d.list axis).getD []).map fun n => (axis, n)

/-- The first name that its axis does not know. -/
def firstUnknown? (d : AxisNames) : Option (Axis × String) := d.entries.find? fun e => !e.1.knows e.2

/-- If there is a list for an axis, one of its names stands for the value of a target. -/
def Accepts (d : AxisNames) (axis : Axis) (t : Target) : Prop :=
  ∀ names, d.list axis = some names → ∃ n ∈ names, t.IsNamed axis n

/-- There is a list for every axis. -/
def IsComplete (d : AxisNames) : Prop := ∀ axis ∈ axes, ∃ names, d.list axis = some names

/-! ### Reading one name -/

/-- A reader of the names of an axis: it refuses those that the axis does not know, and gives the value of a target for the
names that stand for it. -/
structure Reads {α : Type} (axis : Axis) (read : String → Except BuildError α) (value : Target → α) : Prop where
  eq_error_iff : ∀ n e, read n = .error e ↔ axis.knows n = false ∧ e = .invalidAxis axis (.unknownValue n)
  eq_ok_iff : ∀ n t, read n = .ok (value t) ↔ t.IsNamed axis n

section Flags

variable {α : Type} [DecidableEq α] [Flag α] {n : String} {a : α} {e : BuildError}

/-- A flag is refused exactly if it has no such name, and as an unknown value. -/
theorem readFlag_eq_error_iff : readFlag (α := α) n = .error e ↔
    (Flag.all : List α).any (fun a => Text.sameAsciiName (Flag.name a) n) = false ∧
      e = .invalidAxis (Flag.axis α) (.unknownValue n) := by
  have hnone : Flag.ofName? (α := α) n = none ↔
      (Flag.all : List α).any (fun a => Text.sameAsciiName (Flag.name a) n) = false := by
    simp [Flag.ofName?]
  rw [← hnone, readFlag]
  cases Flag.ofName? (α := α) n with
  | none => simp [eq_comm]
  | some a => simp

/-- A name is read as the value that has it, if no two values have names that differ in case only. -/
theorem readFlag_eq_ok_iff
    (hname : ∀ b, Text.sameAsciiName (Flag.name a) n = true → Text.sameAsciiName (Flag.name b) n = true → b = a) :
    readFlag n = .ok a ↔ Text.sameAsciiName (Flag.name a) n = true := by
  have hsome : Flag.ofName? n = some a ↔ Text.sameAsciiName (Flag.name a) n = true := by
    have hfound : ∀ b : α, Flag.ofName? n = some b → Text.sameAsciiName (Flag.name b) n = true := fun b hb => by
      simpa using List.find?_some hb
    refine ⟨hfound a, fun h => ?_⟩
    obtain ⟨b, hb⟩ : ∃ b : α, Flag.ofName? n = some b := by
      rw [← Option.isSome_iff_exists, Flag.ofName?, List.find?_isSome]
      exact ⟨a, Flag.mem_all a, h⟩
    exact hb.trans (congrArg some (hname b h (hfound b hb)))
  rw [← hsome, readFlag]
  cases Flag.ofName? (α := α) n <;> simp

end Flags

/-- Two names that a third one is the same as, up to case, are the same up to case. -/
theorem lower_eq_of_sameAsciiName {a b n : String} (ha : Text.sameAsciiName a n = true) (hb : Text.sameAsciiName b n = true) :
    b.toList.map Char.toLower = a.toList.map Char.toLower :=
  (beq_iff_eq.mp hb).trans (beq_iff_eq.mp ha).symm

/-- Optimizations are read by name from one axis. -/
theorem reads_optimization : Reads .optimization readFlag Target.optimization where
  eq_error_iff _ _ := readFlag_eq_error_iff
  eq_ok_iff n t := readFlag_eq_ok_iff fun b h h' => by
    have heq := lower_eq_of_sameAsciiName h h'
    revert heq
    generalize t.optimization = a
    cases a <;> cases b <;> decide

/-- Launch modes are read by name from one axis. -/
theorem reads_launchMode : Reads .launchMode readFlag Target.launchMode where
  eq_error_iff _ _ := readFlag_eq_error_iff
  eq_ok_iff n t := readFlag_eq_ok_iff fun b h h' => by
    have heq := lower_eq_of_sameAsciiName h h'
    revert heq
    generalize t.launchMode = a
    cases a <;> cases b <;> decide

/-- Kinds of output are read by name from one axis, whatever the case of the letters. -/
theorem reads_outputKind : Reads .outputKind readOutputKind Target.outputKind where
  eq_error_iff n e := by
    have hknows : Axis.knows .outputKind n =
        (Text.lower n == "lib" || (Text.lower n == "dll" || (Text.lower n == "exe" || false))) := rfl
    rw [hknows, readOutputKind, eq_comm (a := e)]
    split <;> simp_all
  eq_ok_iff n t := by
    change _ ↔ Text.lower n = t.outputKind.name
    rw [readOutputKind]
    cases t.outputKind <;> split <;> simp_all [OutputKind.name]

/-- Build systems are read by name from one axis, whatever the case of the letters. -/
theorem reads_buildSystem : Reads .buildSystem readBuildSystem Target.buildSystem where
  eq_error_iff n e := by
    have hknows : Axis.knows .buildSystem n = (Text.lower n == "msbuild" ||
        (Text.lower n == "fastbuild" || (Text.lower n == "make" || (Text.lower n == "ninja" || false)))) := rfl
    rw [hknows, readBuildSystem, eq_comm (a := e)]
    split <;> simp_all
  eq_ok_iff n t := by
    change _ ↔ Text.lower n = t.buildSystem.name
    rw [readBuildSystem]
    cases t.buildSystem <;> split <;> simp_all [BuildSystem.name]

/-! ### Reading lists -/

/-- The first name of a list that its axis does not know. -/
def unknown? (axis : Axis) (list : Option (List String)) : Option (Axis × String) :=
  ((list.getD []).find? fun n => !axis.knows n).map fun n => (axis, n)

/-- The first unknown name is looked for axis after axis. -/
theorem firstUnknown?_eq (d : AxisNames) : d.firstUnknown? =
    (unknown? .optimization d.optimizations).or ((unknown? .outputKind d.outputKinds).or
      ((unknown? .launchMode d.launchModes).or (unknown? .buildSystem d.buildSystems))) := by
  have hpart : ∀ axis, (((d.list axis).getD []).map fun n => (axis, n)).find? (fun e => !e.1.knows e.2) =
      unknown? axis (d.list axis) := fun axis => List.find?_map
  have hknown : ∀ axis, (∀ n, axis.knows n = true) → unknown? axis (d.list axis) = none := by
    intro axis h
    simp [unknown?, h]
  simp only [firstUnknown?, entries, axes, List.flatMap_cons, List.flatMap_nil, List.append_nil, List.find?_append, hpart,
    hknown .platform (fun _ => rfl), hknown .devEnv (fun _ => rfl), Option.none_or]
  rfl

/-- Values that were read from the names of an axis: they are as absent as the names, and else hold the value of a target
exactly if one of the names stands for it. -/
inductive ReadFrom {α : Type} (axis : Axis) (value : Target → α) : Option (List String) → Option (List α) → Prop
  | absent : ReadFrom axis value none none
  | present {names : List String} {values : List α} (h : ∀ t, value t ∈ values ↔ ∃ n ∈ names, t.IsNamed axis n) :
    ReadFrom axis value (some names) (some values)

section Lists

variable {α : Type} {axis : Axis} {read : String → Except BuildError α} {value : Target → α}

/-- The names of a list are all read, or the first unknown one is reported. -/
theorem readAll_cases (h : Reads axis read value) (names : List String) :
    (∃ n, (names.find? fun n => !axis.knows n) = some n ∧
      readAll read names = .error (.invalidAxis axis (.unknownValue n))) ∨
    ((names.find? fun n => !axis.knows n) = none ∧
      ∃ values, readAll read names = .ok values ∧ ∀ t, value t ∈ values ↔ ∃ n ∈ names, t.IsNamed axis n) := by
  induction names with
  | nil => exact Or.inr ⟨rfl, [], rfl, fun t => by simp⟩
  | cons n names ih =>
    rw [List.find?_cons]
    cases hn : axis.knows n with
    | false =>
      have hread := (h.eq_error_iff n _).mpr ⟨hn, rfl⟩
      exact Or.inl ⟨n, rfl, by rw [readAll, hread]; rfl⟩
    | true =>
      obtain ⟨a, ha⟩ : ∃ a, read n = .ok a := by
        cases hread : read n with
        | error e =>
          have hno := ((h.eq_error_iff n e).mp hread).1
          rw [hn] at hno
          cases hno
        | ok a => exact ⟨a, rfl⟩
      rcases ih with ⟨n', hfind, hrest⟩ | ⟨hfind, values, hrest, hmem⟩
      · exact Or.inl ⟨n', hfind, by rw [readAll, ha, hrest]; rfl⟩
      · refine Or.inr ⟨hfind, a :: values, by rw [readAll, ha, hrest]; rfl, fun t => ?_⟩
        rw [List.mem_cons, hmem, List.exists_mem_cons_iff, ← h.eq_ok_iff, ha, Except.ok.injEq, eq_comm]

/-- The names of a list that may be missing are all read, or the first unknown one is reported. -/
theorem readOptional_cases (h : Reads axis read value) (list : Option (List String)) :
    (∃ n, unknown? axis list = some (axis, n) ∧
      readOptional read list = .error (.invalidAxis axis (.unknownValue n))) ∨
    (unknown? axis list = none ∧ ∃ values, readOptional read list = .ok values ∧ ReadFrom axis value list values) := by
  cases list with
  | none => exact Or.inr ⟨rfl, none, rfl, .absent⟩
  | some names =>
    rcases readAll_cases h names with ⟨n, hfind, hread⟩ | ⟨hfind, values, hread, hmem⟩
    · exact Or.inl ⟨n, by rw [unknown?, Option.getD_some, hfind]; rfl, by rw [readOptional, hread]; rfl⟩
    · exact Or.inr ⟨by rw [unknown?, Option.getD_some, hfind]; rfl, some values, by rw [readOptional, hread]; rfl,
        .present hmem⟩

variable [DecidableEq α] {d : AxisNames} {values : Option (List α)} {t : Target}

/-- A filter accepts the values that its names stand for. -/
theorem ReadFrom.accepts_iff (h : ReadFrom axis value (d.list axis) values) :
    TargetPredicate.accepts values (value t) = true ↔ d.Accepts axis t := by
  unfold Accepts
  generalize d.list axis = list at h
  cases h with
  | absent => simp [TargetPredicate.accepts]
  | present h => simp [TargetPredicate.accepts, h]

/-- A list that was read for an axis with names takes the place of a default one. -/
theorem ReadFrom.contains_getD {list : Option (List String)} (h : ReadFrom axis value list values)
    (hlist : ∃ names, list = some names) (default : List α) (a : α) :
    (values.getD default).contains a = TargetPredicate.accepts values a := by
  obtain ⟨names, rfl⟩ := hlist
  cases h
  rfl

/-- A list that was read for the axes holds the values that the same list accepts in a filter. -/
theorem ReadFrom.contains_flags {list : Option (List String)} (h : ReadFrom axis value list values)
    (hlist : ∃ names, list = some names) (default : FlagSet α) (a : α) :
    ((values.map FlagSet.ofList).getD default).contains a = TargetPredicate.accepts values a := by
  obtain ⟨names, rfl⟩ := hlist
  cases h
  exact FlagSet.contains_ofList _ a

end Lists

/-! ### Reading a declaration -/

/-- The lists of a filter were read from those of a declaration. -/
structure ReadAs (d : AxisNames) (p : TargetPredicate) : Prop where
  platforms : ReadFrom .platform Target.platform d.platforms p.platforms
  devEnvs : ReadFrom .devEnv Target.devEnv d.devEnvs p.devEnvs
  optimizations : ReadFrom .optimization Target.optimization d.optimizations p.optimizations
  outputKinds : ReadFrom .outputKind Target.outputKind d.outputKinds p.outputKinds
  launchModes : ReadFrom .launchMode Target.launchMode d.launchModes p.launchModes
  buildSystems : ReadFrom .buildSystem Target.buildSystem d.buildSystems p.buildSystems

/-- A declaration is read as a filter unless it has an unknown name; the first one is the error. -/
theorem ofNames_cases (d : AxisNames) :
    (∃ axis n, d.firstUnknown? = some (axis, n) ∧
      TargetPredicate.ofNames d = .error (.invalidAxis axis (.unknownValue n))) ∨
    (d.firstUnknown? = none ∧ ∃ p, TargetPredicate.ofNames d = .ok p ∧ d.ReadAs p) := by
  have hplatforms : ReadFrom .platform Target.platform d.platforms
      (d.platforms.map fun names => names.map Platform.ofName) := by
    cases d.platforms with
    | none => exact .absent
    | some names => exact .present fun t => List.mem_map
  have hdevEnvs : ReadFrom .devEnv Target.devEnv d.devEnvs (d.devEnvs.map fun names => names.map DevEnv.ofName) := by
    cases d.devEnvs with
    | none => exact .absent
    | some names => exact .present fun t => List.mem_map
  rw [firstUnknown?_eq, TargetPredicate.ofNames]
  rcases readOptional_cases reads_optimization d.optimizations with ⟨n, hn, h⟩ | ⟨hn, optimizations, h, hoptimizations⟩
  · exact Or.inl ⟨_, n, by rw [hn]; rfl, by rw [h]; rfl⟩
  rw [hn, h]
  rcases readOptional_cases reads_outputKind d.outputKinds with ⟨n, hn, h⟩ | ⟨hn, outputKinds, h, houtputKinds⟩
  · exact Or.inl ⟨_, n, by rw [hn]; rfl, by rw [h]; rfl⟩
  rw [hn, h]
  rcases readOptional_cases reads_launchMode d.launchModes with ⟨n, hn, h⟩ | ⟨hn, launchModes, h, hlaunchModes⟩
  · exact Or.inl ⟨_, n, by rw [hn]; rfl, by rw [h]; rfl⟩
  rw [hn, h]
  rcases readOptional_cases reads_buildSystem d.buildSystems with ⟨n, hn, h⟩ | ⟨hn, buildSystems, h, hbuildSystems⟩
  · exact Or.inl ⟨_, n, by rw [hn]; rfl, by rw [h]; rfl⟩
  rw [hn, h]
  exact Or.inr ⟨rfl, _, rfl, hplatforms, hdevEnvs, hoptimizations, houtputKinds, hlaunchModes, hbuildSystems⟩

variable {d : AxisNames} {p : TargetPredicate} {t : Target}

/-- A filter is refused exactly if a name is unknown, and with the first such name and its axis. -/
theorem ofNames_eq_error_iff {e : BuildError} : TargetPredicate.ofNames d = .error e ↔
    ∃ axis n, d.firstUnknown? = some (axis, n) ∧ e = .invalidAxis axis (.unknownValue n) := by
  rcases d.ofNames_cases with ⟨axis, n, hfirst, h⟩ | ⟨hfirst, p, h, -⟩
  · simp [hfirst, h, eq_comm]
  · simp [hfirst, h]

/-- A filter that was read accepts on each axis what its names say. -/
theorem readAs_of_ofNames (h : TargetPredicate.ofNames d = .ok p) : d.ReadAs p := by
  rcases d.ofNames_cases with ⟨axis, n, -, h'⟩ | ⟨-, p', h', hread⟩
  · rw [h] at h'
    cases h'
  · rw [h] at h'
    cases h'
    exact hread

/-- What holds on every axis is what holds on the axes with lists and what holds of no list. -/
theorem forall_axis_iff {P : Axis → Prop} (htarget : P .target) : (∀ axis, P axis) ↔
    P .platform ∧ P .devEnv ∧ P .optimization ∧ P .outputKind ∧ P .launchMode ∧ P .buildSystem := by
  constructor
  · exact fun h => ⟨h _, h _, h _, h _, h _, h _⟩
  · rintro ⟨hplatform, hdevEnv, hoptimization, houtputKind, hlaunchMode, hbuildSystem⟩ axis
    cases axis <;> assumption

/-- A filter admits the targets that every list of its declaration accepts. -/
theorem ReadAs.admits_iff (h : d.ReadAs p) : p.admits t = true ↔ ∀ axis, d.Accepts axis t := by
  have htarget : d.Accepts .target t := fun _ hnone => nomatch hnone
  have hplatform : _ ↔ d.Accepts .platform t := ReadFrom.accepts_iff h.platforms
  have hdevEnv : _ ↔ d.Accepts .devEnv t := ReadFrom.accepts_iff h.devEnvs
  have hoptimization : _ ↔ d.Accepts .optimization t := ReadFrom.accepts_iff h.optimizations
  have houtputKind : _ ↔ d.Accepts .outputKind t := ReadFrom.accepts_iff h.outputKinds
  have hlaunchMode : _ ↔ d.Accepts .launchMode t := ReadFrom.accepts_iff h.launchModes
  have hbuildSystem : _ ↔ d.Accepts .buildSystem t := ReadFrom.accepts_iff h.buildSystems
  rw [forall_axis_iff htarget, ← hplatform, ← hdevEnv, ← hoptimization, ← houtputKind, ← hlaunchMode, ← hbuildSystem]
  simp only [TargetPredicate.admits, Bool.and_eq_true, and_assoc]

/-- Whether an axis is accepted depends on its list only. -/
theorem accepts_congr {d' : AxisNames} {axis : Axis} (h : d'.list axis = d.list axis) :
    d'.Accepts axis t ↔ d.Accepts axis t := by
  unfold Accepts
  rw [h]

end AxisNames

namespace TargetAxes

/-- The axes with the lists of a filter, and the default values on the axes without a list. -/
def ofFilter (p : TargetPredicate) : TargetAxes :=
  let defaults : TargetAxes := {}
  { platforms := p.platforms.getD defaults.platforms
    devEnvs := p.devEnvs.getD defaults.devEnvs
    optimizations := (p.optimizations.map FlagSet.ofList).getD defaults.optimizations
    outputKinds := p.outputKinds.getD defaults.outputKinds
    launchModes := (p.launchModes.map FlagSet.ofList).getD defaults.launchModes
    buildSystems := p.buildSystems.getD defaults.buildSystems }

/-- The axes of a declaration are those of its filter. -/
theorem ofNames_eq (d : AxisNames) : ofNames d = (TargetPredicate.ofNames d).map ofFilter := by
  unfold ofNames TargetPredicate.ofNames
  cases AxisNames.readOptional (AxisNames.readFlag (α := Optimization)) d.optimizations with
  | error e => rfl
  | ok optimizations =>
    cases AxisNames.readOptional AxisNames.readOutputKind d.outputKinds with
    | error e => rfl
    | ok outputKinds =>
      cases AxisNames.readOptional (AxisNames.readFlag (α := LaunchMode)) d.launchModes with
      | error e => rfl
      | ok launchModes =>
        cases AxisNames.readOptional AxisNames.readBuildSystem d.buildSystems with
        | error e => rfl
        | ok buildSystems => rfl

/-- Axes with a list for every axis contain the targets that their filter admits. -/
theorem contains_ofFilter {d : AxisNames} {p : TargetPredicate} (h : d.ReadAs p) (hcomplete : d.IsComplete) (t : Target) :
    (ofFilter p).contains t = p.admits t := by
  have hplatforms := h.platforms.contains_getD (hcomplete .platform (by decide))
  have hdevEnvs := h.devEnvs.contains_getD (hcomplete .devEnv (by decide))
  have hoptimizations := h.optimizations.contains_flags (hcomplete .optimization (by decide))
  have houtputKinds := h.outputKinds.contains_getD (hcomplete .outputKind (by decide))
  have hlaunchModes := h.launchModes.contains_flags (hcomplete .launchMode (by decide))
  have hbuildSystems := h.buildSystems.contains_getD (hcomplete .buildSystem (by decide))
  simp only [contains, ofFilter, TargetPredicate.admits, hplatforms, hdevEnvs, hoptimizations, houtputKinds, hlaunchModes,
    hbuildSystems]

end TargetAxes

/-- Axes and filter of one declaration. Both fail on the same declarations and with the same error: an unknown value, which is
the first name in the order of the axes that its axis does not know. Otherwise the filter admits the targets of which every list
that there is names the value. If there is a list for every axis, the axes contain the targets that the filter admits. If
there is none for an axis, the filter leaves the verdict to the other axes: a declaration that has a list there as well, and is
the same otherwise, admits of the targets of this filter those of which the list names the value. -/
theorem axes_and_filter_agree (d : AxisNames) :
    (∀ e, TargetAxes.ofNames d = .error e ↔ TargetPredicate.ofNames d = .error e) ∧
    (∀ e, TargetPredicate.ofNames d = .error e ↔
      ∃ axis n, d.firstUnknown? = some (axis, n) ∧ e = .invalidAxis axis (.unknownValue n)) ∧
    ∀ a p, TargetAxes.ofNames d = .ok a → TargetPredicate.ofNames d = .ok p →
      (∀ t, p.admits t = true ↔ ∀ axis, d.Accepts axis t) ∧
      (d.IsComplete → ∀ t, a.contains t = p.admits t) ∧
      ∀ axis, d.list axis = none → ∀ d' p', (∀ other, other ≠ axis → d'.list other = d.list other) →
        TargetPredicate.ofNames d' = .ok p' → ∀ t, p'.admits t = true ↔ p.admits t = true ∧ d'.Accepts axis t := by
  refine ⟨fun e => ?_, fun e => AxisNames.ofNames_eq_error_iff, fun a p ha hp => ?_⟩
  · rw [TargetAxes.ofNames_eq]
    cases TargetPredicate.ofNames d with
    | error e' => simp [Except.map]
    | ok p => simp [Except.map]
  · have hread := AxisNames.readAs_of_ofNames hp
    have hofFilter : TargetAxes.ofFilter p = a := by
      rw [TargetAxes.ofNames_eq, hp] at ha
      exact Except.ok.inj ha
    refine ⟨fun t => hread.admits_iff, fun hcomplete t => ?_, fun axis hnone d' p' hothers hp' t => ?_⟩
    · rw [← hofFilter]
      exact TargetAxes.contains_ofFilter hread hcomplete t
    · rw [(AxisNames.readAs_of_ofNames hp').admits_iff, hread.admits_iff]
      constructor
      · refine fun h => ⟨fun other => ?_, h axis⟩
        by_cases hother : other = axis
        · intro names hnames
          rw [hother, hnone] at hnames
          cases hnames
        · exact (AxisNames.accepts_congr (hothers other hother)).mp (h other)
      · rintro ⟨h, haxis⟩ other
        by_cases hother : other = axis
        · exact hother ▸ haxis
        · exact (AxisNames.accepts_congr (hothers other hother)).mpr (h other)

/-- A list for every axis, with a name of no built-in platform and names in capitals. -/
def shippedNames : AxisNames where
  platforms := some ["WIN64", "Console"]
  devEnvs := some ["VS2022"]
  optimizations := some ["Release", "RETAIL"]
  outputKinds := some ["Exe"]
  launchModes := some ["client", "server"]
  buildSystems := some ["FastBuild"]

/-- The axes of these lists contain what their filter admits, and this filter admits, of the targets that it admits without its
list of optimizations, those of which the list names the optimization. -/
theorem axes_and_filter_agree_shipped :
    ∃ a p p', TargetAxes.ofNames shippedNames = .ok a ∧ TargetPredicate.ofNames shippedNames = .ok p ∧
      TargetPredicate.ofNames { shippedNames with optimizations := none } = .ok p' ∧ (∀ t, a.contains t = p.admits t) ∧
      ∀ t, p.admits t = true ↔ p'.admits t = true ∧ shippedNames.Accepts .optimization t := by
  obtain ⟨p, hp⟩ : ∃ p, TargetPredicate.ofNames shippedNames = .ok p := ⟨_, rfl⟩
  obtain ⟨a, ha⟩ : ∃ a, TargetAxes.ofNames shippedNames = .ok a := ⟨_, rfl⟩
  obtain ⟨p', hp'⟩ : ∃ p', TargetPredicate.ofNames { shippedNames with optimizations := none } = .ok p' := ⟨_, rfl⟩
  obtain ⟨a', ha'⟩ : ∃ a', TargetAxes.ofNames { shippedNames with optimizations := none } = .ok a' := ⟨_, rfl⟩
  have hcomplete : shippedNames.IsComplete := by
    intro axis haxis
    cases axis with
    | target => exact absurd haxis (by decide)
    | _ => exact ⟨_, rfl⟩
  have hothers : ∀ other, other ≠ Axis.optimization →
      shippedNames.list other = AxisNames.list { shippedNames with optimizations := none } other := by
    intro other hother
    cases other with
    | optimization => exact absurd rfl hother
    | _ => rfl
  exact ⟨a, p, p', ha, hp, hp', ((axes_and_filter_agree shippedNames).2.2 a p ha hp).2.1 hcomplete,
    ((axes_and_filter_agree { shippedNames with optimizations := none }).2.2 a' p' ha' hp').2.2 .optimization rfl _ p hothers
      hp⟩

end BuildPlan
