import BuildPlan.Proofs.Resolution.Merging

/-!
# Merge policies

A configuration is made by calls: rules begin and end, and something is written, in a rule or outside of any
(`Configuration.Call`). A call changes its own field and at most the memory of conflicts beside it (`content_call`). After any
calls a configuration holds the writes among them, each in the name of the rule that was active (`holds_ofCalls`), so every
field is known from the calls that are about it (`Follows`). Where a function is applied to the texts, the values of a list are
those that the function makes of all that was written (`values_mapStrings`). Together these are the merge policies
(`merge_policies`).
-/

namespace BuildPlan

namespace Configuration

/-! ### Calls -/

/-- A call on a configuration. Rules may begin and end at any time, and writes may come outside of rules. -/
inductive Call
  | beginRule (rule : Provenance)
  | endRule
  | write (w : Write)

/-- The configuration after a call. -/
def call (c : Configuration) : Call → Configuration
  | .beginRule p => c.beginRule p
  | .endRule => c.endRule
  | .write w => c.write w

/-- The configuration of a project on a target after some calls, from the start on. -/
def ofCalls (project : String) (t : Target) (calls : List Call) : Configuration := calls.foldl call (initial project t)

/-- The calls in which some rules are applied one after the other. -/
def callsOf (c : Configuration) : List AppliedRule → List Call
  | [] => []
  | a :: rest =>
    .beginRule a.1 :: ((a.2 (c.beginRule a.1)).map Call.write ++ .endRule :: callsOf (c.applyRule a) rest)

/-- The label that a dependency gets where a rule is active, or none is. -/
def labelOf (rule : Option Provenance) : String := (rule.map Provenance.label).getD ""

namespace Call

/-- The write that a call makes. -/
def write? : Call → Option Write
  | .write w => some w
  | _ => none

/-- The rule that is active from a call on, if the call is the begin or the end of a rule. -/
def activates? : Call → Option (Option Provenance)
  | .beginRule p => some (some p)
  | .endRule => some none
  | .write _ => none

/-- The label of the rule that a call begins. -/
def begun? : Call → Option String
  | .beginRule p => some p.label
  | _ => none

/-- The rule that is active after some calls: the one that began last, unless the end of a rule came after it. -/
def active (calls : List Call) : Option Provenance := (calls.filterMap activates?).getLast?.join

/-- What some calls write, in order. -/
def writes (calls : List Call) : List Write := calls.filterMap write?

/-- What some calls write, in order, each with the label of the rule that is active then. -/
def labelledWrites (calls : List Call) : List (String × Write) :=
  calls.zipIdx.filterMap fun e => e.1.write?.map fun w => (labelOf (active (calls.take e.2)), w)

/-- The last call that begins or ends a rule tells which rule is active. -/
theorem active_concat (calls : List Call) (k : Call) : active (calls ++ [k]) = k.activates?.getD (active calls) := by
  unfold active
  rw [List.filterMap_append]
  cases k <;> simp [activates?]

/-- Calls are labelled by what comes before them, whatever comes after. -/
theorem labelledWrites_concat (calls : List Call) (k : Call) :
    labelledWrites (calls ++ [k]) = labelledWrites calls ++ (k.write?.map fun w => (labelOf (active calls), w)).toList := by
  unfold labelledWrites
  rw [List.zipIdx_append, List.filterMap_append]
  congr 1
  · refine List.filterMap_congr (fun e he => ?_)
    have hlt : e.2 < calls.length := by simpa using List.snd_lt_of_mem_zipIdx he
    rw [List.take_append_of_le_length hlt.le]
  · cases hk : k.write? <;> simp [hk]

/-- The writes with their labels are the writes. -/
theorem map_snd_labelledWrites (calls : List Call) : (labelledWrites calls).map Prod.snd = writes calls := by
  induction calls using List.reverseRecOn with
  | nil => rfl
  | append_singleton calls k ih =>
    have hwrites : writes (calls ++ [k]) = writes calls ++ k.write?.toList := by
      rw [writes, List.filterMap_append]
      cases hk : k.write? <;> simp [writes, hk]
    rw [labelledWrites_concat, List.map_append, ih, hwrites]
    cases k.write? <;> rfl

end Call

/-! ### One call -/

/-- What a configuration consists of. -/
inductive Field
  | project
  | target
  | list (f : ListField)
  | defines (f : DefineField)
  | properties
  | scalar (f : ScalarField)
  | dependencies
  | current
  | appliedRules
  | conflictMemory

/-- What a field holds. The output kind stands for itself by its name. -/
def Field.Content : Field → Type
  | .project => String
  | .target => Target
  | .list _ => List String
  | .defines _ => Defines
  | .properties => Keyed String
  | .scalar _ => Option String
  | .dependencies => List DeclaredDependency
  | .current => Option Provenance
  | .appliedRules => List String
  | .conflictMemory => (ScalarField → Option ScalarWrite) × List ScalarConflict

/-- What a configuration holds in a field. -/
def content (c : Configuration) : (f : Field) → f.Content
  | .project => c.project
  | .target => c.target
  | .list f => c.values f
  | .defines f => c.definesOf f
  | .properties => c.properties
  | .scalar f => c.scalar f
  | .dependencies => c.dependencies
  | .current => c.current
  | .appliedRules => c.appliedRules
  | .conflictMemory => (c.lastWrite, c.conflicts)

/-- A configuration is what it holds in its fields. -/
theorem ext_content {c d : Configuration} (h : ∀ f, c.content f = d.content f) : c = d := by
  have hkind : c.outputKind = d.outputKind := OutputKind.name_injective (Option.some.inj (h (.scalar .outputKind)))
  have hmemory := Prod.mk.inj (h .conflictMemory)
  cases c
  cases d
  congr
  · exact h .project
  · exact h .target
  · exact h (.list .includePaths)
  · exact h (.list .privateIncludePaths)
  · exact h (.list .libraryPaths)
  · exact h (.list .libraryFiles)
  · exact h (.list .compilerOptions)
  · exact h (.defines .defines)
  · exact h (.defines .exportDefines)
  · exact h .properties
  · exact h (.scalar .outputPath)
  · exact h (.scalar .intermediatePath)
  · exact h (.scalar .targetFileName)
  · exact h .dependencies
  · exact h .current
  · exact hmemory.1
  · exact hmemory.2
  · exact h .appliedRules

end Configuration

namespace Write

open BuildPlan.Configuration

/-- The field that a write is about. -/
def field : Write → Field
  | .includePath _ => .list .includePaths
  | .privateIncludePath _ => .list .privateIncludePaths
  | .libraryPath _ => .list .libraryPaths
  | .libraryFiles _ => .list .libraryFiles
  | .compilerOption _ => .list .compilerOptions
  | .define _ => .defines .defines
  | .exportDefine _ => .defines .exportDefines
  | .property _ _ => .properties
  | .outputKind _ => .scalar .outputKind
  | .outputPath _ => .scalar .outputPath
  | .intermediatePath _ => .scalar .intermediatePath
  | .targetFileName _ => .scalar .targetFileName
  | .dependency _ _ => .dependencies

/-- The output kind that a write sets. -/
def outputKind? : Write → Option OutputKind
  | .outputKind k => some k
  | _ => none

variable {w : Write}

/-- A write has nothing to add to a list that it is not about, and the same goes for the other fields. -/
theorem values_eq_nil {f : ListField} (h : .list f ≠ w.field) : w.values f = [] := by
  unfold values
  split
  · exact absurd rfl h
  · exact absurd rfl h
  · exact absurd rfl h
  · exact absurd rfl h
  · exact absurd rfl h
  · rfl

/-- A write of another field gives no symbol. -/
theorem definesOf_eq_nil {f : DefineField} (h : .defines f ≠ w.field) : w.definesOf f = [] := by
  unfold definesOf
  split
  · exact absurd rfl h
  · exact absurd rfl h
  · rfl

/-- A write of another field gives no property. -/
theorem properties_eq_nil (h : .properties ≠ w.field) : w.properties = [] := by
  unfold properties
  split
  · exact absurd rfl h
  · rfl

/-- A write of another field gives no value. -/
theorem value?_eq_none {f : ScalarField} (h : .scalar f ≠ w.field) : w.value? f = none := by
  cases w with
  | outputKind | outputPath | intermediatePath | targetFileName => exact if_neg (fun heq => h (congrArg Field.scalar heq.symm))
  | _ => rfl

/-- A write of another field gives no dependency. -/
theorem dependencies_eq_nil (h : .dependencies ≠ w.field) (label : String) : w.dependencies label = [] := by
  unfold dependencies
  split
  · exact absurd rfl h
  · rfl

/-- The output kind is written by its name. -/
theorem value?_outputKind (w : Write) : w.value? .outputKind = w.outputKind?.map OutputKind.name := by
  cases w <;> rfl

end Write

namespace Configuration

variable {c : Configuration} {project : String} {t : Target} {calls : List Call} {k : Call}

/-- The fields that a call may change: a write changes its own field, and the memory of conflicts if this is a scalar field. -/
def Call.changes : Call → List Field
  | .beginRule _ => [.current, .appliedRules]
  | .endRule => [.current]
  | .write w => w.field :: (w.scalar?.map fun _ => .conflictMemory).toList

/-- A write leaves every other field as it was. -/
theorem content_write {w : Write} {f : Field} (h : f ∉ (Call.write w).changes) : (c.write w).content f = c.content f := by
  have hown : f ≠ w.field := fun heq => h (heq ▸ List.mem_cons_self)
  cases f with
  | project => exact (c.write_frame w).1
  | target => exact (c.write_frame w).2.1
  | list f =>
    have hvalues := c.values_write w f
    rwa [Write.values_eq_nil hown] at hvalues
  | defines f =>
    have hdefines := c.definesOf_write w f
    rwa [Write.definesOf_eq_nil hown] at hdefines
  | properties =>
    have hproperties := c.properties_write w
    rwa [Write.properties_eq_nil hown] at hproperties
  | scalar f =>
    have hscalar := c.scalar_write w f
    rwa [Write.value?_eq_none hown, Option.none_or] at hscalar
  | dependencies =>
    have hdependencies := c.dependencies_write w
    rwa [Write.dependencies_eq_nil hown, List.append_nil] at hdependencies
  | current => exact current_write c w
  | appliedRules => exact (c.write_frame w).2.2
  | conflictMemory =>
    have hnone : w.scalar? = none := by
      cases hw : w.scalar? with
      | none => rfl
      | some s => exact absurd (by simp [Call.changes, hw]) h
    obtain ⟨hlast, hconflicts⟩ := write_of_scalar?_eq_none (c := c) hnone
    exact Prod.ext hlast hconflicts

/-- A call leaves every other field as it was. -/
theorem content_call {f : Field} (h : f ∉ k.changes) : (c.call k).content f = c.content f := by
  cases k with
  | write w => exact content_write h
  | beginRule p =>
    cases f with
    | current | appliedRules => exact absurd (by simp [Call.changes]) h
    | list f | defines f | scalar f => cases f <;> rfl
    | _ => rfl
  | endRule =>
    cases f with
    | current => exact absurd (by simp [Call.changes]) h
    | list f | defines f | scalar f => cases f <;> rfl
    | _ => rfl

/-! ### All calls -/

/-- One more call is made on what the others came to. -/
theorem ofCalls_concat (project : String) (t : Target) (calls : List Call) (k : Call) :
    ofCalls project t (calls ++ [k]) = (ofCalls project t calls).call k :=
  List.foldl_append

/-- The rule that is being applied is the one that is active. -/
theorem current_ofCalls (project : String) (t : Target) (calls : List Call) :
    (ofCalls project t calls).current = Call.active calls := by
  induction calls using List.reverseRecOn with
  | nil => rfl
  | append_singleton calls k ih =>
    rw [ofCalls_concat, Call.active_concat, ← ih]
    cases k with
    | beginRule p => rfl
    | endRule => rfl
    | write w => exact current_write _ w

/-- After some calls a configuration holds what they write, in the names of the rules that are active. -/
theorem holds_ofCalls (project : String) (t : Target) (calls : List Call) :
    (ofCalls project t calls).Holds (Call.labelledWrites calls) := by
  induction calls using List.reverseRecOn with
  | nil => exact holds_initial project t
  | append_singleton calls k ih =>
    rw [ofCalls_concat, Call.labelledWrites_concat]
    cases k with
    | beginRule p => simpa [Call.write?, call, beginRule] using ih.withRules (some p) _
    | endRule => simpa [Call.write?, call, endRule] using ih.withRules none _
    | write w =>
      have hwrite := ih.write w
      rw [current_ofCalls] at hwrite
      exact hwrite

/-- Calls change neither the project nor the target, and the rules that they begin are listed. -/
theorem ofCalls_frame (project : String) (t : Target) (calls : List Call) :
    (ofCalls project t calls).project = project ∧ (ofCalls project t calls).target = t ∧
      (ofCalls project t calls).appliedRules = calls.filterMap Call.begun? := by
  induction calls using List.reverseRecOn with
  | nil => exact ⟨rfl, rfl, rfl⟩
  | append_singleton calls k ih =>
    obtain ⟨hproject, htarget, happlied⟩ := ih
    rw [ofCalls_concat, List.filterMap_append, ← happlied]
    cases k with
    | beginRule p => exact ⟨hproject, htarget, rfl⟩
    | endRule => exact ⟨hproject, htarget, (List.append_nil _).symm⟩
    | write w =>
      obtain ⟨hp, ht, ha⟩ := (ofCalls project t calls).write_frame w
      exact ⟨hp.trans hproject, ht.trans htarget, ha.trans (List.append_nil _).symm⟩

/-- A configuration of a project on a target follows the merge policies: after some calls, every field is what the calls that
are about it make of it. -/
structure Follows (c : Configuration) (project : String) (t : Target) (calls : List Call) : Prop where
  project : c.project = project
  target : c.target = t
  values : ∀ f, c.values f = ((Call.writes calls).flatMap (Write.values f)).eraseDups
  definesOf : ∀ f, (c.definesOf f).Records ((Call.writes calls).flatMap (Write.definesOf f))
  properties : c.properties.Records ((Call.writes calls).flatMap Write.properties)
  outputKind : c.outputKind = ((Call.writes calls).filterMap Write.outputKind?).getLast?.getD t.outputKind
  outputPath : c.outputPath = ((Call.writes calls).filterMap (Write.value? .outputPath)).getLast?
  intermediatePath : c.intermediatePath = ((Call.writes calls).filterMap (Write.value? .intermediatePath)).getLast?
  targetFileName : c.targetFileName = ((Call.writes calls).filterMap (Write.value? .targetFileName)).getLast?
  dependencies : c.dependencies = (Call.labelledWrites calls).flatMap fun e => e.2.dependencies e.1
  current : c.current = Call.active calls
  appliedRules : c.appliedRules = calls.filterMap Call.begun?

/-- A scalar field has the value that was written last, and before that the value it has at the start. -/
theorem scalar_ofCalls (project : String) (t : Target) (calls : List Call) (f : ScalarField) :
    (ofCalls project t calls).scalar f =
      ((Call.writes calls).filterMap (Write.value? f)).getLast?.or ((initial project t).scalar f) := by
  obtain ⟨hproject, htarget, -⟩ := ofCalls_frame project t calls
  have hscalar := (holds_ofCalls project t calls).scalar f
  rw [hproject, htarget] at hscalar
  rw [hscalar, ← Call.map_snd_labelledWrites, List.filterMap_map]
  rfl

/-- The output kind is the one that was written last, and before that the target's. -/
theorem outputKind_ofCalls (project : String) (t : Target) (calls : List Call) :
    (ofCalls project t calls).outputKind =
      ((Call.writes calls).filterMap Write.outputKind?).getLast?.getD t.outputKind := by
  have hscalar := scalar_ofCalls project t calls .outputKind
  have hnames : (Call.writes calls).filterMap (Write.value? .outputKind) =
      ((Call.writes calls).filterMap Write.outputKind?).map OutputKind.name := by
    rw [List.map_filterMap]
    exact List.filterMap_congr (fun w _ => w.value?_outputKind)
  rw [hnames, List.getLast?_map] at hscalar
  exact outputKind_of_scalar hscalar

/-- After any calls a configuration follows its merge policies. -/
theorem follows_ofCalls (project : String) (t : Target) (calls : List Call) :
    (ofCalls project t calls).Follows project t calls := by
  obtain ⟨hproject, htarget, happlied⟩ := ofCalls_frame project t calls
  have hholds := holds_ofCalls project t calls
  have hflat : ∀ {β : Type} (g : Write → List β),
      ((Call.labelledWrites calls).flatMap fun e => g e.2) = (Call.writes calls).flatMap g := by
    intro β g
    rw [← Call.map_snd_labelledWrites, List.flatMap_map]
  have hlast : ∀ f, (initial project t).scalar f = none →
      (ofCalls project t calls).scalar f = ((Call.writes calls).filterMap (Write.value? f)).getLast? := by
    intro f hf
    rw [scalar_ofCalls, hf, Option.or_none]
  exact {
    project := hproject
    target := htarget
    values := fun f => by rw [hholds.values, hflat, distinct_eq_eraseDups]
    definesOf := fun f => hflat (Write.definesOf f) ▸ hholds.definesOf f
    properties := hflat Write.properties ▸ hholds.properties
    outputKind := outputKind_ofCalls project t calls
    outputPath := hlast .outputPath rfl
    intermediatePath := hlast .intermediatePath rfl
    targetFileName := hlast .targetFileName rfl
    dependencies := hholds.dependencies
    current := current_ofCalls project t calls
    appliedRules := happlied }

/-- Applying rules comes down to calls. -/
theorem applyRules_eq_foldl_call (c : Configuration) (rules : List AppliedRule) :
    c.applyRules rules = (c.callsOf rules).foldl call c := by
  have hwrites : ∀ (ws : List Write) (c : Configuration), (ws.map Call.write).foldl call c = c.writeAll ws := by
    intro ws c
    rw [List.foldl_map]
    rfl
  unfold applyRules
  induction rules generalizing c with
  | nil => rfl
  | cons a rules ih =>
    rw [List.foldl_cons, ih, callsOf, List.foldl_cons, List.foldl_append, hwrites, List.foldl_cons]
    rfl

/-- The merge policies of configurations, for any calls on the configuration of a project on a target:

1. every field is what the calls that are about it make of it: a list has the first occurrences of its values, a keyed field its
   keys in the order in which they were defined first, each with its last value, a scalar field the last value or what it has at
   the start, and the dependencies are all there, each with the label of the rule that was active;
2. a call changes no field apart from its own and the memory of conflicts, and there is nothing in a configuration but its
   fields;
3. a function on the texts makes of every list of paths the first occurrences among its results for all that was written, and
   is applied to the last values of the keyed fields, under the same keys;
4. rules that are applied one after the other come down to such calls. -/
theorem merge_policies (project : String) (t : Target) (calls : List Call) :
    (ofCalls project t calls).Follows project t calls ∧
    (∀ (c : Configuration) (k : Call) f, f ∉ k.changes → (c.call k).content f = c.content f) ∧
    (∀ c d : Configuration, (∀ f, c.content f = d.content f) → c = d) ∧
    (∀ g : String → String,
      (∀ f, ((ofCalls project t calls).mapStrings g).values f =
        (((Call.writes calls).flatMap (Write.values f)).map (if f = .compilerOptions then id else g)).eraseDups) ∧
      (∀ f, (((ofCalls project t calls).mapStrings g).definesOf f).Records
        (((Call.writes calls).flatMap (Write.definesOf f)).map fun d => (d.1, d.2.map g))) ∧
      (((ofCalls project t calls).mapStrings g).properties).Records
        (((Call.writes calls).flatMap Write.properties).map fun e => (e.1, g e.2))) ∧
    ∀ rules, (initial project t).applyRules rules = ofCalls project t ((initial project t).callsOf rules) := by
  have hfollows := follows_ofCalls project t calls
  refine ⟨hfollows, fun c k f hf => content_call hf, fun c d h => ext_content h,
    fun g => ⟨fun f => ?_, fun f => ?_, ?_⟩, fun rules => applyRules_eq_foldl_call _ rules⟩
  · rw [← distinct_eq_eraseDups]
    exact values_mapStrings g ((hfollows.values f).trans (distinct_eq_eraseDups _).symm)
  · have hdefines := (hfollows.definesOf f).mapValues (Option.map g)
    cases f <;> exact hdefines
  · exact hfollows.properties.mapValues g

/-- Calls in a rule and outside of it, which write some values twice. -/
def loggingCalls : List Call := [
  .write (.includePath "core/[target.Platform]"),
  .beginRule ⟨"core", "logging", 0⟩,
  .write (.includePath "core/log"), .write (.includePath "core/[target.Platform]"),
  .write (.define "LEVEL=1"), .write (.define "LOG"), .write (.define "LEVEL = 2"),
  .write (.outputKind .dll), .write (.dependency "Log" .pub),
  .endRule,
  .write (.dependency "Texture" .priv)]

/-- The first include path keeps its place, the define has its last value in the first place, and only the dependency that is
declared in the rule has its label. A function that makes all paths equal leaves one. -/
theorem merge_policies_logging :
    (ofCalls "Core" {} loggingCalls).includePaths = ["core/[target.Platform]", "core/log"] ∧
    (ofCalls "Core" {} loggingCalls).defines.names = ["LEVEL", "LOG"] ∧
    (ofCalls "Core" {} loggingCalls).defines.lookup "LEVEL" = some (some "2") ∧
    (ofCalls "Core" {} loggingCalls).outputKind = .dll ∧
    (ofCalls "Core" {} loggingCalls).dependencies = [⟨"Log", .pub, "core/logging"⟩, ⟨"Texture", .priv, ""⟩] ∧
    ((ofCalls "Core" {} loggingCalls).mapStrings fun _ => "core").includePaths = ["core"] ∧
    ((ofCalls "Core" {} loggingCalls).call (.write (.outputPath "bin"))).content (.list .includePaths) =
      (ofCalls "Core" {} loggingCalls).content (.list .includePaths) := by
  obtain ⟨hfollows, hframe, -, hmap, -⟩ := merge_policies "Core" {} loggingCalls
  refine ⟨(hfollows.values .includePaths).trans (by decide), (hfollows.definesOf .defines).names.trans (by decide),
    ((hfollows.definesOf .defines).lookup "LEVEL").trans (by decide), hfollows.outputKind.trans (by decide),
    hfollows.dependencies.trans (by decide), ((hmap fun _ => "core").1 .includePaths).trans (by decide), ?_⟩
  exact hframe _ _ _ (by simp [Call.changes, Write.field, Write.scalar?])

end Configuration

end BuildPlan
