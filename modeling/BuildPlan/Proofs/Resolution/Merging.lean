import BuildPlan.Proofs.Catalog.History
import BuildPlan.Proofs.Resolution.Conflicts
import BuildPlan.Proofs.Target.Key

/-!
# What a configuration makes of some writes

Whatever is written to a configuration, in rules or outside of them, it is known by the list of its writes (`Holds`, kept by
every write): a list field has the first occurrences of its values, a keyed field the keys in the order in which they came
first, each with its last value, a scalar field the last value, and the dependencies are all there. Where a function is applied
to the texts, the values of a list are those that it makes of all that was written (`values_mapStrings`).
-/

namespace BuildPlan

/-! ### Fields -/

/-- The fields that list values, each of them once. -/
inductive ListField
  | includePaths
  | privateIncludePaths
  | libraryPaths
  | libraryFiles
  | compilerOptions
  deriving DecidableEq

/-- The fields that hold defines: those of the project alone and those that its consumers get as well. -/
inductive DefineField
  | defines
  | exportDefines
  deriving DecidableEq

namespace Configuration

/-- The values of a list field. -/
def values (c : Configuration) : ListField → List String
  | .includePaths => c.includePaths
  | .privateIncludePaths => c.privateIncludePaths
  | .libraryPaths => c.libraryPaths
  | .libraryFiles => c.libraryFiles
  | .compilerOptions => c.compilerOptions

/-- The defines of a field. -/
def definesOf (c : Configuration) : DefineField → Defines
  | .defines => c.defines
  | .exportDefines => c.exportDefines

/-- The value of a scalar field as a text, if it has one. -/
def scalar (c : Configuration) : ScalarField → Option String
  | .outputKind => some c.outputKind.name
  | .outputPath => c.outputPath
  | .intermediatePath => c.intermediatePath
  | .targetFileName => c.targetFileName

end Configuration

namespace Write

/-- The values that a write adds to a list field. -/
def values : ListField → Write → List String
  | .includePaths, .includePath p => [p]
  | .privateIncludePaths, .privateIncludePath p => [p]
  | .libraryPaths, .libraryPath p => [p]
  | .libraryFiles, .libraryFiles fs => fs
  | .compilerOptions, .compilerOption o => [o]
  | _, _ => []

/-- The defines that a write sets in a field. -/
def definesOf : DefineField → Write → List (String × Option String)
  | .defines, .define d => [parseDefine d]
  | .exportDefines, .exportDefine d => [parseDefine d]
  | _, _ => []

/-- The properties that a write sets. -/
def properties : Write → List (String × String)
  | .property k v => [(k, v)]
  | _ => []

/-- The dependencies that a write declares, in the name of a rule. -/
def dependencies (label : String) : Write → List DeclaredDependency
  | .dependency p v => [⟨p, v, label⟩]
  | _ => []

end Write

/-! ### One write -/

namespace Configuration

variable {c : Configuration}

/-- The writer of a scalar field is remembered without any change to what was written. -/
theorem recordScalar_eq (c : Configuration) (f : ScalarField) (v : String) :
    c.recordScalar f v =
      { c with conflicts := (c.recordScalar f v).conflicts, lastWrite := (c.recordScalar f v).lastWrite } := by
  unfold recordScalar
  split
  · rfl
  · rfl

/-- A write adds its values to a list field, each once. -/
theorem values_write (c : Configuration) (w : Write) (f : ListField) :
    (c.write w).values f = addAll (c.values f) (w.values f) := by
  have hrecord : ∀ g v, (c.recordScalar g v).values f = c.values f := by
    intro g v
    rw [recordScalar_eq]
    cases f <;> rfl
  cases w with
  | outputKind | outputPath | intermediatePath | targetFileName => cases f <;> exact hrecord _ _
  | _ => cases f <;> rfl

/-- A write puts its symbols into a define field. -/
theorem definesOf_write (c : Configuration) (w : Write) (f : DefineField) :
    (c.write w).definesOf f = (w.definesOf f).foldl Catalog.put (c.definesOf f) := by
  have hrecord : ∀ g v, (c.recordScalar g v).definesOf f = c.definesOf f := by
    intro g v
    rw [recordScalar_eq]
    cases f <;> rfl
  cases w with
  | outputKind | outputPath | intermediatePath | targetFileName => cases f <;> exact hrecord _ _
  | _ => cases f <;> rfl

/-- A write puts its properties in. -/
theorem properties_write (c : Configuration) (w : Write) :
    (c.write w).properties = w.properties.foldl Catalog.put c.properties := by
  have hrecord : ∀ g v, (c.recordScalar g v).properties = c.properties := by
    intro g v
    rw [recordScalar_eq]
  cases w with
  | outputKind | outputPath | intermediatePath | targetFileName => exact hrecord _ _
  | _ => rfl

/-- A write replaces the scalar it is of. -/
theorem scalar_write (c : Configuration) (w : Write) (f : ScalarField) :
    (c.write w).scalar f = (w.value? f).or (c.scalar f) := by
  have hrecord : ∀ g v, (c.recordScalar g v).scalar f = c.scalar f := by
    intro g v
    rw [recordScalar_eq]
    cases f <;> rfl
  cases w with
  | outputKind k => cases f with
    | outputKind => rfl
    | _ => exact hrecord .outputKind k.name
  | outputPath p => cases f with
    | outputPath => rfl
    | _ => exact hrecord .outputPath p
  | intermediatePath p => cases f with
    | intermediatePath => rfl
    | _ => exact hrecord .intermediatePath p
  | targetFileName n => cases f with
    | targetFileName => rfl
    | _ => exact hrecord .targetFileName n
  | _ => cases f <;> rfl

/-- A write adds its dependencies behind the others, with the label of the active rule. -/
theorem dependencies_write (c : Configuration) (w : Write) :
    (c.write w).dependencies = c.dependencies ++ w.dependencies ((c.current.map Provenance.label).getD "") := by
  have hrecord : ∀ g v, (c.recordScalar g v).dependencies = c.dependencies := by
    intro g v
    rw [recordScalar_eq]
  cases w with
  | dependency => rfl
  | outputKind | outputPath | intermediatePath | targetFileName => exact (hrecord _ _).trans (List.append_nil _).symm
  | _ => exact (List.append_nil _).symm

/-- The output kind is known from its name. -/
theorem outputKind_of_scalar {last : Option OutputKind} {k : OutputKind}
    (h : c.scalar .outputKind = (last.map OutputKind.name).or (some k.name)) : c.outputKind = last.getD k := by
  refine OutputKind.name_injective (Option.some.inj (h.trans ?_))
  cases last <;> rfl

/-! ### All writes -/

/-- A configuration is what its writes make of it: every field is known from the writes so far, each of which stands with the
label of the rule that made it. -/
structure Holds (c : Configuration) (log : List (String × Write)) : Prop where
  values : ∀ f, c.values f = distinct (log.flatMap fun e => e.2.values f)
  definesOf : ∀ f, (c.definesOf f).Records (log.flatMap fun e => e.2.definesOf f)
  properties : c.properties.Records (log.flatMap fun e => e.2.properties)
  scalar : ∀ f, c.scalar f = ((log.filterMap fun e => e.2.value? f).getLast?).or ((initial c.project c.target).scalar f)
  dependencies : c.dependencies = log.flatMap fun e => e.2.dependencies e.1

/-- At the beginning nothing was written. -/
theorem holds_initial (project : String) (t : Target) : Holds (initial project t) [] where
  values := fun f => by cases f <;> rfl
  definesOf := fun f => by cases f <;> exact Keyed.Records.empty
  properties := Keyed.Records.empty
  scalar := fun _ => rfl
  dependencies := rfl

namespace Holds

variable {log : List (String × Write)}

/-- A write comes after all that was written before it. -/
theorem write (h : Holds c log) (w : Write) :
    Holds (c.write w) (log ++ [((c.current.map Provenance.label).getD "", w)]) where
  values := by
    intro f
    rw [values_write, h.values, List.flatMap_append, List.flatMap_singleton, distinct_append]
  definesOf := by
    intro f
    rw [definesOf_write, List.flatMap_append, List.flatMap_singleton]
    exact (h.definesOf f).setAll _
  properties := by
    rw [properties_write, List.flatMap_append, List.flatMap_singleton]
    exact h.properties.setAll _
  scalar := by
    intro f
    obtain ⟨hproject, htarget, -⟩ := c.write_frame w
    rw [scalar_write, h.scalar, hproject, htarget, List.filterMap_append]
    cases hv : w.value? f with
    | none => simp [hv]
    | some v => simp [hv]
  dependencies := by
    rw [dependencies_write, h.dependencies, List.flatMap_append, List.flatMap_singleton]

/-- The writes of a rule are held behind those before them. -/
theorem writeAll (h : Holds c log) (ws : List Write) :
    Holds (c.writeAll ws) (log ++ ws.map (fun w => ((c.current.map Provenance.label).getD "", w))) := by
  unfold Configuration.writeAll
  induction ws generalizing c log with
  | nil => simpa using h
  | cons w ws ih =>
    have hrest := ih (h.write w)
    rw [current_write, List.append_assoc, List.singleton_append] at hrest
    exact hrest

/-- Which rule is being applied and which were applied before does not change what was written. -/
theorem withRules (h : Holds c log) (current : Option Provenance) (appliedRules : List String) :
    Holds { c with current, appliedRules } log where
  values := by
    intro f
    rw [← h.values f]
    cases f <;> rfl
  definesOf := by
    intro f
    have hf := h.definesOf f
    cases f <;> exact hf
  properties := h.properties
  scalar := by
    intro f
    have hf := h.scalar f
    cases f <;> exact hf
  dependencies := h.dependencies

/-- A rule writes in its own name. -/
theorem applyRule (h : Holds c log) (a : AppliedRule) :
    Holds (c.applyRule a) (log ++ (a.2 (c.beginRule a.1)).map (fun w => (a.1.label, w))) := by
  have hbegin : Holds (c.beginRule a.1) log := h.withRules (some a.1) (c.appliedRules ++ [a.1.label])
  exact (hbegin.writeAll (a.2 (c.beginRule a.1))).withRules none _

end Holds

/-- The writes of some rules in order, each with the label of its rule. -/
def ruleLog (c : Configuration) : List AppliedRule → List (String × Write)
  | [] => []
  | a :: rest => (a.2 (c.beginRule a.1)).map (fun w => (a.1.label, w)) ++ ruleLog (c.applyRule a) rest

/-- A run of rules leaves what all of them write. -/
theorem Holds.applyRules {log : List (String × Write)} (h : Holds c log) (rules : List AppliedRule) :
    Holds (c.applyRules rules) (log ++ c.ruleLog rules) := by
  unfold Configuration.applyRules
  induction rules generalizing c log with
  | nil => simpa [ruleLog] using h
  | cons a rules ih =>
    have hrest := ih (h.applyRule a)
    rw [List.append_assoc] at hrest
    exact hrest

/-! ### A function on the texts -/

/-- A function on the texts is applied to the values of a list, compiler options apart. It does not matter that they have been
made distinct before: what the function makes equal is one value. -/
theorem values_mapStrings {f : ListField} {l : List String} (g : String → String) (h : c.values f = distinct l) :
    (c.mapStrings g).values f = distinct (l.map (if f = .compilerOptions then id else g)) := by
  cases f with
  | compilerOptions =>
    rw [if_pos rfl, List.map_id, ← h]
    rfl
  | _ =>
    rw [if_neg (fun h => nomatch h), ← distinct_map_distinct, ← h]
    rfl

end Configuration

end BuildPlan
