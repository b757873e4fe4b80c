import BuildPlan.Digest
import BuildPlan.Descriptor.Json
import BuildPlan.Json.Printer
import BuildPlan.Json.Reader
import BuildPlan.Plan

/-!
# Emission

What the build executor gets: for every target that was resolved the descriptors of its projects, every project after its
dependencies, with a fingerprint of them. Nothing is merged here. A target is emitted only if each project of its order
has a descriptor and every dependency of a descriptor is emitted before it.

The whole is one JSON document (`ExecutorInput.document`), or a stream of records with one JSON object on each line
(`ExecutorInput.lines`).
-/

namespace BuildPlan

/-- The descriptors of one target in dependency order. -/
structure TargetPlan where
  /-- The key of the target. -/
  key : String
  target : Target
  order : List String
  /-- The digest of the descriptors as they are written. -/
  fingerprint : String
  descriptors : List Descriptor
  deriving DecidableEq

/-- Everything that the build executor needs. -/
structure ExecutorInput where
  formatVersion : UInt32 := 1
  solution : Option String := none
  startupProject : Option String := none
  targets : List TargetPlan := []
  deriving DecidableEq

/-! ### Emitting a plan -/

namespace TargetPlan

/-- The text of a list of descriptors from which their fingerprint is made. -/
def descriptorText (descriptors : List Descriptor) : String :=
  (Json.arr (descriptors.map Descriptor.toJson)).compact

/-- The fingerprint of a list of descriptors. -/
def fingerprintOf (descriptors : List Descriptor) : String := Digest.ofText (descriptorText descriptors)

/-- The first descriptor of each project of an order; the first project without one is an error. -/
def select (t : Target) (descriptors : List Descriptor) : List String → Except BuildError (List Descriptor)
  | [] => .ok []
  | name :: rest =>
    match descriptors.find? (fun d => d.project == name && d.target == t.key) with
    | none => .error (.incompleteDescriptor name name t)
    | some d => do
      let more ← select t descriptors rest
      return d :: more

/-- The first dependency of a descriptor that is not emitted before it is an error. -/
def checkDependencies (t : Target) (emitted : List String) : List Descriptor → Except BuildError Unit
  | [] => .ok ()
  | d :: rest =>
    match d.dependencies.find? (fun dep => !emitted.contains dep) with
    | some dep => .error (.incompleteDescriptor d.project dep t)
    | none => checkDependencies t (d.project :: emitted) rest

/-- The plan of a target, an order and the descriptors to choose from. -/
def ofOrder (t : Target) (order : List String) (descriptors : List Descriptor) : Except BuildError TargetPlan := do
  let selected ← select t descriptors order
  checkDependencies t [] selected
  return { key := t.key, target := t, order, fingerprint := fingerprintOf selected, descriptors := selected }

end TargetPlan

namespace ExecutorInput

/-- The version of the layout that is written. -/
def currentVersion : UInt32 := 1

/-- The plans of some resolutions. -/
def plansOf : List Resolution → Except BuildError (List TargetPlan)
  | [] => .ok []
  | r :: rest => do
    let plan ← TargetPlan.ofOrder r.target r.order r.descriptors
    let more ← plansOf rest
    return plan :: more

/-- The input of all targets that a plan has resolved. -/
def ofOutcome (o : PlanOutcome) : Except BuildError ExecutorInput := do
  let targets ← plansOf o.resolutions
  return { formatVersion := currentVersion, solution := o.solution, startupProject := o.startupProject, targets }

end ExecutorInput

/-! ### As one document -/

namespace TargetPlan

/-- The record of a target plan. -/
def toJson (p : TargetPlan) : Json :=
  .obj [
    ("key", .str p.key), ("target", p.target.toJson), ("order", Json.ofStrings p.order),
    ("fingerprint", .str p.fingerprint), ("descriptors", .arr (p.descriptors.map Descriptor.toJson))]

/-- The target plan of a record. -/
def ofJson? (j : Json) : Option TargetPlan := do
  match ← Json.required? ["key", "target", "order", "fingerprint", "descriptors"] j with
  | [key, target, order, fingerprint, descriptors] =>
    return {
      key := ← key.str?
      target := ← Target.ofJson? target
      order := ← Json.strings? order
      fingerprint := ← fingerprint.str?
      descriptors := ← descriptors.arr?.bind (fun l => l.mapM Descriptor.ofJson?) }
  | _ => none

end TargetPlan

namespace ExecutorInput

/-- The record of an input. A solution and a startup project that are absent are left out. -/
def toJson (x : ExecutorInput) : Json :=
  .obj (
    [("format_version", .int x.formatVersion.toNat)] ++ Descriptor.textMember "solution" x.solution ++
      Descriptor.textMember "startup_project" x.startupProject ++
      [("targets", .arr (x.targets.map TargetPlan.toJson))])

/-- The input of a record. -/
def ofJson? (j : Json) : Option ExecutorInput := do
  match ← Json.fields? [("format_version", .required), ("solution", .optional), ("startup_project", .optional),
      ("targets", .required)] j with
  | [some version, solution, startupProject, some targets] =>
    return {
      formatVersion := ← (version.natBelow? UInt32.size).map UInt32.ofNat
      solution := ← Json.absentOr? Json.str? solution
      startupProject := ← Json.absentOr? Json.str? startupProject
      targets := ← targets.arr?.bind (fun l => l.mapM TargetPlan.ofJson?) }
  | _ => none

/-- The input as a JSON document. -/
def document (x : ExecutorInput) : String := x.toJson.pretty

/-- The input of a JSON document. -/
def ofText (s : String) : Except BuildError ExecutorInput :=
  match (Json.ofText? s).bind ofJson? with
  | some x => .ok x
  | none => .error .malformedText

end ExecutorInput

/-! ### As a stream of records -/

/-- A record of the stream. -/
inductive EmissionEvent
  /-- A target starts. -/
  | target (key : String) (order : List String) (fingerprint : String)
  /-- One project of the target. -/
  | descriptor (d : Descriptor)
  deriving DecidableEq

/-- The JSON object of a record: what happens is its first member. -/
def EmissionEvent.toJson : EmissionEvent → Json
  | target key order fingerprint =>
    .obj [
      ("event", .str "target"), ("key", .str key), ("order", Json.ofStrings order), ("fingerprint", .str fingerprint)]
  | descriptor d => .obj (("event", .str "descriptor") :: d.members)

/-- The records of a target. -/
def TargetPlan.events (p : TargetPlan) : List EmissionEvent :=
  .target p.key p.order p.fingerprint :: p.descriptors.map .descriptor

namespace ExecutorInput

/-- The records of an input, target by target. -/
def events (x : ExecutorInput) : List EmissionEvent := x.targets.flatMap TargetPlan.events

/-- The records with one JSON object on each line. -/
def lines (x : ExecutorInput) : String := Text.join "" (x.events.map (fun e => e.toJson.compact ++ "\n"))

end ExecutorInput

end BuildPlan
