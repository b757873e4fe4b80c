import BuildPlan.Emission
import BuildPlan.Proofs.Descriptor.Json
import BuildPlan.Proofs.Json.Reader

/-!
# Reading the document back

The input of the executor is read back from its document: every text, the descriptors with the order of their defines and
properties, what is bare and what is absent. Only a platform or an environment that is kept by a built-in name is read as the
built-in one, so exactly the inputs whose targets are canonical are read back as they are (`document_read_back`).
-/

namespace BuildPlan

namespace TargetPlan

/-- The target plan with its target recognized. -/
def recognized (p : TargetPlan) : TargetPlan := { p with target := p.target.recognized }

theorem sound_toJson (p : TargetPlan) : p.toJson.Sound := by
  simp [toJson, Target.sound_toJson, Descriptor.sound_toJson]

/-- A target that is written is read with its names recognized. -/
theorem ofJson?_toJson (p : TargetPlan) : ofJson? p.toJson = some p.recognized := by
  have hfields : Json.required? ["key", "target", "order", "fingerprint", "descriptors"] p.toJson = some [
      .str p.key, p.target.toJson, Json.ofStrings p.order, .str p.fingerprint,
      .arr (p.descriptors.map Descriptor.toJson)] :=
    Json.required?_eq [] (by decide) rfl (fun m hm => nomatch hm) rfl
  unfold ofJson?
  rw [hfields]
  simp [Json.str?, Json.arr?, Json.strings?_ofStrings, Target.ofJson?_toJson, Descriptor.mapM_ofJson?_toJson,
    -List.mapM_map, recognized]

end TargetPlan

namespace ExecutorInput

/-- The input with its targets recognized. -/
def recognized (x : ExecutorInput) : ExecutorInput := { x with targets := x.targets.map TargetPlan.recognized }

/-- An input is read as itself exactly if its targets are canonical. -/
theorem recognized_eq_self_iff (x : ExecutorInput) : x.recognized = x ↔ ∀ p ∈ x.targets, p.target.Canonical := by
  have hplan : ∀ p : TargetPlan, p.recognized = p ↔ p.target.Canonical := by
    intro p
    rw [← p.target.recognized_eq_self_iff]
    exact ⟨fun h => congrArg TargetPlan.target h, fun h => by rw [TargetPlan.recognized, h]⟩
  constructor
  · intro h p hp
    have htargets : x.targets.map TargetPlan.recognized = x.targets.map id :=
      (congrArg targets h).trans (List.map_id _).symm
    exact (hplan p).mp (List.map_inj_left.mp htargets p hp)
  · intro h
    have htargets : x.targets.map TargetPlan.recognized = x.targets.map id :=
      List.map_inj_left.mpr (fun p hp => (hplan p).mpr (h p hp))
    rw [recognized, htargets, List.map_id]

/-- The fields of an input in order. -/
def fieldNames : List (String × Json.Presence) := [
  ("format_version", .required), ("solution", .optional), ("startup_project", .optional), ("targets", .required)]

/-- The values of the fields in order. -/
def values (x : ExecutorInput) : List (Option Json) := [
  some (.int x.formatVersion.toNat), x.solution.map Json.str, x.startupProject.map Json.str,
  some (.arr (x.targets.map TargetPlan.toJson))]

/-- An input is written member by member, under the names of its fields. -/
theorem toJson_eq (x : ExecutorInput) : x.toJson = .obj (Json.fieldMembers (fieldNames.zip x.values)) := by
  unfold toJson values fieldNames Descriptor.textMember
  cases x.solution <;> cases x.startupProject <;> rfl

theorem sound_toJson (x : ExecutorInput) : x.toJson.Sound := by
  have htargets : (Json.arr (x.targets.map TargetPlan.toJson)).Sound := by
    refine .arr (fun j hj => ?_)
    obtain ⟨p, -, rfl⟩ := List.mem_map.mp hj
    exact p.sound_toJson
  have hvalues : ∀ v ∈ x.values, ∀ j, v = some j → j.Sound := by
    simp [values, htargets]
  rw [toJson_eq]
  exact .obj (fun _ hm => Json.sound_of_mem_fieldMembers hvalues hm)

/-- An input that is written is read with the names of its targets recognized. -/
theorem ofJson?_toJson (x : ExecutorInput) : ofJson? x.toJson = some x.recognized := by
  have hfields : Json.fields? fieldNames x.toJson = some x.values :=
    Json.fields?_eq [] (by decide) rfl rfl (fun m hm => nomatch hm) x.toJson_eq
  have htargets : (x.targets.map TargetPlan.toJson).mapM TargetPlan.ofJson? = some (x.targets.map TargetPlan.recognized) :=
    mapM_map_eq_some (fun p _ => p.ofJson?_toJson)
  have hversion : (Json.int x.formatVersion.toNat).natBelow? UInt32.size = some x.formatVersion.toNat :=
    if_pos x.formatVersion.toNat_lt
  unfold fieldNames at hfields
  unfold ofJson?
  rw [hfields]
  simp [values, hversion, Json.absentOr?_str?, Json.arr?, htargets, recognized]

/-- The document of an input is read as the input with its targets recognized. -/
theorem ofText_document (x : ExecutorInput) : ofText x.document = .ok x.recognized := by
  have hread : (Json.ofText? x.document).bind ofJson? = some x.recognized := by
    rw [document, Json.ofText?_pretty x.sound_toJson, Option.bind_some, ofJson?_toJson]
  rw [ofText, hread]

/-- A line feed after the document makes no difference. -/
theorem ofText_document_lineFeed (x : ExecutorInput) : ofText (x.document ++ "\n") = .ok x.recognized := by
  have hread : (Json.ofText? (x.document ++ "\n")).bind ofJson? = some x.recognized := by
    rw [document, Json.ofText?_pretty_lineFeed x.sound_toJson, Option.bind_some, ofJson?_toJson]
  rw [ofText, hread]

end ExecutorInput

/-- The document of any input is read, and it is read as the very same input exactly if the targets are canonical: none of
them has a platform or an environment that is kept by a name which in lowercase is that of a built-in one. -/
theorem document_read_back (x : ExecutorInput) :
    (∃ y, ExecutorInput.ofText x.document = .ok y) ∧
      (ExecutorInput.ofText x.document = .ok x ↔ ∀ p ∈ x.targets, p.target.Canonical) := by
  refine ⟨⟨x.recognized, x.ofText_document⟩, ?_⟩
  rw [x.ofText_document, Except.ok.injEq, x.recognized_eq_self_iff]

/-- A descriptor with a bare define and one with an empty value. -/
def consoleDescriptor : Descriptor where
  project := "Core"
  target := "console-make-debug-lib-editor-ninja"
  configuration := "Debug_Editor"
  kind := .generate
  outputKind := .lib
  outputPath := some ""
  includePaths := ["\"quoted\" path\n"]
  defines := Catalog.ofList [("BARE", none), ("EMPTY", some "")]
  libraryPaths := []
  libraryFiles := []
  compilerOptions := []
  properties := Catalog.ofList [("z", "1"), ("a", "2")]
  dependencies := []
  exports := {}
  appliedRules := []

/-- A target plan for a platform without a constructor. -/
def consolePlan : TargetPlan where
  key := "console-make-debug-lib-editor-ninja"
  target := { platform := .custom "console", devEnv := .make, buildSystem := .ninja }
  order := ["Core"]
  fingerprint := ""
  descriptors := [consoleDescriptor]

theorem document_read_back_console :
    ExecutorInput.ofText (ExecutorInput.document { targets := [consolePlan] }) = .ok { targets := [consolePlan] } := by
  refine (document_read_back { targets := [consolePlan] }).2.mpr (fun p hp => ?_)
  rw [List.mem_singleton.mp hp]
  refine ⟨fun n hn => ?_, fun n hn => nomatch hn⟩
  cases hn
  decide

end BuildPlan
