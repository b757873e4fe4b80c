import BuildPlan.Descriptor.Json
import BuildPlan.Proofs.Target.Json

/-!
# Reading descriptors back

Every descriptor is read back from its record (`Descriptor.ofJson?_members`): its lists, its defines and properties in their
order, whether a define is bare, and which of the paths and file names are set. Other members may stand among the fields, as
they do in a stream of records.
-/

namespace BuildPlan

namespace Defines

theorem sound_toJson (d : Defines) : (toJson d).Sound := by
  refine .obj (fun m hm => ?_)
  obtain ⟨e, -, rfl⟩ := List.mem_map.mp hm
  exact Json.sound_ofOption e.2

/-- Defines are read back in their order, the bare ones apart from those with an empty value. -/
theorem ofJson?_toJson (d : Defines) : ofJson? (toJson d) = some d := Json.keyed?_items d Json.nullable?_ofOption

end Defines

/-- The kind of a project is read as it was written. -/
theorem ProjectKind.ofJson?_name (k : ProjectKind) : ProjectKind.ofJson? (.str k.name) = some k := by
  cases k <;> rfl

namespace ExportedSettings

theorem sound_toJson (e : ExportedSettings) : e.toJson.Sound := by
  simp [toJson, Defines.sound_toJson]

/-- Exported settings are read as they were written. -/
theorem ofJson?_toJson (e : ExportedSettings) : ofJson? e.toJson = some e := by
  have hfields : Json.required? ["include_paths", "defines", "library_paths", "library_files"] e.toJson = some [
      Json.ofStrings e.includePaths, e.defines.toJson, Json.ofStrings e.libraryPaths, Json.ofStrings e.libraryFiles] :=
    Json.required?_eq [] (by decide) rfl (fun m hm => nomatch hm) rfl
  unfold ofJson?
  rw [hfields]
  simp [Json.strings?_ofStrings, Defines.ofJson?_toJson]

end ExportedSettings

namespace Descriptor

/-- The values of the fields of a descriptor in order. -/
def values (d : Descriptor) : List (Option Json) := [
  some (.str d.project), some (.str d.target), some (.str d.configuration), some (.str d.kind.name),
  some (.str d.outputKind.name), d.outputPath.map Json.str, d.intermediatePath.map Json.str, d.targetFileName.map Json.str,
  some (Json.ofStrings d.includePaths), some d.defines.toJson, some (Json.ofStrings d.libraryPaths),
  some (Json.ofStrings d.libraryFiles), some (Json.ofStrings d.compilerOptions),
  some (.obj (d.properties.items.map (fun e => (e.1, Json.str e.2)))), some (Json.ofStrings d.dependencies),
  some d.exports.toJson, some (Json.ofStrings d.appliedRules)]

/-- A descriptor is written member by member, under the names of its fields. -/
theorem members_eq (d : Descriptor) : d.members = Json.fieldMembers (fieldNames.zip d.values) := by
  unfold members values fieldNames textMember
  cases d.outputPath <;> cases d.intermediatePath <;> cases d.targetFileName <;> rfl

theorem sound_of_mem_members {d : Descriptor} {m : String × Json} (hm : m ∈ d.members) : m.2.Sound := by
  have hproperties : (Json.obj (d.properties.items.map (fun e => (e.1, Json.str e.2)))).Sound := by
    refine .obj (fun m hm => ?_)
    obtain ⟨e, -, rfl⟩ := List.mem_map.mp hm
    exact .str e.2
  have hvalues : ∀ v ∈ d.values, ∀ j, v = some j → j.Sound := by
    simp [values, hproperties, Defines.sound_toJson, ExportedSettings.sound_toJson]
  rw [members_eq] at hm
  exact Json.sound_of_mem_fieldMembers hvalues hm

theorem sound_toJson (d : Descriptor) : d.toJson.Sound := .obj (fun _ hm => sound_of_mem_members hm)

/-- A descriptor is read back from its members, whatever others there are. -/
theorem ofJson?_members (d : Descriptor) (others : List (String × Json))
    (hothers : ∀ m ∈ others, m.1 ∉ fieldNames.map Prod.fst) : ofJson? (.obj (others ++ d.members)) = some d := by
  have hfields : Json.fields? fieldNames (.obj (others ++ d.members)) = some d.values :=
    Json.fields?_eq others (by decide) rfl rfl hothers (by rw [members_eq])
  have hproperties : Json.keyed? Json.str? (.obj (d.properties.items.map (fun e => (e.1, Json.str e.2)))) =
      some d.properties := Json.keyed?_items d.properties (fun _ => rfl)
  unfold ofJson?
  rw [hfields, values, Option.bind_eq_bind, Option.bind_some]
  dsimp only
  simp only [ProjectKind.ofJson?_name, OutputKind.ofJson?_name, Json.absentOr?_str?, Json.strings?_ofStrings,
    Defines.ofJson?_toJson, hproperties, ExportedSettings.ofJson?_toJson]
  rfl

/-- Descriptors are read back in their order. -/
theorem mapM_ofJson?_toJson (descriptors : List Descriptor) : (descriptors.map toJson).mapM ofJson? = some descriptors :=
  mapM_map_eq_self (fun d _ => d.ofJson?_members [] (fun _ hm => nomatch hm))

end Descriptor

end BuildPlan
