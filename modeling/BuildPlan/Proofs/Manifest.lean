import BuildPlan.Loading
import BuildPlan.Proofs.Catalog

/-!
# Merging manifests

A fragment that is merged adds its entries after those that are there and changes nothing else (`Manifest.gains_of_merge`).
Several fragments that are merged one after the other add the entries of all, in their order (`Manifest.Gains.trans`).
-/

namespace BuildPlan

namespace Manifest

variable {m m' m'' part : Manifest} {parts more : List Manifest} {file text : String}

/-- A manifest that has gained the entries of some parts, one after the other. -/
structure Gains (m : Manifest) (parts : List Manifest) (m' : Manifest) : Prop where
  ruleSets : m'.ruleSets = m.ruleSets ++ parts.flatMap Manifest.ruleSets
  projects : m'.projects = m.projects ++ parts.flatMap Manifest.projects
  solutions : m'.solutions = m.solutions ++ parts.flatMap Manifest.solutions
  presets : m'.presets.items = m.presets.items ++ parts.flatMap (fun part => part.presets.items)
  includes : m'.includes = m.includes
  workspace : m'.workspace = m.workspace
  /-- A part has no table for the workspace. -/
  parts_workspace : ∀ part ∈ parts, part.workspace = none

theorem Gains.refl (m : Manifest) : m.Gains [] m where
  ruleSets := (List.append_nil _).symm
  projects := (List.append_nil _).symm
  solutions := (List.append_nil _).symm
  presets := (List.append_nil _).symm
  includes := rfl
  workspace := rfl
  parts_workspace _ hpart := absurd hpart List.not_mem_nil

theorem Gains.trans (h : m.Gains parts m') (h' : m'.Gains more m'') : m.Gains (parts ++ more) m'' where
  ruleSets := by rw [h'.ruleSets, h.ruleSets, List.flatMap_append, List.append_assoc]
  projects := by rw [h'.projects, h.projects, List.flatMap_append, List.append_assoc]
  solutions := by rw [h'.solutions, h.solutions, List.flatMap_append, List.append_assoc]
  presets := by rw [h'.presets, h.presets, List.flatMap_append, List.append_assoc]
  includes := h'.includes.trans h.includes
  workspace := h'.workspace.trans h.workspace
  parts_workspace part hpart := (List.mem_append.mp hpart).elim (h.parts_workspace part) (h'.parts_workspace part)

/-- Presets that are merged without a fault stand after those that are there. -/
theorem items_of_mergePresets {presets presets' : Keyed AxisNames} {items : List (String × AxisNames)}
    (h : mergePresets file presets items = (none, presets')) : presets'.items = presets.items ++ items := by
  induction items generalizing presets with
  | nil =>
    cases h
    exact (List.append_nil _).symm
  | cons item items ih =>
    obtain ⟨name, axes⟩ := item
    unfold mergePresets at h
    split at h
    · cases h
    · rename_i hnew
      have hput : (presets.set name axes).items = presets.items ++ [(name, axes)] :=
        Catalog.items_put_of_new (fun hmem => hnew (List.contains_iff_mem.mpr hmem))
      rw [ih h, hput, List.append_assoc, List.singleton_append]

/-- A fragment that is merged without a fault has no table for the workspace, and its entries are gained. -/
theorem gains_of_merge (h : m.merge part file = (none, m')) : m.Gains [part] m' := by
  unfold merge at h
  split at h
  · cases h
  · rename_i hworkspace
    split at h
    · cases h
    · rename_i presets hpresets
      cases h
      exact {
        ruleSets := by rw [List.flatMap_singleton]
        projects := by rw [List.flatMap_singleton]
        solutions := by rw [List.flatMap_singleton]
        presets := by rw [List.flatMap_singleton]; exact items_of_mergePresets hpresets
        includes := rfl
        workspace := rfl
        parts_workspace := fun p hp => by
          rw [List.mem_singleton.mp hp]
          exact Option.not_isSome_iff_eq_none.mp hworkspace }

/-! ### Manifests of texts -/

/-- What a text declares does not depend on where it comes from. -/
theorem ofText_eq_ok_iff (file file' : String) : ofText file text = .ok m ↔ ofText file' text = .ok m := by
  unfold ofText
  cases (Toml.ofText? text).bind ofToml? with
  | none => exact ⟨fun h => (nomatch h), fun h => (nomatch h)⟩
  | some part => exact Iff.rfl

/-- All entries of a manifest are declared in a file. -/
structure DeclaredIn (m : Manifest) (file : String) : Prop where
  ruleSets : ∀ r ∈ m.ruleSets, r.origin = some file
  projects : ∀ p ∈ m.projects, p.origin = some file
  solutions : ∀ s ∈ m.solutions, s.origin = some file

theorem declaredIn_withOrigin (m : Manifest) (file : String) : (m.withOrigin file).DeclaredIn file where
  ruleSets r hr := by
    obtain ⟨_, -, rfl⟩ := List.mem_map.mp hr
    rfl
  projects p hp := by
    obtain ⟨_, -, rfl⟩ := List.mem_map.mp hp
    rfl
  solutions s hs := by
    obtain ⟨_, -, rfl⟩ := List.mem_map.mp hs
    rfl

end Manifest

end BuildPlan
