import BuildPlan.Store
import Mathlib.Data.List.Nodup
import Mathlib.Data.List.Perm.Basic

/-!
# What a store holds

A store is known by what it gives for each key: stores without a repeated key that give the same descriptors hold the same
entries (`DescriptorStore.entries_perm`).
-/

namespace BuildPlan.DescriptorStore

variable {s s' : DescriptorStore} {x : String} {t : Target} {e : Descriptor}

theorem get?_empty (x : String) (t : Target) : ({} : DescriptorStore).get? x t = none := rfl

/-- The projects and targets that have a descriptor. -/
def keys (s : DescriptorStore) : List (String × Target) := s.entries.map Prod.fst

/-- The store has no descriptor of a project and a target exactly if they are no key of it. -/
theorem get?_eq_none_iff : s.get? x t = none ↔ (x, t) ∉ s.keys := by
  unfold get? keys
  rw [List.lookup_eq_none_iff, List.mem_map]
  constructor
  · rintro h ⟨entry, hentry, hkey⟩
    have hne := h entry hentry
    rw [hkey] at hne
    simp at hne
  · intro h entry hentry
    rw [bne_iff_ne]
    exact fun hkey => h ⟨entry, hentry, hkey.symm⟩

/-- The keys are the projects and targets with a descriptor. -/
theorem mem_keys_iff : (x, t) ∈ s.keys ↔ ∃ e, s.get? x t = some e := by
  rw [← not_iff_not, ← get?_eq_none_iff, ← Option.ne_none_iff_exists', not_not]

/-- What is found in the store is an entry of it. -/
theorem mem_entries_of_get? (h : s.get? x t = some e) : ((x, t), e) ∈ s.entries := by
  obtain ⟨l₁, l₂, hl, -⟩ := List.lookup_eq_some_iff.mp h
  rw [hl]
  simp

/-- Without a repeated key, every entry is the one that its key finds. -/
theorem mem_entries_iff (h : s.keys.Nodup) : ((x, t), e) ∈ s.entries ↔ s.get? x t = some e := by
  refine ⟨fun hmem => ?_, mem_entries_of_get?⟩
  obtain ⟨e', he'⟩ := mem_keys_iff.mp (List.mem_map.mpr ⟨_, hmem, rfl⟩)
  have heq := List.inj_on_of_nodup_map h hmem (mem_entries_of_get? he') rfl
  rw [he', (Prod.mk.inj heq).2]

/-- Stores without a repeated key that give the same descriptors hold the same entries. -/
theorem entries_perm (h : s.keys.Nodup) (h' : s'.keys.Nodup) (heq : ∀ x t, s.get? x t = s'.get? x t) :
    s.entries.Perm s'.entries := by
  rw [List.perm_ext_iff_of_nodup (List.Nodup.of_map _ h) (List.Nodup.of_map _ h')]
  rintro ⟨⟨x, t⟩, e⟩
  rw [mem_entries_iff h, mem_entries_iff h', heq]

end BuildPlan.DescriptorStore
