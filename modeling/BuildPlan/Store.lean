import BuildPlan.Descriptor
import BuildPlan.Error

/-!
# Descriptor stores

The descriptors that are finished, by project and target. A key is written once; a second write is refused and changes
nothing.
-/

namespace BuildPlan

/-- Finished descriptors by project and target. -/
structure DescriptorStore where
  entries : List ((String × Target) × Descriptor) := []
  deriving DecidableEq

namespace DescriptorStore

/-- The descriptor of a project on a target. -/
def get? (s : DescriptorStore) (project : String) (t : Target) : Option Descriptor := s.entries.lookup (project, t)

/-- Whether there is a descriptor of a project on a target. -/
def contains (s : DescriptorStore) (project : String) (t : Target) : Bool := (s.get? project t).isSome

/-- The number of descriptors. -/
def size (s : DescriptorStore) : Nat := s.entries.length

/-- The store with one more descriptor; its project must not have one on the target. -/
def insert (s : DescriptorStore) (t : Target) (d : Descriptor) : Except BuildError DescriptorStore :=
  if s.contains d.project t then .error (.duplicateDescriptor d.project t)
  else .ok ⟨((d.project, t), d) :: s.entries⟩

end DescriptorStore

end BuildPlan
