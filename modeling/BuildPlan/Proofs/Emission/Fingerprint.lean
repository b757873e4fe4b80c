import BuildPlan.Proofs.Emission.Check
import BuildPlan.Proofs.Emission.Document
import BuildPlan.Proofs.Text.Digits

/-!
# What a fingerprint tells

A fingerprint tells which descriptors it was made from. Their text does, because they are read back from it
(`TargetPlan.descriptorText_injective`), and the digits of a digest tell its words (`Digest.State.digits_injective`). In between
stands the digest itself, of which nothing is known: two texts are supposed not to be a collision (`Digest.NoCollision`).
-/

namespace BuildPlan

/-! ### Digests -/

/-- Blocks of one size that stand for items, one after the other, tell the items. -/
theorem flatMap_injective_of_length {α β : Type} {f : α → List β} {size : Nat} (hsize : ∀ a, (f a).length = size)
    (hf : Function.Injective f) {l l' : List α} (hlength : l.length = l'.length) (h : l.flatMap f = l'.flatMap f) :
    l = l' := by
  induction l generalizing l' with
  | nil => exact (List.eq_nil_of_length_eq_zero hlength.symm).symm
  | cons a l ih =>
    obtain ⟨a', l', rfl⟩ := List.exists_cons_of_length_eq_add_one hlength.symm
    rw [List.flatMap_cons, List.flatMap_cons] at h
    obtain ⟨hblock, hrest⟩ := List.append_inj h ((hsize a).trans (hsize a').symm)
    rw [hf hblock, ih (Nat.succ.inj hlength) hrest]

namespace Digest

theorem State.toList_injective : Function.Injective State.toList := by
  intro s s' h
  cases s
  cases s'
  simpa [State.toList] using h

/-- The digits of a state tell its words. -/
theorem State.digits_injective : Function.Injective State.digits := by
  intro s s' h
  have hword : ∀ w : UInt32, w.toNat < 16 ^ 8 := fun w => w.toNat_lt
  have hdigits : Function.Injective (fun w : UInt32 => Text.lastHexDigits 8 w.toNat) :=
    fun w w' hw => UInt32.toNat_inj.mp ((Text.lastHexDigits_inj (hword w) (hword w')).mp hw)
  have hsize : ∀ w : UInt32, (Text.lastHexDigits 8 w.toNat).length = 8 := fun w => Text.length_lastHexDigits 8 w.toNat
  exact State.toList_injective (flatMap_injective_of_length hsize hdigits rfl (String.ofList_injective h))

theorem ofText_eq_iff {s s' : String} : ofText s = ofText s' ↔ finalState s = finalState s' :=
  State.digits_injective.eq_iff

/-- Two texts are no collision: they are the same text if they have the same digest. -/
def NoCollision (s s' : String) : Prop := finalState s = finalState s' → s = s'

end Digest

/-! ### Fingerprints -/

namespace TargetPlan

/-- Descriptors are read back from their text. -/
theorem ofText?_descriptorText (descriptors : List Descriptor) :
    ((Json.ofText? (descriptorText descriptors)).bind Json.arr?).bind (fun items => items.mapM Descriptor.ofJson?) =
      some descriptors := by
  have hsound : (Json.arr (descriptors.map Descriptor.toJson)).Sound := by simp [Descriptor.sound_toJson]
  rw [descriptorText, Json.ofText?_compact hsound, Option.bind_some, Json.arr?, Option.bind_some,
    Descriptor.mapM_ofJson?_toJson]

/-- The text of descriptors tells them in every field: their order, that of their defines and properties, what is bare and what
is absent. -/
theorem descriptorText_injective : Function.Injective descriptorText := by
  intro l l' h
  have hread := ofText?_descriptorText l
  rw [h, ofText?_descriptorText l'] at hread
  exact (Option.some.inj hread).symm

/-- Unless their texts collide, lists of descriptors with the same fingerprint are the same. -/
theorem fingerprintOf_eq_iff {l l' : List Descriptor} (h : Digest.NoCollision (descriptorText l) (descriptorText l')) :
    fingerprintOf l = fingerprintOf l' ↔ l = l' := by
  rw [fingerprintOf, fingerprintOf, Digest.ofText_eq_iff]
  exact ⟨fun heq => descriptorText_injective (h heq), fun heq => by rw [heq]⟩

end TargetPlan

/-- Fingerprints identify the descriptors. Two lists of descriptors have the same text if and only if they are the same; and so
two plans that were emitted, for whatever targets, have the same fingerprint if and only if they hold the same descriptors in
the same order, provided that the texts of these are not a collision of the digest. -/
theorem fingerprints_identify :
    (∀ l l' : List Descriptor, TargetPlan.descriptorText l = TargetPlan.descriptorText l' ↔ l = l') ∧
      ∀ {t t' : Target} {order order' : List String} {descriptors descriptors' : List Descriptor} {plan plan' : TargetPlan},
        TargetPlan.ofOrder t order descriptors = .ok plan → TargetPlan.ofOrder t' order' descriptors' = .ok plan' →
        Digest.NoCollision (TargetPlan.descriptorText plan.descriptors) (TargetPlan.descriptorText plan'.descriptors) →
        (plan.fingerprint = plan'.fingerprint ↔ plan.descriptors = plan'.descriptors) := by
  refine ⟨fun l l' => TargetPlan.descriptorText_injective.eq_iff, ?_⟩
  intro t t' order order' descriptors descriptors' plan plan' hplan hplan' hcollision
  obtain ⟨-, selected, -, rfl⟩ := TargetPlan.ofOrder_eq_ok_iff.mp hplan
  obtain ⟨-, selected', -, rfl⟩ := TargetPlan.ofOrder_eq_ok_iff.mp hplan'
  exact TargetPlan.fingerprintOf_eq_iff hcollision

/-- The console descriptor with an empty value where it has a bare define. -/
def spelledDescriptor : Descriptor :=
  { consoleDescriptor with defines := Catalog.ofList [("BARE", some ""), ("EMPTY", some "")] }

/-- The text of this descriptor and that of no descriptor have different digests. -/
theorem finalState_console_ne : Digest.finalState (TargetPlan.descriptorText [consoleDescriptor]) ≠
    Digest.finalState (TargetPlan.descriptorText []) := by
  decide +kernel

/-- A bare define is told from one with an empty value; a descriptor that is not selected has no influence, and without any the
fingerprint is another one. -/
theorem fingerprints_identify_console :
    TargetPlan.descriptorText [consoleDescriptor] ≠ TargetPlan.descriptorText [spelledDescriptor] ∧
      ∃ plan plan' empty, TargetPlan.ofOrder consolePlan.target ["Core"] [consoleDescriptor] = .ok plan ∧
        TargetPlan.ofOrder consolePlan.target ["Core"] [consoleDescriptor, spelledDescriptor] = .ok plan' ∧
        TargetPlan.ofOrder consolePlan.target [] [consoleDescriptor] = .ok empty ∧
        plan.fingerprint = plan'.fingerprint ∧ plan.fingerprint ≠ empty.fingerprint := by
  have hne : [consoleDescriptor] ≠ [spelledDescriptor] := by decide
  have hplan : TargetPlan.ofOrder consolePlan.target ["Core"] [consoleDescriptor] = .ok _ := rfl
  have hplan' : TargetPlan.ofOrder consolePlan.target ["Core"] [consoleDescriptor, spelledDescriptor] = .ok _ := rfl
  have hempty : TargetPlan.ofOrder consolePlan.target [] [consoleDescriptor] = .ok _ := rfl
  have hcollision : Digest.NoCollision (TargetPlan.descriptorText [consoleDescriptor]) (TargetPlan.descriptorText []) :=
    fun h => absurd h finalState_console_ne
  refine ⟨fun h => hne ((fingerprints_identify.1 _ _).mp h), _, _, _, hplan, hplan', hempty, ?_, fun h => ?_⟩
  · exact (fingerprints_identify.2 hplan hplan' (fun _ => rfl)).mpr rfl
  · exact List.cons_ne_nil _ _ ((fingerprints_identify.2 hplan hempty hcollision).mp h)

end BuildPlan
