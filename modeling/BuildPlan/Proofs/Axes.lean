import BuildPlan.Axes
import BuildPlan.Proofs.Catalog
import BuildPlan.Proofs.Except
import BuildPlan.Proofs.Target.Flag

/-!
# What axes expand to

The expansion of some axes holds no target twice, whatever values were given more than once
(`TargetAxes.nodup_combinations`), and it holds exactly the targets that the axes contain (`TargetAxes.mem_combinations`).
-/

namespace BuildPlan

/-- Lists whose members tell which value they were made for have no member in common. -/
theorem nodup_flatMap_of_key {α β : Type} {l : List α} {f : α → List β} (key : β → α) (hl : l.Nodup)
    (hf : ∀ a ∈ l, (f a).Nodup) (hkey : ∀ a ∈ l, ∀ b ∈ f a, key b = a) : (l.flatMap f).Nodup := by
  rw [List.nodup_flatMap]
  refine ⟨hf, hl.imp_of_mem ?_⟩
  intro a a' ha ha' hne b hb hb'
  exact hne ((hkey a ha b hb).symm.trans (hkey a' ha' b hb'))

/-- The expansion of axes holds no target twice: the value of each axis is read back from the targets that it is combined to. -/
theorem TargetAxes.nodup_combinations (a : TargetAxes) : a.combinations.Nodup := by
  refine nodup_flatMap_of_key Target.platform (nodup_distinct _) (fun platform _ => ?_) ?_
  · refine nodup_flatMap_of_key Target.devEnv (nodup_distinct _) (fun devEnv _ => ?_) ?_
    · refine nodup_flatMap_of_key Target.optimization a.optimizations.nodup_toList (fun optimization _ => ?_) ?_
      · refine nodup_flatMap_of_key Target.outputKind (nodup_distinct _) (fun outputKind _ => ?_) ?_
        · refine nodup_flatMap_of_key Target.launchMode a.launchModes.nodup_toList (fun launchMode _ => ?_) ?_
          · exact (nodup_distinct _).map (fun _ _ h => congrArg Target.buildSystem h)
          · grind
        · grind
      · grind
    · grind
  · grind

namespace TargetAxes

/-- The expansion of axes holds the targets that the axes contain. -/
theorem mem_combinations {a : TargetAxes} {t : Target} : t ∈ a.combinations ↔ a.contains t = true := by
  simp only [combinations, contains, List.mem_flatMap, List.mem_map, mem_distinct, FlagSet.mem_toList, Bool.and_eq_true,
    List.contains_iff_mem, and_assoc]
  constructor
  · rintro ⟨platform, hp, devEnv, hd, optimization, ho, outputKind, hk, launchMode, hl, buildSystem, hb, rfl⟩
    exact ⟨hp, hd, ho, hk, hl, hb⟩
  · rintro ⟨hp, hd, ho, hk, hl, hb⟩
    exact ⟨_, hp, _, hd, _, ho, _, hk, _, hl, _, hb, rfl⟩

theorem contains_combinations (a : TargetAxes) (t : Target) : a.combinations.contains t = a.contains t := by
  rw [Bool.eq_iff_iff, List.contains_iff_mem, mem_combinations]

/-- Axes are only refused for a fault of an axis. -/
theorem exists_fault_of_validate {a : TargetAxes} :
    ∀ e, a.validate = .error e → ∃ axis fault, e = .invalidAxis axis fault := by
  have hsome : ∀ axis isEmpty e, checkSome axis isEmpty = .error e → ∃ axis fault, e = .invalidAxis axis fault := by
    intro axis isEmpty e h
    cases isEmpty with
    | true =>
      cases h
      exact ⟨axis, .noValues, rfl⟩
    | false => cases h
  have hnames : ∀ axis names e, checkNames axis names = .error e → ∃ axis fault, e = .invalidAxis axis fault := by
    intro axis names e h
    induction names with
    | nil => cases h
    | cons n names ih =>
      rw [checkNames] at h
      split at h
      · exact ih h
      · cases h
        exact ⟨axis, .malformedName n, rfl⟩
  unfold validate
  refine error_of_bind (hsome _ _) (fun _ _ => error_of_bind (hsome _ _) (fun _ _ => error_of_bind (hsome _ _) ?_))
  refine fun _ _ => error_of_bind (hsome _ _) (fun _ _ => error_of_bind (hsome _ _) (fun _ _ => error_of_bind (hsome _ _) ?_))
  exact fun _ _ => error_of_bind (hnames _ _) (fun _ _ => hnames _ _)

theorem expand_eq_ok {a : TargetAxes} (h : a.validate = .ok ()) : a.expand = .ok a.combinations := by
  unfold expand
  rw [h]
  rfl

end TargetAxes

end BuildPlan
