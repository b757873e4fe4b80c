import BuildPlan.Proofs.Axes
import BuildPlan.Proofs.Except
import BuildPlan.Proofs.Target.Json

/-!
# Keys of targets

The key of a target joins the names of its values. Where the names of the platform and of the environment can stand in a key,
all names are read back from it (`Target.Keyed.splitOn_key`). A platform or an environment that was read from a name is the
one of its name, so that the key then tells the target (`Target.Keyed.eq_of_key`): no two targets that such checked axes
expand to have one key, be they the same axes or others (`keys_unambiguous`). All axes that are read from a declaration are
such axes (`TargetAxes.named_ofNames`).
-/

namespace BuildPlan

/-! ### Platforms and environments of names -/

/-- A platform that is read from a name is canonical. -/
theorem Platform.canonical_ofName (n : String) : (Platform.ofName n).Canonical := by
  intro m hm
  have hself : Platform.ofName m = .custom m := by
    unfold Platform.ofName at hm ⊢
    split at hm <;> simp_all
  exact Platform.ofName_eq_custom_iff.mp hself

/-- An environment that is read from a name is canonical. -/
theorem DevEnv.canonical_ofName (n : String) : (DevEnv.ofName n).Canonical := by
  intro m hm
  have hself : DevEnv.ofName m = .custom m := by
    unfold DevEnv.ofName at hm ⊢
    split at hm <;> simp_all
  exact DevEnv.ofName_eq_custom_iff.mp hself

/-- Two platforms that are those of their names are the same if their names are. -/
theorem Platform.Canonical.eq_of_name {p q : Platform} (hp : p.Canonical) (hq : q.Canonical) (h : p.name = q.name) :
    p = q := by
  rw [← (Platform.ofName_name_eq_self_iff p).mpr hp, h, (Platform.ofName_name_eq_self_iff q).mpr hq]

/-- Canonical environments of the same name are the same. -/
theorem DevEnv.Canonical.eq_of_name {d e : DevEnv} (hd : d.Canonical) (he : e.Canonical) (h : d.name = e.name) :
    d = e := by
  rw [← (DevEnv.ofName_name_eq_self_iff d).mpr hd, h, (DevEnv.ofName_name_eq_self_iff e).mpr he]

/-! ### Checked axes -/

namespace TargetAxes

/-- A name that may stand in a key has no hyphen. -/
theorem not_mem_of_isKeyName {n : String} (h : isKeyName n = true) : '-' ∉ n.toList := by
  intro hmem
  rw [isKeyName, Bool.and_eq_true, List.all_eq_true] at h
  exact absurd (h.2 '-' hmem) (by decide)

/-- The check of the names of an axis passes if each of them may stand in a key. -/
theorem checkNames_eq_ok_iff {axis : Axis} {names : List String} :
    checkNames axis names = .ok () ↔ ∀ n ∈ names, isKeyName n = true := by
  induction names with
  | nil => simp [checkNames]
  | cons n names ih =>
    unfold checkNames
    rw [List.forall_mem_cons, ← ih]
    cases isKeyName n <;> simp

/-- The names of the platforms and environments of checked axes can stand in a key. -/
theorem isKeyName_of_validate {a : TargetAxes} (h : a.validate = .ok ()) :
    (∀ p ∈ a.platforms, isKeyName p.name = true) ∧ ∀ d ∈ a.devEnvs, isKeyName d.name = true := by
  unfold validate at h
  iterate 6 obtain ⟨-, h⟩ := check_bind_eq_ok_iff.mp h
  obtain ⟨hplatforms, hdevEnvs⟩ := check_bind_eq_ok_iff.mp h
  exact ⟨fun p hp => checkNames_eq_ok_iff.mp hplatforms _ (List.mem_map_of_mem hp),
    fun d hd => checkNames_eq_ok_iff.mp hdevEnvs _ (List.mem_map_of_mem hd)⟩

/-- The platforms and environments come from names, as they do where axes are declared in texts (`named_ofNames`) and where
they are left at the default (`named_default`). -/
structure Named (a : TargetAxes) : Prop where
  platforms : ∀ p ∈ a.platforms, ∃ n, Platform.ofName n = p
  devEnvs : ∀ d ∈ a.devEnvs, ∃ n, DevEnv.ofName n = d

/-- The default axes are named: their platform and their environment are read from names. -/
theorem named_default : ({} : TargetAxes).Named where
  platforms _ hp := ⟨"win64", (List.mem_singleton.mp hp).symm⟩
  devEnvs _ hd := ⟨"vs2022", (List.mem_singleton.mp hd).symm⟩

/-- The axes of a declaration come from names, whether it lists them or leaves them out. -/
theorem named_ofNames {d : AxisNames} {a : TargetAxes} (h : ofNames d = .ok a) : a.Named := by
  unfold ofNames at h
  obtain ⟨optimizations, -, h⟩ := bind_eq_ok_iff.mp h
  obtain ⟨outputKinds, -, h⟩ := bind_eq_ok_iff.mp h
  obtain ⟨launchModes, -, h⟩ := bind_eq_ok_iff.mp h
  obtain ⟨buildSystems, -, h⟩ := bind_eq_ok_iff.mp h
  cases h
  constructor
  · cases d.platforms with
    | none => exact named_default.platforms
    | some names =>
      intro p hp
      obtain ⟨n, -, hn⟩ := List.mem_map.mp hp
      exact ⟨n, hn⟩
  · cases d.devEnvs with
    | none => exact named_default.devEnvs
    | some names =>
      intro e he
      obtain ⟨n, -, hn⟩ := List.mem_map.mp he
      exact ⟨n, hn⟩

end TargetAxes

/-! ### Reading a key back -/

/-- The name of an optimization tells it. -/
theorem Optimization.name_injective : Function.Injective Optimization.name := by
  intro a b
  cases a <;> cases b <;> decide

/-- The name of a kind of output tells it. -/
theorem OutputKind.name_injective : Function.Injective OutputKind.name := by
  intro a b
  cases a <;> cases b <;> decide

/-- The name of a launch mode tells it. -/
theorem LaunchMode.name_injective : Function.Injective LaunchMode.name := by
  intro a b
  cases a <;> cases b <;> decide

/-- The name of a build system tells it. -/
theorem BuildSystem.name_injective : Function.Injective BuildSystem.name := by
  intro a b
  cases a <;> cases b <;> decide

namespace Target

/-- The names that a key joins. -/
def keyParts (t : Target) : List String :=
  [t.platform.name, t.devEnv.name, t.optimization.name, t.outputKind.name, t.launchMode.name, t.buildSystem.name]

/-- The characters of a key are those of its parts, with hyphens between them. -/
theorem toList_key (t : Target) : t.key.toList = ['-'].intercalate (t.keyParts.map String.toList) := by
  simp [key, keyParts, List.intercalate]

/-- A target whose platform and environment are those of their names, with names that can stand in a key. -/
structure Keyed (t : Target) : Prop where
  canonical : t.Canonical
  platform : TargetAxes.isKeyName t.platform.name = true
  devEnv : TargetAxes.isKeyName t.devEnv.name = true

variable {t u : Target}

/-- No name of a key holds the character between the names. -/
theorem Keyed.not_mem_keyParts (h : t.Keyed) : ∀ l ∈ t.keyParts.map String.toList, '-' ∉ l := by
  simp only [keyParts, List.map_cons, List.map_nil, List.forall_mem_cons]
  refine ⟨TargetAxes.not_mem_of_isKeyName h.platform, TargetAxes.not_mem_of_isKeyName h.devEnv, ?_, ?_, ?_, ?_, ?_⟩
  · cases t.optimization <;> decide
  · cases t.outputKind <;> decide
  · cases t.launchMode <;> decide
  · cases t.buildSystem <;> decide
  · exact fun l hl => absurd hl List.not_mem_nil

/-- A key whose parts have no hyphen is split at the hyphens into its parts. -/
theorem Keyed.splitOn_key (h : t.Keyed) : t.key.toList.splitOn '-' = t.keyParts.map String.toList := by
  rw [toList_key, List.splitOn_intercalate '-' h.not_mem_keyParts (by simp [keyParts])]

/-- The key tells the target. -/
theorem Keyed.eq_of_key (ht : t.Keyed) (hu : u.Keyed) (h : t.key = u.key) : t = u := by
  have hchars : t.keyParts.map String.toList = u.keyParts.map String.toList := by
    rw [← ht.splitOn_key, h, hu.splitOn_key]
  have hparts : t.keyParts = u.keyParts :=
    List.map_injective_iff.mpr (fun _ _ heq => String.toList_inj.mp heq) hchars
  simp only [keyParts, List.cons.injEq, and_true] at hparts
  obtain ⟨hplatform, hdevEnv, hoptimization, houtputKind, hlaunchMode, hbuildSystem⟩ := hparts
  cases t with
  | mk platform devEnv optimization outputKind launchMode buildSystem =>
    cases u with
    | mk platform' devEnv' optimization' outputKind' launchMode' buildSystem' =>
      rw [mk.injEq]
      exact ⟨ht.canonical.1.eq_of_name hu.canonical.1 hplatform, ht.canonical.2.eq_of_name hu.canonical.2 hdevEnv,
        Optimization.name_injective hoptimization, OutputKind.name_injective houtputKind,
        LaunchMode.name_injective hlaunchMode, BuildSystem.name_injective hbuildSystem⟩

/-- The targets that checked axes contain have keys that tell them, if the platforms and environments come from names. -/
theorem keyed_of_contains {a : TargetAxes} (hvalid : a.validate = .ok ()) (hnamed : a.Named) (ht : a.contains t = true) :
    t.Keyed := by
  simp only [TargetAxes.contains, Bool.and_eq_true, List.contains_iff_mem] at ht
  obtain ⟨⟨⟨⟨⟨hplatform, hdevEnv⟩, -⟩, -⟩, -⟩, -⟩ := ht
  obtain ⟨hplatforms, hdevEnvs⟩ := TargetAxes.isKeyName_of_validate hvalid
  obtain ⟨n, hn⟩ := hnamed.platforms _ hplatform
  obtain ⟨m, hm⟩ := hnamed.devEnvs _ hdevEnv
  exact {
    canonical := ⟨hn ▸ Platform.canonical_ofName n, hm ▸ DevEnv.canonical_ofName m⟩
    platform := hplatforms _ hplatform
    devEnv := hdevEnvs _ hdevEnv }

end Target

/-- Keys are unambiguous. Checked axes have targets, and where the platforms and environments of two such axes come from names,
whatever these are, a key that a target of the one shares with a target of the other tells that they are one target. -/
theorem keys_unambiguous {a b : TargetAxes} (ha : a.validate = .ok ()) (hb : b.validate = .ok ()) (hnameda : a.Named)
    (hnamedb : b.Named) :
    ∃ ts us, a.expand = .ok ts ∧ b.expand = .ok us ∧ ∀ t ∈ ts, ∀ u ∈ us, t.key = u.key → t = u := by
  refine ⟨a.combinations, b.combinations, TargetAxes.expand_eq_ok ha, TargetAxes.expand_eq_ok hb, fun t ht u hu hkey => ?_⟩
  have hkeyed : t.Keyed := Target.keyed_of_contains ha hnameda (TargetAxes.mem_combinations.mp ht)
  exact hkeyed.eq_of_key (Target.keyed_of_contains hb hnamedb (TargetAxes.mem_combinations.mp hu)) hkey

/-- A platform without a constructor, and a built-in one in capitals. -/
def consoleAxes : TargetAxes where
  platforms := [Platform.ofName "Switch", Platform.ofName "WIN64"]
  devEnvs := [DevEnv.ofName "Vs2022"]

theorem keys_unambiguous_console :
    ∃ ts us, consoleAxes.expand = .ok ts ∧ ({} : TargetAxes).expand = .ok us ∧ ({} : Target) ∈ us ∧
      ∀ t ∈ ts, t.key = ({} : Target).key → t = {} := by
  have hnamed : consoleAxes.Named := by
    constructor
    · intro p hp
      rcases List.mem_pair.mp hp with rfl | rfl
      · exact ⟨"Switch", rfl⟩
      · exact ⟨"WIN64", rfl⟩
    · intro d hd
      exact ⟨"Vs2022", (List.mem_singleton.mp hd).symm⟩
  obtain ⟨ts, us, hts, hus, hkeys⟩ := keys_unambiguous (a := consoleAxes) rfl rfl hnamed TargetAxes.named_default
  have hdefault : ({} : Target) ∈ us := by
    rw [TargetAxes.expand_eq_ok rfl] at hus
    cases hus
    decide
  exact ⟨ts, us, hts, hus, hdefault, fun t ht => hkeys t ht _ hdefault⟩

end BuildPlan
