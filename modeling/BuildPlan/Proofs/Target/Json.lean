import BuildPlan.Proofs.Json.Record
import BuildPlan.Target.Json

/-!
# Reading targets back

A target is read back from its record up to names: a platform or an environment that was kept by a name which is built in,
in whatever case, is read as the built-in one (`Target.ofJson?_toJson`). So exactly the canonical targets are read back as
they are (`Target.recognized_eq_self_iff`).
-/

namespace BuildPlan

namespace Platform

/-- The platforms that have a constructor. -/
def builtIn : List Platform := [win32, win64, linux, macos, android, ios]

/-- Whether a platform is the one of its name: it is not kept by a name that is built in, whatever its case. -/
def Canonical (p : Platform) : Prop := ∀ n, p = custom n → Text.lower n ∉ builtIn.map name

/-- A name is kept exactly if it is not built in. -/
theorem ofName_eq_custom_iff {n : String} : ofName n = custom n ↔ Text.lower n ∉ builtIn.map name := by
  unfold ofName
  split <;> simp_all [builtIn, name]

theorem ofName_name_eq_self_iff (p : Platform) : ofName p.name = p ↔ p.Canonical := by
  cases p with
  | custom n => exact ofName_eq_custom_iff.trans ⟨fun h m hm => by cases hm; exact h, fun h => h n rfl⟩
  | _ => exact ⟨fun _ _ hn => (nomatch hn), fun _ => rfl⟩

end Platform

namespace DevEnv

/-- The environments that have a constructor. -/
def builtIn : List DevEnv := [vs2019, vs2022, make, xcode]

/-- Whether an environment is the one of its name: it is not kept by a name that is built in, whatever its case. -/
def Canonical (d : DevEnv) : Prop := ∀ n, d = custom n → Text.lower n ∉ builtIn.map name

/-- A name is kept exactly if it is not built in. -/
theorem ofName_eq_custom_iff {n : String} : ofName n = custom n ↔ Text.lower n ∉ builtIn.map name := by
  unfold ofName
  split <;> simp_all [builtIn, name]

theorem ofName_name_eq_self_iff (d : DevEnv) : ofName d.name = d ↔ d.Canonical := by
  cases d with
  | custom n => exact ofName_eq_custom_iff.trans ⟨fun h m hm => by cases hm; exact h, fun h => h n rfl⟩
  | _ => exact ⟨fun _ _ hn => (nomatch hn), fun _ => rfl⟩

end DevEnv

theorem OutputKind.ofJson?_name (k : OutputKind) : OutputKind.ofJson? (.str k.name) = some k := by
  cases k <;> rfl

namespace Target

/-- The target with the platform and the environment of their names. -/
def recognized (t : Target) : Target :=
  { t with platform := Platform.ofName t.platform.name, devEnv := DevEnv.ofName t.devEnv.name }

/-- Whether the platform and the environment of a target are those of their names. -/
def Canonical (t : Target) : Prop := t.platform.Canonical ∧ t.devEnv.Canonical

theorem recognized_eq_self_iff (t : Target) : t.recognized = t ↔ t.Canonical := by
  rw [Canonical, ← Platform.ofName_name_eq_self_iff, ← DevEnv.ofName_name_eq_self_iff, recognized]
  constructor
  · intro h
    exact ⟨congrArg Target.platform h, congrArg Target.devEnv h⟩
  · rintro ⟨hplatform, hdevEnv⟩
    rw [hplatform, hdevEnv]

theorem sound_toJson (t : Target) : t.toJson.Sound := by
  simp [toJson, Platform.toJson, DevEnv.toJson]

/-- A target is read back from its record, up to the names of its platform and its environment. -/
theorem ofJson?_toJson (t : Target) : ofJson? t.toJson = some t.recognized := by
  have hfields : Json.required? fieldNames t.toJson = some [
      t.platform.toJson, t.devEnv.toJson, .str t.optimization.name, .str t.outputKind.name, .str t.launchMode.name,
      .str t.buildSystem.name] := Json.required?_eq [] (by decide) rfl (fun m hm => nomatch hm) rfl
  have hoptimization : Optimization.ofJson? (.str t.optimization.name) = some t.optimization := by
    cases t.optimization <;> rfl
  have hlaunchMode : LaunchMode.ofJson? (.str t.launchMode.name) = some t.launchMode := by
    cases t.launchMode <;> rfl
  have hbuildSystem : BuildSystem.ofJson? (.str t.buildSystem.name) = some t.buildSystem := by
    cases t.buildSystem <;> rfl
  unfold ofJson?
  rw [hfields]
  simp [hoptimization, hlaunchMode, hbuildSystem, OutputKind.ofJson?_name, Platform.ofJson?, Platform.toJson,
    DevEnv.ofJson?, DevEnv.toJson, Json.str?, recognized]

end Target

end BuildPlan
