import BuildPlan.Settings.User
import Mathlib.Data.List.Induction

/-!
# Merging the settings of users

Files of settings are merged one after the other. A table of the result is that of the last file that has the table
(`UserSettings.table_foldl_merge`). So a setting is what this file says of it, and is lost if an earlier file sets it and this
one does not (`settings_of_tables`, `earlier_setting_erased`).
-/

namespace BuildPlan

namespace UserSettings

variable {τ α : Type} {table : UserSettings → Option τ} {setting : UserSettings → Option α} {files : List UserSettings}

/-- The last of some files in which there is a table. -/
def lastWith (table : UserSettings → Option τ) (files : List UserSettings) : Option UserSettings :=
  files.reverse.find? (fun u => (table u).isSome)

/-- The value of a setting, or of a table, in the last of some files that gives it. -/
def lastGiven (setting : UserSettings → Option α) (files : List UserSettings) : Option α :=
  files.reverse.findSome? setting

theorem lastGiven_concat (setting : UserSettings → Option α) (files : List UserSettings) (u : UserSettings) :
    lastGiven setting (files ++ [u]) = (setting u).or (lastGiven setting files) := by
  rw [lastGiven, List.reverse_append, List.reverse_singleton, List.singleton_append, List.findSome?_cons]
  cases setting u <;> rfl

theorem lastGiven_eq_none_iff : lastGiven setting files = none ↔ ∀ u ∈ files, setting u = none := by
  simp [lastGiven]

/-- A table that is given last is that of the last file that has it. -/
theorem lastGiven_eq_bind_lastWith (table : UserSettings → Option τ) (files : List UserSettings) :
    lastGiven table files = (lastWith table files).bind table := by
  rw [lastGiven, lastWith]
  induction files.reverse with
  | nil => rfl
  | cons u rest ih =>
    rw [List.findSome?_cons, List.find?_cons]
    cases hu : table u with
    | none => exact ih
    | some t => exact hu.symm

/-- A table that the later of two files replaces as a whole is, in the end, the one that is given last. -/
theorem table_foldl_merge (htable : ∀ u later, table (u.merge later) = (table later).or (table u)) (base : UserSettings)
    (later : List UserSettings) : table (later.foldl merge base) = lastGiven table (base :: later) := by
  induction later using List.reverseRecOn with
  | nil => exact (lastGiven_concat table [] base).trans Option.or_none |>.symm
  | append_singleton later u ih =>
    rw [List.foldl_append, List.foldl_cons, List.foldl_nil, htable, ih, ← List.cons_append, lastGiven_concat]

/-- The setting of a merge that goes with a table. -/
structure GoesWith (table : UserSettings → Option τ) (setting : UserSettings → Option α) (files : List UserSettings)
    (merged : UserSettings) : Prop where
  /-- It is what the last file with the table says of it. -/
  value : setting merged = (lastWith table files).bind setting
  /-- It is the value that was given last exactly if this file gives one, or no file does. -/
  eq_lastGiven_iff : setting merged = lastGiven setting files ↔
    (∀ u, lastWith table files = some u → setting u ≠ none) ∨ ∀ u ∈ files, setting u = none

section Field

variable {field : τ → Option α}

/-- What the last file with a table gives was given last, since files without the table do not give it. -/
theorem lastGiven_of_lastWith (hsetting : ∀ u, setting u = (table u).bind field) {u : UserSettings} {a : α}
    (hu : lastWith table files = some u) (ha : setting u = some a) : lastGiven setting files = some a := by
  obtain ⟨-, before, after, hfiles, hbefore⟩ := List.find?_eq_some_iff_append.mp hu
  have hnone : before.findSome? setting = none := by
    rw [List.findSome?_eq_none_iff]
    intro v hv
    have htable : table v = none := by simpa using hbefore v hv
    rw [hsetting, htable, Option.bind_none]
  rw [lastGiven, hfiles, List.findSome?_append, hnone, Option.none_or, List.findSome?_cons, ha]

/-- A field of a table that the later of two files replaces as a whole goes with the table. -/
theorem goesWith_foldl_merge (htable : ∀ u later, table (u.merge later) = (table later).or (table u))
    (hsetting : ∀ u, setting u = (table u).bind field) (base : UserSettings) (later : List UserSettings) :
    GoesWith table setting (base :: later) (later.foldl merge base) := by
  have hvalue : setting (later.foldl merge base) = (lastWith table (base :: later)).bind setting := by
    rw [hsetting, table_foldl_merge htable, lastGiven_eq_bind_lastWith, Option.bind_assoc, funext hsetting]
  refine ⟨hvalue, ?_⟩
  rw [hvalue, ← lastGiven_eq_none_iff]
  cases hlast : lastWith table (base :: later) with
  | none =>
    have hnone : lastGiven table (base :: later) = none := by rw [lastGiven_eq_bind_lastWith, hlast, Option.bind_none]
    have hgiven : lastGiven setting (base :: later) = none := by
      rw [lastGiven_eq_none_iff] at hnone ⊢
      intro u hu
      rw [hsetting, hnone u hu, Option.bind_none]
    simp [hgiven]
  | some u =>
    cases hu : setting u with
    | none => simp [hu, eq_comm]
    | some a => simp [hu, lastGiven_of_lastWith hsetting hlast hu]

end Field

/-- What some files of settings come to that are merged one after the other. The number of jobs, whether targets are planned at
the same time, strictness and the format are those of the last file with a table of defaults, and the filter of the log is that
of the last file with a table for the log. What this file leaves out is not set, though an earlier file may set it: a setting is
the one that was given last exactly if the last file with its table gives it or no file does. -/
theorem settings_of_tables (base : UserSettings) (later : List UserSettings) :
    GoesWith defaults jobs (base :: later) (later.foldl merge base) ∧
      GoesWith defaults parallel (base :: later) (later.foldl merge base) ∧
      GoesWith defaults strict (base :: later) (later.foldl merge base) ∧
      GoesWith defaults format (base :: later) (later.foldl merge base) ∧
      GoesWith log logFilter (base :: later) (later.foldl merge base) := by
  have hdefaults : ∀ u later : UserSettings, (u.merge later).defaults = later.defaults.or u.defaults := fun _ _ => rfl
  have hlog : ∀ u later : UserSettings, (u.merge later).log = later.log.or u.log := fun _ _ => rfl
  exact ⟨goesWith_foldl_merge hdefaults (fun _ => rfl) base later,
    goesWith_foldl_merge hdefaults (fun _ => rfl) base later,
    goesWith_foldl_merge hdefaults (fun _ => rfl) base later,
    goesWith_foldl_merge hdefaults (fun _ => rfl) base later,
    goesWith_foldl_merge hlog (fun _ => rfl) base later⟩

/-- A setting need not be the one that was given last: a later file with another setting of the same table erases it. -/
theorem earlier_setting_erased :
    ¬∀ (base : UserSettings) (later : List UserSettings),
      (later.foldl merge base).jobs = lastGiven jobs (base :: later) ∧
        (later.foldl merge base).parallel = lastGiven parallel (base :: later) ∧
        (later.foldl merge base).strict = lastGiven strict (base :: later) ∧
        (later.foldl merge base).format = lastGiven format (base :: later) ∧
        (later.foldl merge base).logFilter = lastGiven logFilter (base :: later) := by
  intro hclaim
  have hjobs := (hclaim { defaults := some { jobs := some 4 } } [{ defaults := some { strict := some true } }]).1
  exact absurd hjobs (by decide)

end UserSettings

end BuildPlan
