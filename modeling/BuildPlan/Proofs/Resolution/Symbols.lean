import BuildPlan.Proofs.Manifest.Registration
import BuildPlan.Proofs.Resolution.ConflictReport
import BuildPlan.Proofs.Resolution.Privacy
import BuildPlan.Proofs.Resolution.Visibility

/-!
# The symbols of descriptors

The symbols of the defines in a descriptor come a long way: they are read from the entries of a manifest, written by the
rules of a chain, kept when the tokens in the values are replaced, joined by the symbol of the build configuration and handed
on along the graph. None of these steps makes a new symbol out of old ones, so that what the checks of the manifest make sure
of holds at the end: all symbols are well formed (`symbols_well_formed`).
-/

namespace BuildPlan

namespace Resolved

variable {w : Workspace} {t : Target} {roots : List String} {d : Discovery} {r : Resolution} {store : DescriptorStore}
  {k : SharedSetting} {v : String} {e : Descriptor}

/-- No setting comes out of nowhere: what a descriptor uses or exports is a setting of some project. -/
theorem exists_ownEntry (h : Resolved w t roots d r store) (he : e ∈ r.descriptors)
    (hv : v ∈ e.entries k ∨ v ∈ e.exports.entries k) : ∃ x, w.OwnEntry t k x v := by
  have hexport : ∀ {x}, w.OwnExport t k x v → w.OwnEntry t k x v := by
    rintro x ⟨p, hp, hv⟩
    refine ⟨p, hp, ?_⟩
    cases k with
    | includePath => exact List.mem_append_left _ hv
    | libraryPath => exact hv
    | libraryFile => exact hv
    | define => exact List.mem_append_right _ hv
  obtain ⟨hx, hget, hdesc⟩ := h.of_mem_descriptors he
  rcases hv with hv | hv
  · rcases (h.mem_entries_iff hx hdesc).mp hv with hown | ⟨q, -, hq⟩ | ⟨q, -, hq⟩
    · exact ⟨_, hown⟩
    · exact ⟨q, hexport hq⟩
    · exact ⟨q, hexport hq⟩
  · obtain ⟨q, -, hq⟩ := (h.mem_exports_iff _ hx e hget).mp hv
    exact ⟨q, hexport hq⟩

end Resolved

namespace Workspace

variable {w : Workspace} {p : Project} {t : Target} {entries : List (RuleSet × Manifest.RuleEntry)}

/-- The symbols of a project are the names of the defines in the entries of its chain and the symbol of the build
configuration. -/
theorem DeclaredBy.exists_define (h : w.DeclaredBy p t entries) {v : String}
    (hv : v ∈ (w.localConfiguration p t).entries .define) :
    (∃ a ∈ entries, ∃ d ∈ a.2.defines ++ a.2.exportDefines, (parseDefine d).1 = v) ∨ v = configurationSymbol t := by
  have hmeaning : w.ChainMeaning p t entries (w.localConfiguration p t).settings := by
    cases entries with
    | nil => exact h.meaning_nil
    | cons a entries => exact h.meaning_of_ne_nil (List.cons_ne_nil a entries)
  have hread : ∀ (given : Manifest.RuleEntry → List String) u,
      (v, u) ∈ ((entries.flatMap fun a => (given a.2).map parseDefine).map fun d => (d.1, d.2.map (w.expansion p t))) →
      ∃ a ∈ entries, ∃ d ∈ given a.2, (parseDefine d).1 = v := by
    intro given u hu
    obtain ⟨_, hdefine, hname⟩ := List.mem_map.mp hu
    obtain ⟨a, ha, hdefine⟩ := List.mem_flatMap.mp hdefine
    obtain ⟨d, hd, rfl⟩ := List.mem_map.mp hdefine
    exact ⟨a, ha, d, hd, congrArg Prod.fst hname⟩
  rcases List.mem_append.mp hv with hv | hv
  · obtain ⟨u, hu⟩ := hmeaning.defines.mem_names_iff.mp hv
    rcases List.mem_append.mp hu with hu | hu
    · obtain ⟨a, ha, d, hd, hname⟩ := hread _ u hu
      exact Or.inl ⟨a, ha, d, List.mem_append_left _ hd, hname⟩
    · split at hu
      · exact absurd hu List.not_mem_nil
      · exact Or.inr (congrArg Prod.fst (List.mem_singleton.mp hu))
  · obtain ⟨u, hu⟩ := hmeaning.exportDefines.mem_names_iff.mp hv
    obtain ⟨a, ha, d, hd, hname⟩ := hread _ u hu
    exact Or.inl ⟨a, ha, d, List.mem_append_right _ hd, hname⟩

/-- In the workspace of a manifest, the rules of a project that hold for a target are declared by entries of the manifest. -/
theorem exists_declaredBy_of_registered {m : Manifest} {root : String} (h : m.registered root = .ok w) (p : Project)
    (t : Target) : ∃ entries, w.DeclaredBy p t entries ∧ ∀ a ∈ entries, a.2 ∈ m.rules := by
  have hentry : ∀ e ∈ w.rulesFor p t, ∃ a : RuleSet × Manifest.RuleEntry,
      (a.1 = e.1 ∧ a.2.rule = .ok e.2) ∧ a.2 ∈ m.rules := by
    intro e he
    obtain ⟨hset, hrule⟩ := mem_rulesFor.mp he
    obtain ⟨entry, hentry, hdeclares⟩ := Manifest.declares_of_registered h hset (List.mem_filter.mp hrule).1
    exact ⟨(e.1, entry), ⟨rfl, hdeclares⟩, hentry⟩
  obtain ⟨entries, hentries⟩ := exists_forall₂ hentry
  refine ⟨entries, hentries.imp (fun _ _ ha => ha.1), fun a ha => ?_⟩
  obtain ⟨_, -, -, hmem⟩ := exists_of_mem_forall₂ hentries ha
  exact hmem

theorem isSymbol_configurationSymbol (t : Target) : IsSymbol (configurationSymbol t) := by
  have hne : (parseDefine (configurationSymbol t)).1 ≠ "" := by
    rw [parseDefine_configurationSymbol]
    exact fun h => absurd (String.append_eq_empty_iff.mp h).1 (by decide)
  have hsymbol := isSymbol_parseDefine hne
  rwa [parseDefine_configurationSymbol] at hsymbol

/-- The projects of a valid manifest have well formed symbols. -/
theorem isSymbol_of_ownEntry {m : Manifest} {root : String} (hvalid : m.validate = .ok ()) (hw : m.registered root = .ok w)
    {x v : String} (hv : w.OwnEntry t .define x v) : IsSymbol v := by
  obtain ⟨p, -, hv⟩ := hv
  obtain ⟨entries, hentries, hmem⟩ := exists_declaredBy_of_registered hw p t
  obtain ⟨-, -, hsound, -⟩ := Manifest.validate_eq_ok_iff.mp hvalid
  rcases hentries.exists_define hv with ⟨a, ha, d, hd, rfl⟩ | rfl
  · exact (hsound a.2 (hmem a ha)).defines d hd
  · exact isSymbol_configurationSymbol t

end Workspace

/-- All symbols are well formed. In every resolution of the workspace of a valid manifest, the symbols that a descriptor uses
or exports, its own ones and those it inherits, are not empty, hold no `=` and have no blank at either end. -/
theorem symbols_well_formed {m : Manifest} {root : String} {w : Workspace} (hvalid : m.validate = .ok ())
    (hw : m.registered root = .ok w) {strict : Bool} {roots : List String} {t : Target} {store store' : DescriptorStore}
    {r : Resolution} (h : w.resolve strict roots t store = (.ok r, store')) :
    ∀ e ∈ r.descriptors, ∀ symbol ∈ e.defines.names ++ e.exports.defines.names, IsSymbol symbol := by
  intro e he symbol hsymbol
  obtain ⟨d, hr⟩ := Workspace.exists_resolved h
  obtain ⟨x, hx⟩ := hr.exists_ownEntry (k := .define) he (List.mem_append.mp hsymbol)
  exact Workspace.isSymbol_of_ownEntry hvalid hw hx

/-- The manifest of a program that depends on a project with a define. -/
def secretManifest (define : String) : Manifest where
  workspace := some { solutionRoot := some "." }
  ruleSets := [{ id := "Core", rules := [Workspace.secretEntry define] }]
  projects := [{ name := "App", publicDependencies := ["Core"] }, { name := "Core", ruleSet := some "Core" }]

theorem declarations_secretManifest (define : String) :
    (secretManifest define).declarations "" = .ok
      { coreDeclarations [Workspace.secretRule define] with
        projects := (appWorkspace [Workspace.secretRule define]).projects
        edges := (appWorkspace [Workspace.secretRule define]).edges } := by
  rfl

theorem registered_secretManifest (define : String) :
    (secretManifest define).registered "" = .ok (Workspace.secretWorkspace define) :=
  bind_eq_ok_iff.mpr ⟨_, declarations_secretManifest define, finish_appWorkspace _⟩

theorem mem_defines_secret :
    "KEY" ∈ ((Workspace.secretWorkspace " KEY\t= 1=2 ").localConfiguration coreProject {}).entries .define := by
  have hparse : parseDefine " KEY\t= 1=2 " = ("KEY", some "1=2") := by decide +kernel
  have hmeaning := (Workspace.declaredBy_secret " KEY\t= 1=2 ").meaning_of_ne_nil (List.cons_ne_nil _ _)
  have hdefines := hmeaning.defines
  simp only [List.flatMap_singleton, Workspace.secretEntry, List.map_singleton, hparse] at hdefines
  exact List.mem_append_left _ (hdefines.mem_names_iff.mpr ⟨_, List.mem_append_left _ (List.mem_singleton.mpr rfl)⟩)

/-- Blanks around the name of a define and further `=` in its value do not get into the symbol. -/
theorem symbols_well_formed_secret :
    (secretManifest " KEY\t= 1=2 ").validate = .ok () ∧
      ∃ w, (secretManifest " KEY\t= 1=2 ").registered "" = .ok w ∧
        ∃ r store, w.resolve false ["App"] {} {} = (.ok r, store) ∧ (∃ e ∈ r.descriptors, "KEY" ∈ e.defines.names) ∧
          ∀ e ∈ r.descriptors, ∀ symbol ∈ e.defines.names ++ e.exports.defines.names, IsSymbol symbol := by
  have hvalid : (secretManifest " KEY\t= 1=2 ").validate = .ok () := by decide +kernel
  have hw := registered_secretManifest " KEY\t= 1=2 "
  obtain ⟨r, store, h⟩ := Workspace.secretWorkspace_resolved " KEY\t= 1=2 "
  refine ⟨hvalid, _, hw, r, store, h, ?_, symbols_well_formed hvalid hw h⟩
  obtain ⟨d, hr⟩ := Workspace.exists_resolved h
  have hneeded : (Workspace.secretWorkspace " KEY\t= 1=2 ").Needed {} ["App"] "Core" :=
    ⟨"App", List.mem_singleton.mpr rfl, .single ⟨appProject, rfl, Or.inl ⟨_, List.mem_singleton.mpr rfl, rfl, rfl, rfl⟩⟩⟩
  have hcore := hr.mem_order_iff.mpr hneeded
  rw [← hr.map_project_descriptors] at hcore
  obtain ⟨e, he, hproject⟩ := List.mem_map.mp hcore
  obtain ⟨hx, -, hdesc⟩ := hr.of_mem_descriptors he
  exact ⟨e, he, (hr.mem_entries_iff (k := .define) hx hdesc).mpr (Or.inl ⟨coreProject, hproject ▸ rfl, mem_defines_secret⟩)⟩

end BuildPlan
