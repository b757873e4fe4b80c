import BuildPlan.Proofs.Resolution.Outcome

/-!
# Which settings reach a project

A descriptor is assembled from the finished descriptors of its public dependencies and the own exports of its private ones.
Followed through the whole graph this comes to paths: a project exports what the projects at the end of its public paths
export on their own account, and it uses, besides its own settings, what lies at the end of a public path of one or more
edges or of a single private edge.
-/

namespace BuildPlan

open Relation

/-- The kinds of settings that projects hand to their consumers. -/
inductive SharedSetting
  | includePath
  | libraryPath
  | libraryFile
  /-- The symbol of a define. -/
  | define
  deriving DecidableEq

/-- The settings of one kind. -/
def ExportedSettings.entries (e : ExportedSettings) : SharedSetting → List String
  | .includePath => e.includePaths
  | .libraryPath => e.libraryPaths
  | .libraryFile => e.libraryFiles
  | .define => e.defines.names

/-- The settings of one kind, whether or not they are exported. -/
def LocalConfiguration.entries (l : LocalConfiguration) : SharedSetting → List String
  | .includePath => l.settings.includePaths ++ l.settings.privateIncludePaths
  | .libraryPath => l.settings.libraryPaths
  | .libraryFile => l.settings.libraryFiles
  | .define => l.settings.defines.names ++ l.settings.exportDefines.names

/-- The settings of one kind, inherited or not. -/
def Descriptor.entries (e : Descriptor) : SharedSetting → List String
  | .includePath => e.includePaths
  | .libraryPath => e.libraryPaths
  | .libraryFile => e.libraryFiles
  | .define => e.defines.names

namespace Workspace

/-- A project has a setting of its own, exported or private. -/
def OwnEntry (w : Workspace) (t : Target) (k : SharedSetting) (x v : String) : Prop :=
  ∃ p, w.projects.get? x = some p ∧ v ∈ (w.localConfiguration p t).entries k

/-- A project exports a setting on its own account. -/
def OwnExport (w : Workspace) (t : Target) (k : SharedSetting) (x v : String) : Prop :=
  ∃ p, w.projects.get? x = some p ∧ v ∈ (w.localConfiguration p t).ownExports.entries k

end Workspace

/-! ### Merging settings -/

namespace ExportedSettings

theorem mem_entries_absorb {e more : ExportedSettings} {k : SharedSetting} {v : String} :
    v ∈ (e.absorb more).entries k ↔ v ∈ e.entries k ∨ v ∈ more.entries k := by
  cases k with
  | includePath => exact mem_addAll
  | libraryPath => exact mem_addAll
  | libraryFile => exact mem_addAll
  | define => exact Catalog.mem_names_foldl_putNew

theorem mem_entries_absorbAll {parts : List ExportedSettings} {k : SharedSetting} {v : String} :
    v ∈ (absorbAll parts).entries k ↔ ∃ part ∈ parts, v ∈ part.entries k := by
  have key : ∀ e : ExportedSettings, v ∈ (parts.foldl absorb e).entries k ↔
      v ∈ e.entries k ∨ ∃ part ∈ parts, v ∈ part.entries k := by
    induction parts with
    | nil => simp
    | cons part parts ih =>
      intro e
      rw [List.foldl_cons, ih, mem_entries_absorb, List.exists_mem_cons_iff, or_assoc]
  have hempty : v ∉ ({} : ExportedSettings).entries k := by
    cases k with
    | define => exact List.not_mem_nil
    | _ => exact List.not_mem_nil
  rw [absorbAll, key, or_iff_right hempty]

end ExportedSettings

namespace LocalConfiguration

variable {l : LocalConfiguration} {inherited : List (Visibility × ExportedSettings)} {k : SharedSetting} {v : String}

/-- A project hands on its own exports and what it inherits publicly. -/
theorem mem_entries_exports :
    v ∈ (l.exports inherited).entries k ↔
      v ∈ l.ownExports.entries k ∨ ∃ e ∈ inherited, e.1 = .pub ∧ v ∈ e.2.entries k := by
  rw [exports, ExportedSettings.mem_entries_absorbAll, List.exists_mem_cons_iff]
  refine or_congr_right ?_
  simp only [List.mem_map, List.mem_filter, beq_iff_eq]
  constructor
  · rintro ⟨_, ⟨e, ⟨he, hpub⟩, rfl⟩, hv⟩
    exact ⟨e, he, hpub, hv⟩
  · rintro ⟨e, he, hpub, hv⟩
    exact ⟨_, ⟨e, ⟨he, hpub⟩, rfl⟩, hv⟩

/-- A project uses its own settings and all that it inherits. -/
theorem mem_entries_descriptor {dependencies : List String} :
    v ∈ (l.descriptor inherited dependencies).entries k ↔
      v ∈ l.entries k ∨ ∃ e ∈ inherited, v ∈ e.2.entries k := by
  have hgained : v ∈ (ExportedSettings.absorbAll (inherited.map Prod.snd)).entries k ↔
      ∃ e ∈ inherited, v ∈ e.2.entries k := by
    rw [ExportedSettings.mem_entries_absorbAll]
    simp only [List.mem_map]
    exact ⟨fun ⟨_, ⟨e, he, rfl⟩, hv⟩ => ⟨e, he, hv⟩, fun ⟨e, he, hv⟩ => ⟨_, ⟨e, he, rfl⟩, hv⟩⟩
  rw [← hgained]
  cases k with
  | includePath =>
    refine mem_addAll.trans (or_congr_left ?_)
    rw [mem_addAll]
    exact List.mem_append.symm
  | libraryPath => exact mem_addAll
  | libraryFile => exact mem_addAll
  | define =>
    refine Catalog.mem_names_foldl_putNew.trans (or_congr_left ?_)
    rw [Catalog.mem_names_foldl_put]
    exact List.mem_append.symm

end LocalConfiguration

/-! ### One project -/

theorem TargetGraph.visibility?_eq_some_iff {g : TargetGraph} {n : TargetNode} {x b : String} {v : Visibility}
    (hn : g.node? x = some n) : g.visibility? x b = some v ↔ (b, v) ∈ n.dependencies.items := by
  unfold visibility?
  rw [hn, Option.bind_some]
  exact Keyed.lookup_eq_some_iff

namespace Resolved

variable {w : Workspace} {t : Target} {roots : List String} {d : Discovery} {r : Resolution} {store : DescriptorStore}
  {k : SharedSetting} {x v : String} {e : Descriptor}

/-- What a project inherits, edge by edge: the exports of its public dependencies and the own exports of its private
ones. -/
theorem mem_inheritance_iff (h : Resolved w t roots d r store) {p : Project} {inherited : List (Visibility × ExportedSettings)}
    (hx : w.Needed t roots x) (hp : w.projects.get? x = some p)
    (hi : d.inheritance store x (w.node p t).dependencies.items = .ok inherited) {i : Visibility × ExportedSettings} :
    i ∈ inherited ↔
      (∃ b, r.graph.PublicEdge x b ∧ ∃ e', store.get? b t = some e' ∧ i = (.pub, e'.exports)) ∨
        ∃ b, r.graph.PrivateEdge x b ∧ ∃ q, w.projects.get? b = some q ∧
          i = (.priv, (w.localConfiguration q t).ownExports) := by
  have hn : r.graph.node? x = some (w.node p t) := by
    rw [h.graph]
    exact (h.found.node? x _).mpr ⟨hx, p, hp, rfl⟩
  rw [Discovery.mem_inheritance_iff hi]
  constructor
  · rintro ⟨⟨b, vis⟩, hb, hfrom⟩
    unfold Discovery.inheritedFrom at hfrom
    cases vis with
    | pub =>
      dsimp only at hfrom
      rw [h.found.target] at hfrom
      split at hfrom
      · cases hfrom
      · rename_i e' he'
        cases hfrom
        exact Or.inl ⟨b, (TargetGraph.visibility?_eq_some_iff hn).mpr hb, e', he', rfl⟩
    | priv =>
      dsimp only at hfrom
      split at hfrom
      · cases hfrom
      · rename_i l hl
        cases hfrom
        obtain ⟨-, q, hq, rfl⟩ := (h.found.lookup b l).mp hl
        exact Or.inr ⟨b, (TargetGraph.visibility?_eq_some_iff hn).mpr hb, q, hq, rfl⟩
  · rintro (⟨b, hb, e', he', rfl⟩ | ⟨b, hb, q, hq, rfl⟩)
    · refine ⟨(b, .pub), (TargetGraph.visibility?_eq_some_iff hn).mp hb, ?_⟩
      simp only [Discovery.inheritedFrom, h.found.target, he']
    · have hb' := (TargetGraph.visibility?_eq_some_iff hn).mp hb
      have hl := (h.found.lookup b _).mpr ⟨hx.tail (Workspace.requires_of_mem_node hp hb'), q, hq, rfl⟩
      refine ⟨(b, .priv), hb', ?_⟩
      simp only [Discovery.inheritedFrom, hl]

/-- The exports of a project, from those of its public dependencies. -/
theorem mem_exports_step (h : Resolved w t roots d r store) (he : d.describe r.order store x = .ok e) :
    v ∈ e.exports.entries k ↔ w.OwnExport t k x v ∨
      ∃ b, r.graph.PublicEdge x b ∧ ∃ e', store.get? b t = some e' ∧ v ∈ e'.exports.entries k := by
  obtain ⟨hx, p, inherited, hp, hi, rfl⟩ := h.found.describe_eq_ok_iff.mp he
  have hmem := fun i => h.mem_inheritance_iff hx hp hi (i := i)
  refine LocalConfiguration.mem_entries_exports.trans (or_congr ?_ ?_)
  · simp [Workspace.OwnExport, hp]
  · constructor
    · rintro ⟨i, hi, hpub, hv⟩
      rcases (hmem i).mp hi with ⟨b, hb, e', he', rfl⟩ | ⟨b, hb, q, hq, rfl⟩
      · exact ⟨b, hb, e', he', hv⟩
      · cases hpub
    · rintro ⟨b, hb, e', he', hv⟩
      exact ⟨_, (hmem _).mpr (Or.inl ⟨b, hb, e', he', rfl⟩), rfl, hv⟩

/-- The settings of a project, from the exports of its public dependencies and the own exports of its private ones. -/
theorem mem_entries_step (h : Resolved w t roots d r store) (he : d.describe r.order store x = .ok e) :
    v ∈ e.entries k ↔ w.OwnEntry t k x v ∨
      (∃ b, r.graph.PublicEdge x b ∧ ∃ e', store.get? b t = some e' ∧ v ∈ e'.exports.entries k) ∨
        ∃ b, r.graph.PrivateEdge x b ∧ w.OwnExport t k b v := by
  obtain ⟨hx, p, inherited, hp, hi, rfl⟩ := h.found.describe_eq_ok_iff.mp he
  have hmem := fun i => h.mem_inheritance_iff hx hp hi (i := i)
  refine LocalConfiguration.mem_entries_descriptor.trans (or_congr ?_ ?_)
  · simp [Workspace.OwnEntry, hp]
  · constructor
    · rintro ⟨i, hi, hv⟩
      rcases (hmem i).mp hi with ⟨b, hb, e', he', rfl⟩ | ⟨b, hb, q, hq, rfl⟩
      · exact Or.inl ⟨b, hb, e', he', hv⟩
      · exact Or.inr ⟨b, hb, q, hq, hv⟩
    · rintro (⟨b, hb, e', he', hv⟩ | ⟨b, hb, q, hq, hv⟩)
      · exact ⟨_, (hmem _).mpr (Or.inl ⟨b, hb, e', he', rfl⟩), hv⟩
      · exact ⟨_, (hmem _).mpr (Or.inr ⟨b, hb, q, hq, rfl⟩), hv⟩

/-! ### Paths -/

/-- A project exports what the projects at the end of its public paths export on their own account. The descriptors of the
dependencies are finished before that of a project, so the order carries the induction. -/
theorem mem_exports_iff (h : Resolved w t roots d r store) :
    ∀ x ∈ r.order, ∀ e, store.get? x t = some e →
      (v ∈ e.exports.entries k ↔ ∃ q, ReflTransGen r.graph.PublicEdge x q ∧ w.OwnExport t k q v) := by
  refine h.isOrder.dependenciesFirst.induction ?_
  intro x hx ih e hget
  obtain ⟨e', hget', hdesc⟩ := h.described x hx
  rw [hget, Option.some.injEq] at hget'
  subst hget'
  rw [h.mem_exports_step hdesc]
  have hedge : ∀ b, r.graph.PublicEdge x b → d.graph.Edge x b := by
    intro b hb
    rw [h.graph] at hb
    exact hb.edge
  constructor
  · rintro (hown | ⟨b, hb, e', he', hv⟩)
    · exact ⟨x, ReflTransGen.refl, hown⟩
    · obtain ⟨q, hbq, hq⟩ := (ih b (hedge b hb) e' he').mp hv
      exact ⟨q, ReflTransGen.head hb hbq, hq⟩
  · rintro ⟨q, hxq, hq⟩
    rcases hxq.cases_head with rfl | ⟨b, hb, hbq⟩
    · exact Or.inl hq
    · obtain ⟨e', he', -⟩ := h.described b (h.isOrder.dependenciesFirst.mem hx (hedge b hb))
      exact Or.inr ⟨b, hb, e', he', (ih b (hedge b hb) e' he').mpr ⟨q, hbq, hq⟩⟩

/-- Besides its own settings, a project uses what lies at the end of a public path of one or more edges or of a single
private edge. -/
theorem mem_entries_iff (h : Resolved w t roots d r store) (hx : x ∈ r.order) (he : d.describe r.order store x = .ok e) :
    v ∈ e.entries k ↔ w.OwnEntry t k x v ∨ (∃ q, TransGen r.graph.PublicEdge x q ∧ w.OwnExport t k q v) ∨
      ∃ q, r.graph.PrivateEdge x q ∧ w.OwnExport t k q v := by
  rw [h.mem_entries_step he]
  refine or_congr_right (or_congr_left ?_)
  have hmem : ∀ b, r.graph.PublicEdge x b → b ∈ r.order := by
    intro b hb
    rw [h.graph] at hb
    exact h.isOrder.dependenciesFirst.mem hx hb.edge
  constructor
  · rintro ⟨b, hb, e', he', hv⟩
    obtain ⟨q, hbq, hq⟩ := (h.mem_exports_iff b (hmem b hb) e' he').mp hv
    exact ⟨q, TransGen.head' hb hbq, hq⟩
  · rintro ⟨q, hxq, hq⟩
    obtain ⟨b, hb, hbq⟩ := TransGen.head'_iff.mp hxq
    obtain ⟨e', he', -⟩ := h.described b (hmem b hb)
    exact ⟨b, hb, e', he', (h.mem_exports_iff b (hmem b hb) e' he').mpr ⟨q, hbq, hq⟩⟩

end Resolved

/-- The law of visibility, for the projects of a resolution in their order and every kind of setting. A project exports
what is an own export at the end of a path of public edges. It uses what it has itself, what is an own export at the end of
a path of one or more public edges, and the own exports of its private dependencies. So nothing behind a private edge
passes it, and no private edge adds to what is exported. -/
theorem settings_of_paths {w : Workspace} {strict : Bool} {roots : List String} {t : Target}
    {store store' : DescriptorStore} {r : Resolution} (h : w.resolve strict roots t store = (.ok r, store')) :
    List.Forall₂ (fun name e => e.project = name ∧ ∀ (k : SharedSetting) (v : String),
      (v ∈ e.exports.entries k ↔ ∃ q, ReflTransGen r.graph.PublicEdge name q ∧ w.OwnExport t k q v) ∧
      (v ∈ e.entries k ↔ w.OwnEntry t k name v ∨ (∃ q, TransGen r.graph.PublicEdge name q ∧ w.OwnExport t k q v) ∨
        ∃ q, r.graph.PrivateEdge name q ∧ w.OwnExport t k q v)) r.order r.descriptors := by
  obtain ⟨d, hr⟩ := Workspace.exists_resolved h
  have hall := (List.forall₂_and_left _ _).mpr ⟨fun x hx => hx, hr.descriptors_forall₂⟩
  refine hall.imp ?_
  rintro x e ⟨hx, hproj, hget, hdesc⟩
  exact ⟨hproj, fun k v => ⟨hr.mem_exports_iff x hx e hget, hr.mem_entries_iff hx hdesc⟩⟩

theorem settings_of_paths_threeProjects :
    ∃ r store', Workspace.threeProjects.resolve true ["App"] {} {} = (.ok r, store') ∧
      List.Forall₂ (fun name e => e.project = name ∧ ∀ (k : SharedSetting) (v : String),
        (v ∈ e.exports.entries k ↔
          ∃ q, ReflTransGen r.graph.PublicEdge name q ∧ Workspace.threeProjects.OwnExport {} k q v) ∧
        (v ∈ e.entries k ↔ Workspace.threeProjects.OwnEntry {} k name v ∨
          (∃ q, TransGen r.graph.PublicEdge name q ∧ Workspace.threeProjects.OwnExport {} k q v) ∨
          ∃ q, r.graph.PrivateEdge name q ∧ Workspace.threeProjects.OwnExport {} k q v)) r.order r.descriptors := by
  obtain ⟨r, store', h⟩ := Workspace.threeProjects_resolved true (by decide : ∀ x ∈ ["App"], x ∈ ["Core", "Lib", "App"])
  exact ⟨r, store', h, settings_of_paths h⟩

end BuildPlan
