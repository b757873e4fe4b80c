import BuildPlan.Proofs.Resolution.Reference
import BuildPlan.Proofs.Resolution.Visibility

/-!
# The order of inherited settings

Each project merges the finished exports of its public dependencies, which were merged in the same way before. Level by level
this comes to one walk: a project first, then the walk from each of its public dependencies in the order of the edges
(`TargetGraph.IsWalk`). What a project exports are the own exports along its walk, the first of equal values kept and the
first define of a symbol taken (`Resolved.exports_of_walk`); its descriptor has its own settings and then those along the
walks of its dependencies (`Resolved.settings_of_walks`).
-/

namespace BuildPlan

open Relation

/-! ### Merging settings in order -/

/-- Values that come from the parts of a list may have their repeats dropped part by part first. -/
theorem addAll_flatMap_congr {α β γ : Type} [DecidableEq γ] {f : α → List γ} {g : β → List γ} {l : List α} {m : List β}
    (h : List.Forall₂ (fun a b => distinct (f a) = distinct (g b)) l m) (start : List γ) :
    addAll start (l.flatMap f) = addAll start (m.flatMap g) := by
  induction h generalizing start with
  | nil => rfl
  | @cons a b l m hab _ ih =>
    rw [List.flatMap_cons, List.flatMap_cons, addAll_append, addAll_append, ← addAll_distinct start (f a), hab,
      addAll_distinct, ih]

/-- What is found first in several lists is found first in the first list that has it. -/
theorem findSome?_flatMap {α β γ : Type} (f : α → List β) (g : β → Option γ) (l : List α) :
    (l.flatMap f).findSome? g = l.findSome? (fun a => (f a).findSome? g) := by
  induction l with
  | nil => rfl
  | cons a l ih =>
    rw [List.flatMap_cons, List.findSome?_append, ih, List.findSome?_cons]
    cases (f a).findSome? g <;> rfl

/-- Lists of which the items give the same values place by place give the same first value. -/
theorem findSome?_congr {α β γ : Type} {f : α → Option γ} {g : β → Option γ} {l : List α} {m : List β}
    (h : List.Forall₂ (fun a b => f a = g b) l m) : l.findSome? f = m.findSome? g := by
  induction h with
  | nil => rfl
  | cons hab _ ih => rw [List.findSome?_cons, List.findSome?_cons, hab, ih]

namespace ExportedSettings

/-- Absorbed exports add their entries, each once. -/
theorem entries_absorb (e more : ExportedSettings) (k : SharedSetting) :
    (e.absorb more).entries k = addAll (e.entries k) (more.entries k) := by
  cases k with
  | define => exact Catalog.names_foldl_putNew _ _
  | _ => rfl

/-- Several settings one after the other hold the first occurrences of their values. -/
theorem entries_absorbAll (parts : List ExportedSettings) (k : SharedSetting) :
    (absorbAll parts).entries k = distinct (parts.flatMap fun part => part.entries k) := by
  have key : ∀ e : ExportedSettings,
      (parts.foldl absorb e).entries k = addAll (e.entries k) (parts.flatMap fun part => part.entries k) := by
    induction parts with
    | nil => exact fun e => rfl
    | cons part parts ih =>
      intro e
      rw [List.foldl_cons, ih, entries_absorb, List.flatMap_cons, addAll_append]
  have hempty : ({} : ExportedSettings).entries k = [] := by cases k <;> rfl
  rw [absorbAll, key, hempty]
  rfl

/-- Of several settings one after the other, the first that defines a symbol gives its value. -/
theorem lookup_absorbAll (parts : List ExportedSettings) (symbol : String) :
    (absorbAll parts).defines.lookup symbol = parts.findSome? (fun part => part.defines.lookup symbol) := by
  have key : ∀ e : ExportedSettings, (parts.foldl absorb e).defines.lookup symbol =
      (e.defines.lookup symbol).or (parts.findSome? fun part => part.defines.lookup symbol) := by
    induction parts with
    | nil => exact fun e => (Option.or_none).symm
    | cons part parts ih =>
      intro e
      have habsorb : (e.absorb part).defines.lookup symbol =
          (e.defines.lookup symbol).or (part.defines.lookup symbol) := Keyed.lookup_foldl_putNew _ _ _
      rw [List.foldl_cons, ih, habsorb, List.findSome?_cons, Option.or_assoc]
      cases part.defines.lookup symbol <;> rfl
  exact key {}

end ExportedSettings

/-! ### One project -/

/-- Whatever rules are applied, no list of a project's own settings holds a value twice. -/
theorem Workspace.nodup_values_localConfiguration (w : Workspace) (p : Project) (t : Target) (f : ListField) :
    ((w.localConfiguration p t).settings.values f).Nodup := by
  have hchain := ((Configuration.holds_initial p.name t).applyRules (w.appliedRules p t)).values f
  unfold localConfiguration
  dsimp only
  split
  · exact hchain ▸ nodup_distinct _
  · exact values_complete hchain ▸ nodup_distinct _

namespace LocalConfiguration

variable {l : LocalConfiguration} {inherited : List (Visibility × ExportedSettings)} {k : SharedSetting}

/-- A project exports its own exports and then what it inherits publicly, dependency by dependency. -/
theorem entries_exports : (l.exports inherited).entries k =
    addAll (distinct (l.ownExports.entries k))
      ((inherited.filter fun e => e.1 == .pub).flatMap fun e => e.2.entries k) := by
  rw [exports, ExportedSettings.entries_absorbAll, List.flatMap_cons, distinct_append, List.flatMap_map]

/-- A define of the exports is the own one, or that of the first public dependency that has it. -/
theorem lookup_exports (l : LocalConfiguration) (inherited : List (Visibility × ExportedSettings)) (symbol : String) :
    (l.exports inherited).defines.lookup symbol =
      (l.ownExports.defines.lookup symbol).or
        ((inherited.filter fun e => e.1 == .pub).findSome? fun e => e.2.defines.lookup symbol) := by
  rw [exports, ExportedSettings.lookup_absorbAll, List.findSome?_cons, List.findSome?_map]
  cases l.ownExports.defines.lookup symbol <;> rfl

/-- The settings of a project are its own and then what it inherits, dependency by dependency. -/
theorem entries_descriptor (hnodup : ∀ f, (l.settings.values f).Nodup) {dependencies : List String} :
    (l.descriptor inherited dependencies).entries k =
      addAll (distinct (l.entries k)) (inherited.flatMap fun e => e.2.entries k) := by
  have hgained : (ExportedSettings.absorbAll (inherited.map Prod.snd)).entries k =
      distinct (inherited.flatMap fun e => e.2.entries k) := by
    rw [ExportedSettings.entries_absorbAll, List.flatMap_map]
  rw [← addAll_distinct, ← hgained]
  cases k with
  | includePath =>
    have hown : distinct l.settings.includePaths = l.settings.includePaths := distinct_of_nodup (hnodup .includePaths)
    refine congrArg (addAll · _) ?_
    exact ((distinct_append _ _).trans (congrArg (addAll · _) hown)).symm
  | libraryPath => exact congrArg (addAll · _) (distinct_of_nodup (hnodup .libraryPaths)).symm
  | libraryFile => exact congrArg (addAll · _) (distinct_of_nodup (hnodup .libraryFiles)).symm
  | define =>
    refine (Catalog.names_foldl_putNew _ _).trans (congrArg (addAll · _) ?_)
    rw [Catalog.names_foldl_put]
    exact ((distinct_append _ _).trans (congrArg (addAll · _) (distinct_of_nodup l.settings.defines.nodup))).symm

/-- A project's own exported define of a symbol wins over its private one, and this over an inherited one. -/
theorem lookup_descriptor (symbol : String) {dependencies : List String} :
    (l.descriptor inherited dependencies).defines.lookup symbol =
      (l.settings.exportDefines.lookup symbol).or ((l.settings.defines.lookup symbol).or
        (inherited.findSome? fun e => e.2.defines.lookup symbol)) := by
  have hdefines : (l.descriptor inherited dependencies).defines.lookup symbol = _ := Keyed.lookup_foldl_putNew _ _ _
  rw [hdefines, Keyed.lookup_foldl_put, ExportedSettings.lookup_absorbAll, List.findSome?_map, Option.or_assoc]
  rfl

end LocalConfiguration

/-! ### Walks -/

namespace TargetGraph

/-- The direct dependencies of a name in the order of its edges, with their visibility; none if it is not a node. -/
def dependenciesOf (g : TargetGraph) (x : String) : List (String × Visibility) :=
  match g.node? x with
  | none => []
  | some n => n.dependencies.items

/-- The projects that a dependency brings along, given the walk from every project: a private one brings itself alone. -/
def brought (walk : String → List String) (dep : String × Visibility) : List String :=
  match dep.2 with
  | .pub => walk dep.1
  | .priv => [dep.1]

/-- The walk from each of some projects: the project first, and then the walk from each of its public dependencies in the
order of the edges. -/
def IsWalk (g : TargetGraph) (names : List String) (walk : String → List String) : Prop :=
  ∀ x ∈ names, walk x = x :: ((g.dependenciesOf x).filter fun dep => dep.2 == .pub).flatMap fun dep => walk dep.1

/-- The dependencies of a name are its edges with their visibility. -/
theorem mem_dependenciesOf_iff {g : TargetGraph} {x b : String} {v : Visibility} :
    (b, v) ∈ g.dependenciesOf x ↔ g.visibility? x b = some v := by
  unfold dependenciesOf
  cases hn : g.node? x with
  | none => simp [visibility?, hn]
  | some n => exact (visibility?_eq_some_iff hn).symm

/-- A name has each of its dependencies once. -/
theorem nodup_dependenciesOf (g : TargetGraph) (x : String) : ((g.dependenciesOf x).map Prod.fst).Nodup := by
  unfold dependenciesOf
  cases g.node? x with
  | none => exact List.nodup_nil
  | some n => exact n.dependencies.nodup

/-- An edge leads to every dependency of a name. -/
theorem edge_of_mem_dependenciesOf {g : TargetGraph} {x : String} {dep : String × Visibility}
    (h : dep ∈ g.dependenciesOf x) : g.Edge x dep.1 :=
  edge_iff_visibility.mpr ⟨dep.2, mem_dependenciesOf_iff.mp h⟩

/-- Projects with dependencies first have walks: each is made of those before it, which stay as they are. -/
theorem exists_walk {g : TargetGraph} {names : List String} (h : DependenciesFirst g.Edge names) (hnodup : names.Nodup) :
    ∃ walk, g.IsWalk names walk := by
  induction names using List.reverseRecOn with
  | nil => exact ⟨fun _ => [], fun x hx => absurd hx List.not_mem_nil⟩
  | append_singleton names a ih =>
    obtain ⟨hnames, -, hdisjoint⟩ := List.nodup_append.mp hnodup
    have hne : ∀ x ∈ names, x ≠ a := fun x hx => hdisjoint x hx a List.mem_cons_self
    have hfirst : DependenciesFirst g.Edge names := by
      intro l₁ x l₂ he b hb
      exact h l₁ x (l₂ ++ [a]) (by rw [he, List.append_assoc, List.cons_append]) b hb
    obtain ⟨walk, hwalk⟩ := ih hfirst hnames
    refine ⟨Function.update walk a
      (a :: ((g.dependenciesOf a).filter fun dep => dep.2 == .pub).flatMap fun dep => walk dep.1), ?_⟩
    have hkept : ∀ x, (∀ b, g.Edge x b → b ∈ names) → ∀ new,
        ((g.dependenciesOf x).filter fun dep => dep.2 == .pub).flatMap (fun dep => Function.update walk a new dep.1) =
          ((g.dependenciesOf x).filter fun dep => dep.2 == .pub).flatMap fun dep => walk dep.1 := by
      intro x hx new
      refine List.flatMap_congr (fun dep hdep => ?_)
      exact Function.update_of_ne (hne _ (hx _ (edge_of_mem_dependenciesOf (List.mem_filter.mp hdep).1))) _ _
    intro x hx
    rcases List.mem_append.mp hx with hx | hx
    · rw [Function.update_of_ne (hne x hx), hwalk x hx, hkept x (fun b hb => hfirst.mem hx hb)]
    · rw [List.mem_singleton] at hx
      subst hx
      rw [Function.update_self, hkept x (fun b hb => h names x [] rfl b hb)]

end TargetGraph

/-! ### Settings along walks -/

namespace Workspace

variable {w : Workspace} {t : Target} {walk : List String}

/-- What the project of a name exports on its own account. -/
def ownExports (w : Workspace) (t : Target) (x : String) : ExportedSettings :=
  match w.projects.get? x with
  | none => {}
  | some p => (w.localConfiguration p t).ownExports

/-- The own exports along a walk: the values in the order in which they first occur, and for every symbol the value of the
first project that exports it. -/
structure ExportsAlong (w : Workspace) (t : Target) (walk : List String) (e : ExportedSettings) : Prop where
  entries : ∀ k, e.entries k = (walk.flatMap fun q => (w.ownExports t q).entries k).eraseDups
  lookup : ∀ symbol, e.defines.lookup symbol = walk.findSome? fun q => (w.ownExports t q).defines.lookup symbol

/-- The settings of a project and then the own exports along a walk: the values in the order in which they first occur, and
for every symbol the project's own exported define, or else its private one, or else the first one on the walk. -/
structure SettingsAlong (w : Workspace) (t : Target) (own : LocalConfiguration) (walk : List String) (e : Descriptor) :
    Prop where
  entries : ∀ k, e.entries k = (own.entries k ++ walk.flatMap fun q => (w.ownExports t q).entries k).eraseDups
  lookup : ∀ symbol, e.defines.lookup symbol = (own.settings.exportDefines.lookup symbol).or
    ((own.settings.defines.lookup symbol).or (walk.findSome? fun q => (w.ownExports t q).defines.lookup symbol))

/-- The own exports of a declared project are those of its local configuration. -/
theorem ownExports_eq {p : Project} {x : String} (hp : w.projects.get? x = some p) :
    w.ownExports t x = (w.localConfiguration p t).ownExports := by
  unfold ownExports
  rw [hp]

/-- A project that is alone on a walk gives its own exports as they are. -/
theorem exportsAlong_singleton {p : Project} {x : String} (hp : w.projects.get? x = some p) :
    w.ExportsAlong t [x] (w.localConfiguration p t).ownExports where
  entries := by
    intro k
    have hnodup := w.nodup_values_localConfiguration p t
    rw [List.flatMap_singleton, ownExports_eq hp, ← distinct_eq_eraseDups]
    cases k with
    | includePath => exact (distinct_of_nodup (hnodup .includePaths)).symm
    | libraryPath => exact (distinct_of_nodup (hnodup .libraryPaths)).symm
    | libraryFile => exact (distinct_of_nodup (hnodup .libraryFiles)).symm
    | define => exact (distinct_of_nodup (w.localConfiguration p t).settings.exportDefines.nodup).symm
  lookup := by
    intro symbol
    rw [List.findSome?_singleton, ownExports_eq hp]

end Workspace

open Workspace

/-- Where each of some settings comes from a walk, all of them one after the other have the values of these walks. -/
theorem addAll_entries_of_walks {w : Workspace} {t : Target} {walk : String → List String}
    {deps : List (String × Visibility)} {inherited : List (Visibility × ExportedSettings)}
    (h : List.Forall₂ (fun dep i => i.1 = dep.2 ∧ w.ExportsAlong t (TargetGraph.brought walk dep) i.2) deps inherited)
    (start : List String) (k : SharedSetting) :
    addAll start (inherited.flatMap fun i => i.2.entries k) =
      addAll start ((deps.flatMap (TargetGraph.brought walk)).flatMap fun q => (w.ownExports t q).entries k) := by
  rw [List.flatMap_assoc]
  refine (addAll_flatMap_congr (h.imp ?_) start).symm
  rintro dep i ⟨-, hi⟩
  rw [hi.entries k, ← distinct_eq_eraseDups]
  exact (addAll_distinct [] _).symm

/-- A define that is inherited is found along the walks of the dependencies. -/
theorem findSome?_lookup_of_walks {w : Workspace} {t : Target} {walk : String → List String}
    {deps : List (String × Visibility)} {inherited : List (Visibility × ExportedSettings)}
    (h : List.Forall₂ (fun dep i => i.1 = dep.2 ∧ w.ExportsAlong t (TargetGraph.brought walk dep) i.2) deps inherited)
    (symbol : String) :
    (inherited.findSome? fun i => i.2.defines.lookup symbol) =
      (deps.flatMap (TargetGraph.brought walk)).findSome? fun q => (w.ownExports t q).defines.lookup symbol := by
  rw [findSome?_flatMap]
  refine (findSome?_congr (h.imp ?_)).symm
  rintro dep i ⟨-, hi⟩
  exact (hi.lookup symbol).symm

namespace Resolved

variable {w : Workspace} {t : Target} {roots : List String} {d : Discovery} {r : Resolution} {store : DescriptorStore}
  {x : String} {e : Descriptor} {walk : String → List String}

/-- What a project inherits from each direct dependency comes from the walk of the dependency, or from the dependency alone
if it is private, given that this holds of the exports of its public dependencies. -/
theorem inherited_along (h : Resolved w t roots d r store) {p : Project}
    {inherited : List (Visibility × ExportedSettings)} (hx : w.Needed t roots x) (hp : w.projects.get? x = some p)
    (hi : d.inheritance store x (w.node p t).dependencies.items = .ok inherited)
    (hexports : ∀ b, r.graph.Edge x b → ∀ e, store.get? b t = some e → w.ExportsAlong t (walk b) e.exports) :
    List.Forall₂ (fun dep i => i.1 = dep.2 ∧ w.ExportsAlong t (TargetGraph.brought walk dep) i.2)
      (r.graph.dependenciesOf x) inherited := by
  have hnode : r.graph.node? x = some (w.node p t) := by
    rw [h.graph]
    exact (h.found.node? x _).mpr ⟨hx, p, hp, rfl⟩
  have hdeps : r.graph.dependenciesOf x = (w.node p t).dependencies.items := by
    unfold TargetGraph.dependenciesOf
    rw [hnode]
  rw [hdeps]
  have hall := (List.forall₂_and_left _ _).mpr ⟨fun dep hdep => hdep, Discovery.inheritance_eq_ok_iff.mp hi⟩
  refine hall.imp ?_
  rintro ⟨b, v⟩ i ⟨hb, hfrom⟩
  have hedge : r.graph.Edge x b := TargetGraph.edge_of_mem_dependenciesOf (hdeps ▸ hb)
  unfold Discovery.inheritedFrom at hfrom
  cases v with
  | pub =>
    dsimp only at hfrom
    rw [h.found.target] at hfrom
    split at hfrom
    · cases hfrom
    · rename_i e' he'
      cases hfrom
      exact ⟨rfl, hexports b hedge e' he'⟩
  | priv =>
    dsimp only at hfrom
    split at hfrom
    · cases hfrom
    · rename_i l hl
      cases hfrom
      obtain ⟨-, q, hq, rfl⟩ := (h.found.lookup b l).mp hl
      exact ⟨rfl, exportsAlong_singleton hq⟩

/-- The exports of a project are the own exports along its walk, by induction along the order: its exports are made from those
of its dependencies, as its walk is made from theirs. -/
theorem exports_along (h : Resolved w t roots d r store) (hwalk : r.graph.IsWalk r.order walk) :
    ∀ x ∈ r.order, ∀ e, store.get? x t = some e → w.ExportsAlong t (walk x) e.exports := by
  refine h.isOrder.dependenciesFirst.induction ?_
  intro x hx ih e hget
  obtain ⟨e', hget', hdesc⟩ := h.described x hx
  rw [hget, Option.some.injEq] at hget'
  subst hget'
  obtain ⟨hneeded, p, inherited, hp, hi, rfl⟩ := h.found.describe_eq_ok_iff.mp hdesc
  have hall := h.inherited_along hneeded hp hi (fun b hb => ih b (h.graph ▸ hb))
  have hpub : List.Forall₂ (fun dep i => i.1 = dep.2 ∧ w.ExportsAlong t (TargetGraph.brought walk dep) i.2)
      ((r.graph.dependenciesOf x).filter fun dep => dep.2 == .pub) (inherited.filter fun i => i.1 == .pub) :=
    List.rel_filter (fun dep i hdep => by simp only [hdep.1]) hall
  have hx' : walk x =
      x :: ((r.graph.dependenciesOf x).filter fun dep => dep.2 == .pub).flatMap (TargetGraph.brought walk) := by
    rw [hwalk x hx]
    refine congrArg (x :: ·) (List.flatMap_congr (fun dep hdep => ?_))
    have hv : dep.2 = .pub := by simpa using (List.mem_filter.mp hdep).2
    rw [TargetGraph.brought, hv]
  rw [hx']
  constructor
  · intro k
    rw [List.flatMap_cons, ownExports_eq hp, ← distinct_eq_eraseDups, distinct_append, ← addAll_entries_of_walks hpub]
    exact LocalConfiguration.entries_exports
  · intro symbol
    have hlookup := (w.localConfiguration p t).lookup_exports inherited symbol
    rw [findSome?_lookup_of_walks hpub, ← ownExports_eq hp] at hlookup
    rw [List.findSome?_cons]
    refine hlookup.trans ?_
    cases (w.ownExports t x).defines.lookup symbol <;> rfl

/-- The settings of a project are its own and then those along the walks of its dependencies. -/
theorem settings_along (h : Resolved w t roots d r store) (hwalk : r.graph.IsWalk r.order walk) (hx : x ∈ r.order)
    (he : d.describe r.order store x = .ok e) :
    ∃ p, w.projects.get? x = some p ∧
      w.SettingsAlong t (w.localConfiguration p t)
        ((r.graph.dependenciesOf x).flatMap (TargetGraph.brought walk)) e := by
  obtain ⟨hneeded, p, inherited, hp, hi, rfl⟩ := h.found.describe_eq_ok_iff.mp he
  have hall := h.inherited_along hneeded hp hi (fun b hb => h.exports_along hwalk b
    (h.isOrder.dependenciesFirst.mem hx (h.graph ▸ hb)))
  refine ⟨p, hp, ⟨fun k => ?_, fun symbol => ?_⟩⟩
  · rw [← distinct_eq_eraseDups, distinct_append, ← addAll_entries_of_walks hall]
    exact LocalConfiguration.entries_descriptor (w.nodup_values_localConfiguration p t)
  · rw [← findSome?_lookup_of_walks hall]
    exact LocalConfiguration.lookup_descriptor symbol

end Resolved

/-- The order of inherited settings, for the projects of a resolution. There is a walk from each of them: the project, and
then the walk from each of its public dependencies in the order of the edges. What a project exports are the own exports
along this walk, the first of equal values and the first define of each symbol. Its descriptor has its own settings, the
exported ones before the private ones, and then, dependency by dependency in the order of the edges, the own exports along
the walk of a public one and those of a private one alone. Of several defines of a symbol its own exported one wins, then
its own private one, then the first inherited one. -/
theorem inherited_in_order {w : Workspace} {strict : Bool} {roots : List String} {t : Target}
    {store store' : DescriptorStore} {r : Resolution} (h : w.resolve strict roots t store = (.ok r, store')) :
    (∃ walk, r.graph.IsWalk r.order walk) ∧
    ∀ walk, r.graph.IsWalk r.order walk → List.Forall₂ (fun x e => e.project = x ∧
      w.ExportsAlong t (walk x) e.exports ∧
      ∃ p, w.projects.get? x = some p ∧ w.SettingsAlong t (w.localConfiguration p t)
        ((r.graph.dependenciesOf x).flatMap (TargetGraph.brought walk)) e) r.order r.descriptors := by
  obtain ⟨d, hr⟩ := Workspace.exists_resolved h
  refine ⟨?_, fun walk hwalk => ?_⟩
  · rw [hr.graph]
    exact TargetGraph.exists_walk hr.isOrder.dependenciesFirst hr.isOrder.nodup
  · have hall := (List.forall₂_and_left _ _).mpr ⟨fun x hx => hx, hr.descriptors_forall₂⟩
    refine hall.imp ?_
    rintro x e ⟨hx, hproject, hget, hdesc⟩
    exact ⟨hproject, hr.exports_along hwalk x hx e hget, hr.settings_along hwalk hx hdesc⟩

theorem inherited_in_order_threeProjects :
    ∃ r store' walk, Workspace.threeProjects.resolve true ["App"] {} {} = (.ok r, store') ∧
      r.graph.IsWalk r.order walk ∧
      List.Forall₂ (fun x e => e.project = x ∧ Workspace.threeProjects.ExportsAlong {} (walk x) e.exports ∧
        ∃ p, Workspace.threeProjects.projects.get? x = some p ∧
          Workspace.threeProjects.SettingsAlong {} (Workspace.threeProjects.localConfiguration p {})
            ((r.graph.dependenciesOf x).flatMap (TargetGraph.brought walk)) e) r.order r.descriptors := by
  obtain ⟨r, store', h⟩ := Workspace.threeProjects_resolved true (by decide : ∀ x ∈ ["App"], x ∈ ["Core", "Lib", "App"])
  obtain ⟨⟨walk, hwalk⟩, hall⟩ := inherited_in_order h
  exact ⟨r, store', walk, h, hwalk, hall walk hwalk⟩

end BuildPlan
