import BuildPlan.Proofs.FileTree.Walk
import BuildPlan.Proofs.Loading.Steps
import BuildPlan.Proofs.Manifest
import BuildPlan.Proofs.Reach.DepthFirst
import Mathlib.Data.List.Pairwise

/-!
# Manifest trees

The files of a tree include each other, whatever paths lead to them (`FileTree.includedFiles`). Loading a manifest visits
the files that it includes, directly or through others, depth first (`Surroundings.depthFirst_of_run`) and merges each of
them once, in the order of first visits (`Surroundings.exists_files_of_run`). So what is loaded are the declarations of all
files that can be reached, and loading fails if one of them cannot be merged or includes what is not there (`manifest_tree_loaded`).
-/

namespace BuildPlan

open Relation

/-! ### What files include -/

namespace FileTree

/-- What the file at a place declares. -/
def manifestAt? (t : FileTree) (place : Place) : Option Manifest :=
  match t.at? place with
  | some (file text) => (Manifest.ofText "" text).toOption
  | _ => none

/-- The files that an include of the file at a place stands for, if it names a file or a directory; a directory stands for
the fragments below it, in the order of a walk. -/
def includeTargets? (t : FileTree) (place : Place) (path : String) : Option (List Place) :=
  match t.lead place.dropLast path with
  | .error _ => none
  | .ok target =>
    match t.at? target with
    | none => none
    | some (file _) => some [target]
    | some (directory entries) => some (((directory entries).walk.filter Place.isFragment).map (target ++ ·))

/-- The files that the file at a place includes, in order. -/
def includedFiles (t : FileTree) (place : Place) : List Place :=
  match t.manifestAt? place with
  | none => []
  | some m => m.includes.flatMap (fun path => (t.includeTargets? place path).getD [])

/-- A file leads to another one through includes. -/
def Reaches (t : FileTree) : Place → Place → Prop := ReflTransGen (fun a b => b ∈ t.includedFiles a)

/-- What is found at a path is what stands at the place that the path is located at. -/
theorem find?_eq_some {root u : FileTree} {wd : Place} {path : String} (h : root.find? wd path = some u) :
    ∃ place, root.locate wd path = .ok place ∧ root.at? place = some u := by
  unfold find? at h
  split at h
  · rename_i place hplace
    exact ⟨place, hplace, h⟩
  · cases h

end FileTree

namespace Surroundings

variable {s : Surroundings} {m m' : Merging} {x y : Merging × List Pending} {pending : List Pending}
  {file path text : String} {place : Place} {fragment : Manifest}

/-- What is read from a file is what the file at the place declares, with the path as the origin. -/
theorem manifestOf_eq_ok (hfile : s.tree.at? place = some (.file text)) (h : manifestOf file text = .ok fragment) :
    ∃ part, s.tree.manifestAt? place = some part ∧ fragment = part.withOrigin file := by
  unfold manifestOf at h
  cases hpart : Manifest.ofText file text with
  | error e =>
    rw [hpart] at h
    cases h
  | ok part =>
    rw [hpart] at h
    cases h
    refine ⟨part, ?_, rfl⟩
    rw [FileTree.manifestAt?, hfile]
    dsimp only
    rw [(Manifest.ofText_eq_ok_iff file "").mp hpart]
    rfl

/-- A path that an include stands for leads where the include leads from the directory of the file. -/
theorem lead_includedPath (hplace : s.tree.locate s.workingDirectory file = .ok place)
    (hfile : s.tree.at? place = some (.file text)) {target : Place}
    (h : s.tree.locate s.workingDirectory (includedPath file path) = .ok target) :
    s.tree.lead place.dropLast path = .ok target := by
  obtain ⟨hne, hlead⟩ := FileTree.locate_eq_ok hplace
  rw [← FileTree.lead_include hne hlead hfile path]
  exact (FileTree.locate_eq_ok h).2

/-- An include that names a file stands for this file. -/
theorem includeTargets?_of_file (hplace : s.tree.locate s.workingDirectory file = .ok place)
    (hfile : s.tree.at? place = some (.file text)) {content : String}
    (h : s.tree.find? s.workingDirectory (includedPath file path) = some (.file content)) :
    ∃ target, s.tree.locate s.workingDirectory (includedPath file path) = .ok target ∧
      s.tree.includeTargets? place path = some [target] := by
  obtain ⟨target, htarget, hat⟩ := FileTree.find?_eq_some h
  refine ⟨target, htarget, ?_⟩
  rw [FileTree.includeTargets?, lead_includedPath hplace hfile htarget]
  dsimp only
  rw [hat]

/-- An include that names a directory stands for the fragments below it. -/
theorem includeTargets?_of_directory (hplace : s.tree.locate s.workingDirectory file = .ok place)
    (hfile : s.tree.at? place = some (.file text)) {entries : List (String × FileTree)}
    (h : s.tree.find? s.workingDirectory (includedPath file path) = some (.directory entries)) :
    ∃ target, s.tree.locate s.workingDirectory (includedPath file path) = .ok target ∧
      s.tree.at? target = some (.directory entries) ∧
      s.tree.includeTargets? place path =
        some (((FileTree.directory entries).walk.filter Place.isFragment).map (target ++ ·)) := by
  obtain ⟨target, htarget, hat⟩ := FileTree.find?_eq_some h
  refine ⟨target, htarget, hat, ?_⟩
  rw [FileTree.includeTargets?, lead_includedPath hplace hfile htarget]
  dsimp only
  rw [hat]

end Surroundings

/-! ### What is pending -/

namespace Pending

/-- The files that a pending item stands for. -/
def places (s : Surroundings) : Pending → List Place
  | .inclusion file path =>
    ((s.tree.locate s.workingDirectory file).toOption.bind (fun place => s.tree.includeTargets? place path)).getD []
  | .fragment file => (s.tree.locate s.workingDirectory file).toOption.toList

/-- An include that is pending is one of a file. -/
def Sound (s : Surroundings) : Pending → Prop
  | .inclusion file _ =>
    ∃ place text, s.tree.locate s.workingDirectory file = .ok place ∧ s.tree.at? place = some (.file text)
  | .fragment _ => True

/-- A pending item leads somewhere. -/
def Resolves (s : Surroundings) : Pending → Prop
  | .inclusion file path =>
    ∃ place, s.tree.locate s.workingDirectory file = .ok place ∧ (s.tree.includeTargets? place path).isSome = true
  | .fragment file => ∃ place, s.tree.locate s.workingDirectory file = .ok place

variable {s : Surroundings} {file path : String} {place : Place}

/-- A fragment to be read stands at the place of its file. -/
theorem places_fragment (h : s.tree.locate s.workingDirectory file = .ok place) : places s (.fragment file) = [place] := by
  rw [places, h]
  rfl

/-- An include to be followed stands for the places it leads to from the place of its file. -/
theorem places_inclusion (h : s.tree.locate s.workingDirectory file = .ok place) :
    places s (.inclusion file path) = (s.tree.includeTargets? place path).getD [] := by
  rw [places, h]
  rfl

end Pending

namespace Surroundings

variable {s : Surroundings} {m m' : Merging} {x y : Merging × List Pending} {pending : List Pending}

/-- Includes come from files that are merged. -/
theorem Step.sound (h : s.Step x y) (hx : ∀ a ∈ x.2, a.Sound s) : ∀ a ∈ y.2, a.Sound s := by
  cases h with
  | file h =>
    intro a ha
    rcases List.mem_cons.mp ha with rfl | ha
    · trivial
    · exact hx a (List.mem_cons_of_mem _ ha)
  | directory h hsearch =>
    intro a ha
    rcases List.mem_append.mp ha with ha | ha
    · obtain ⟨p, -, rfl⟩ := List.mem_map.mp ha
      trivial
    · exact hx a (List.mem_cons_of_mem _ ha)
  | again h hold => exact fun a ha => hx a (List.mem_cons_of_mem _ ha)
  | @merge m merged file text place fragment rest h hnew hfile hread hmerge =>
    intro a ha
    rcases List.mem_append.mp ha with ha | ha
    · obtain ⟨p, -, rfl⟩ := List.mem_map.mp ha
      exact ⟨place, text, h, hfile⟩
    · exact hx a (List.mem_cons_of_mem _ ha)

/-- A step takes an item that leads somewhere, and the other items stay pending. -/
theorem Step.resolves (h : s.Step x y) (hx : ∀ a ∈ x.2, a.Sound s) :
    ∃ a rest, x.2 = a :: rest ∧ a.Resolves s ∧ rest ⊆ y.2 := by
  cases h with
  | file h =>
    obtain ⟨place, text, hplace, hfile⟩ := hx _ List.mem_cons_self
    obtain ⟨target, -, htargets⟩ := includeTargets?_of_file hplace hfile h
    exact ⟨_, _, rfl, ⟨place, hplace, by rw [htargets]; rfl⟩, List.subset_cons_self _ _⟩
  | directory h hsearch =>
    obtain ⟨place, text, hplace, hfile⟩ := hx _ List.mem_cons_self
    obtain ⟨target, -, -, htargets⟩ := includeTargets?_of_directory hplace hfile h
    exact ⟨_, _, rfl, ⟨place, hplace, by rw [htargets]; rfl⟩, List.subset_append_right _ _⟩
  | again h hold => exact ⟨_, _, rfl, ⟨_, h⟩, List.Subset.refl _⟩
  | merge h hnew hfile hread hmerge => exact ⟨_, _, rfl, ⟨_, h⟩, List.subset_append_right _ _⟩

/-- In a run that comes to an end, every pending item leads somewhere. -/
theorem resolves_of_run (h : ReflTransGen s.Step x (m', [])) (hx : ∀ a ∈ x.2, a.Sound s) : ∀ a ∈ x.2, a.Resolves s := by
  induction h using ReflTransGen.head_induction_on with
  | refl => exact fun a ha => absurd ha List.not_mem_nil
  | head hstep _ ih =>
    obtain ⟨a, rest, hpending, ha, hrest⟩ := hstep.resolves hx
    have hafter := ih (hstep.sound hx)
    rw [hpending]
    exact List.forall_mem_cons.mpr ⟨ha, fun b hb => hafter b (hrest hb)⟩

/-! ### The visit -/

/-- The fragments below an included directory stand for the files that the include stands for. -/
theorem flatMap_places_fragments (hs : s.tree.WellFormed) {path : String} {target : Place}
    {entries : List (String × FileTree)} (htarget : s.tree.locate s.workingDirectory path = .ok target)
    (hdirectory : s.tree.at? target = some (.directory entries)) {below : List Place}
    (hbelow : ∀ q ∈ below, q ∈ (FileTree.directory entries).files)
    (hresolves : ∀ q ∈ below, (Pending.fragment (q.pathBelow path)).Resolves s) :
    below.flatMap (fun q => (Pending.fragment (q.pathBelow path)).places s) = below.map (target ++ ·) := by
  obtain ⟨hne, hlead⟩ := FileTree.locate_eq_ok htarget
  rw [← List.flatMap_singleton' (below.map (target ++ ·)), List.flatMap_map]
  refine List.flatMap_congr (fun q hq => ?_)
  obtain ⟨place, hplace⟩ := hresolves q hq
  rw [Pending.places_fragment hplace,
    FileTree.eq_of_lead_foldl_join hne ((hs.at? hdirectory).isName q (hbelow q hq)) hlead (FileTree.locate_eq_ok hplace).2]

/-- The includes of a file stand for the files that it includes. -/
theorem flatMap_places_includes {file : String} {place : Place} {part : Manifest}
    (hplace : s.tree.locate s.workingDirectory file = .ok place) (hpart : s.tree.manifestAt? place = some part) :
    (part.includes.map (Pending.inclusion file)).flatMap (Pending.places s) = s.tree.includedFiles place := by
  rw [List.flatMap_map, FileTree.includedFiles, hpart]
  exact List.flatMap_congr (fun path _ => Pending.places_inclusion hplace)

/-- What is visited after a step is visited from before it. -/
theorem Step.depthFirst (hs : s.tree.WellFormed) (h : s.Step x y) (hx : ∀ a ∈ x.2, a.Sound s)
    (hy : ∀ a ∈ y.2, a.Resolves s) {last : List Place}
    (hvisit : DepthFirst s.tree.includedFiles y.1.visited (y.2.flatMap (Pending.places s)) last) :
    DepthFirst s.tree.includedFiles x.1.visited (x.2.flatMap (Pending.places s)) last := by
  cases h with
  | file h =>
    obtain ⟨place, text, hplace, hfile⟩ := hx _ List.mem_cons_self
    obtain ⟨target, htarget, htargets⟩ := includeTargets?_of_file hplace hfile h
    dsimp only at hvisit ⊢
    rw [List.flatMap_cons, Pending.places_fragment htarget] at hvisit
    rw [List.flatMap_cons, Pending.places_inclusion hplace, htargets]
    exact hvisit
  | @directory m file path entries rest h hsearch =>
    obtain ⟨place, text, hplace, hfile⟩ := hx _ List.mem_cons_self
    obtain ⟨target, htarget, hdirectory, htargets⟩ := includeTargets?_of_directory hplace hfile h
    have hbelow : ∀ q ∈ (FileTree.directory entries).walk.filter Place.isFragment, q ∈ (FileTree.directory entries).files :=
      fun q hq => (FileTree.walk_perm _).mem_iff.mp (List.mem_filter.mp hq).1
    rw [fragmentsBelow_eq (hs.at? hdirectory), List.map_map] at hvisit hy
    have hfragments := flatMap_places_fragments hs htarget hdirectory hbelow
      (fun q hq => hy _ (List.mem_append_left _ (List.mem_map.mpr ⟨q, hq, rfl⟩)))
    dsimp only at hvisit ⊢
    rw [List.flatMap_append, List.flatMap_map] at hvisit
    rw [List.flatMap_cons, Pending.places_inclusion hplace, htargets, Option.getD_some, ← hfragments]
    exact hvisit
  | again h hold =>
    dsimp only
    rw [List.flatMap_cons, Pending.places_fragment h]
    exact .again hold hvisit
  | @merge m merged file text place fragment rest h hnew hfile hread hmerge =>
    obtain ⟨manifest, -, rfl⟩ := mergeOne_eq_ok_iff.mp hmerge
    obtain ⟨part, hpart, rfl⟩ := manifestOf_eq_ok hfile hread
    dsimp only at hvisit ⊢
    rw [List.flatMap_append] at hvisit
    rw [List.flatMap_cons, Pending.places_fragment h]
    refine DepthFirst.visit_append hnew ?_
    rw [← flatMap_places_includes h hpart]
    exact hvisit

/-- A run that comes to an end has visited what was pending, depth first. -/
theorem depthFirst_of_run (hs : s.tree.WellFormed) (h : ReflTransGen s.Step x (m', [])) (hx : ∀ a ∈ x.2, a.Sound s) :
    DepthFirst s.tree.includedFiles x.1.visited (x.2.flatMap (Pending.places s)) m'.visited := by
  induction h using ReflTransGen.head_induction_on with
  | refl => exact .done
  | head hstep hrun ih =>
    have hy := hstep.sound hx
    exact hstep.depthFirst hs hx (resolves_of_run hrun hy) (ih hy)

end Surroundings

/-! ### The files that are merged -/

/-- A file of a manifest tree: the path that has led to it, its place and what it declares. -/
structure ManifestFile where
  path : String
  place : Place
  manifest : Manifest

namespace Surroundings

/-- A file is where its path leads and declares what is read there, each entry with the path as its origin; and each of its
includes names a file or a directory. -/
structure Holds (s : Surroundings) (f : ManifestFile) : Prop where
  located : s.tree.locate s.workingDirectory f.path = .ok f.place
  read : s.readManifest f.path = .ok f.manifest
  declared : ∃ part, s.tree.manifestAt? f.place = some part ∧ f.manifest = part.withOrigin f.path
  includes : ∀ path ∈ f.manifest.includes, (s.tree.includeTargets? f.place path).isSome = true

variable {s : Surroundings} {m m' : Merging} {x y : Merging × List Pending} {pending : List Pending}
  {file text : String} {place : Place} {manifest : Manifest}

/-- A manifest is read exactly if there is a file at the place and its text is a manifest. -/
theorem readManifest_eq_ok_iff (hplace : s.tree.locate s.workingDirectory file = .ok place) :
    s.readManifest file = .ok manifest ↔
      ∃ text, s.tree.at? place = some (.file text) ∧ manifestOf file text = .ok manifest := by
  unfold readManifest FileTree.read
  rw [hplace]
  dsimp only
  cases s.tree.at? place with
  | none => exact ⟨fun h => (nomatch h), fun ⟨_, h, _⟩ => (nomatch h)⟩
  | some t =>
    cases t with
    | directory entries => exact ⟨fun h => (nomatch h), fun ⟨_, h, _⟩ => (nomatch h)⟩
    | file text =>
      constructor
      · exact fun h => ⟨text, rfl, h⟩
      · rintro ⟨_, htext, h⟩
        cases htext
        exact h

/-- A file that is read while all its includes lead somewhere. -/
theorem holds_of_read (hplace : s.tree.locate s.workingDirectory file = .ok place)
    (hread : s.readManifest file = .ok manifest)
    (hincludes : ∀ a ∈ manifest.includes.map (Pending.inclusion file), a.Resolves s) : s.Holds ⟨file, place, manifest⟩ := by
  obtain ⟨text, hfile, hmanifest⟩ := (readManifest_eq_ok_iff hplace).mp hread
  refine ⟨hplace, hread, manifestOf_eq_ok hfile hmanifest, fun path hpath => ?_⟩
  obtain ⟨place', hplace', hsome⟩ := hincludes _ (List.mem_map_of_mem hpath)
  rw [hplace, Except.ok.injEq] at hplace'
  rw [hplace']
  exact hsome

/-- A run that comes to an end has merged files, each as it is, in the order in which they were visited. -/
theorem exists_files_of_run (h : ReflTransGen s.Step x (m', [])) (hx : ∀ a ∈ x.2, a.Sound s) :
    ∃ l : List ManifestFile, m'.visited = (l.map ManifestFile.place).reverse ++ x.1.visited ∧
      m'.latestFirst = (l.map ManifestFile.path).reverse ++ x.1.latestFirst ∧ (∀ f ∈ l, s.Holds f) ∧
      x.1.manifest.Gains (l.map ManifestFile.manifest) m'.manifest := by
  induction h using ReflTransGen.head_induction_on with
  | refl => exact ⟨[], rfl, rfl, fun f hf => absurd hf List.not_mem_nil, .refl _⟩
  | head hstep hrun ih =>
    have hy := hstep.sound hx
    obtain ⟨l, hvisited, hlatest, hholds, hgains⟩ := ih hy
    cases hstep with
    | file h => exact ⟨l, hvisited, hlatest, hholds, hgains⟩
    | directory h hsearch => exact ⟨l, hvisited, hlatest, hholds, hgains⟩
    | again h hold => exact ⟨l, hvisited, hlatest, hholds, hgains⟩
    | @merge m merged file text place fragment rest h hnew hfile hread hmerge =>
      obtain ⟨merged, hmerged, rfl⟩ := mergeOne_eq_ok_iff.mp hmerge
      have hfirst : s.Holds ⟨file, place, fragment⟩ :=
        holds_of_read h ((readManifest_eq_ok_iff h).mpr ⟨text, hfile, hread⟩)
          (fun a ha => resolves_of_run hrun hy a (List.mem_append_left _ ha))
      refine ⟨⟨file, place, fragment⟩ :: l, ?_, ?_, List.forall_mem_cons.mpr ⟨hfirst, hholds⟩,
        (Manifest.gains_of_merge hmerged).trans hgains⟩
      · rw [hvisited, List.map_cons, List.reverse_cons, List.append_assoc, List.singleton_append]
      · rw [hlatest, List.map_cons, List.reverse_cons, List.append_assoc, List.singleton_append]

/-! ### Loading -/

/-- What a manifest and its fragments amount to: the files of a tree in the order of a depth-first visit, and their
declarations one after the other. What the files include settles the visit (`DepthFirst.unique`), so a root has no other
files and no other order of them. -/
structure LoadsTree (s : Surroundings) (root : ManifestFile) (l : List ManifestFile) (manifest : Manifest) : Prop where
  holds : ∀ f ∈ root :: l, s.Holds f
  visit : DepthFirst s.tree.includedFiles [root.place] (s.tree.includedFiles root.place)
    ((l.map ManifestFile.place).reverse ++ [root.place])
  gains : root.manifest.Gains (l.map ManifestFile.manifest) manifest

/-- A tree that loads is loaded from its root, and its fragments are the files behind the root in the order of the visit. -/
theorem loadTree_eq_ok {fragments : List String} (hs : s.tree.WellFormed) (h : s.loadTree file = .ok (manifest, fragments)) :
    ∃ root l, root.path = file ∧ fragments = l.map ManifestFile.path ∧ s.LoadsTree root l manifest := by
  unfold loadTree at h
  obtain ⟨own, hown, h⟩ := bind_eq_ok_iff.mp h
  cases hplace : s.tree.locate s.workingDirectory file with
  | error e =>
    rw [hplace] at h
    cases h
  | ok place =>
    rw [hplace] at h
    obtain ⟨_, hpure, h⟩ := bind_eq_ok_iff.mp h
    cases hpure
    obtain ⟨merged, hmerged, h⟩ := bind_eq_ok_iff.mp h
    cases h
    have hrun := mergeAll_eq_ok_iff.mp hmerged
    obtain ⟨text, hfile, -⟩ := (readManifest_eq_ok_iff hplace).mp hown
    have hsound : ∀ a ∈ own.includes.map (Pending.inclusion file), a.Sound s := by
      intro a ha
      obtain ⟨path, -, rfl⟩ := List.mem_map.mp ha
      exact ⟨place, text, hplace, hfile⟩
    have hroot := holds_of_read hplace hown (resolves_of_run hrun hsound)
    obtain ⟨l, hvisited, hlatest, hholds, hgains⟩ := exists_files_of_run hrun hsound
    have hvisit := depthFirst_of_run hs hrun hsound
    rw [hvisited] at hvisit
    obtain ⟨part, hpart, hown'⟩ := hroot.declared
    have hincludes : own.includes = part.includes := by
      rw [show own = part.withOrigin file from hown']
      rfl
    dsimp only at hvisit
    rw [hincludes, flatMap_places_includes hplace hpart] at hvisit
    refine ⟨⟨file, place, own⟩, l, rfl, ?_, List.forall_mem_cons.mpr ⟨hroot, hholds⟩, hvisit, hgains⟩
    rw [hlatest, List.append_nil, List.reverse_reverse]

namespace LoadsTree

variable {root f g : ManifestFile} {l : List ManifestFile}

/-- No file is merged twice, and the first one is not merged again. -/
theorem nodup (h : s.LoadsTree root l manifest) : ((root :: l).map ManifestFile.place).Nodup := by
  have hlast := h.visit.nodup (List.nodup_singleton _)
  rw [← List.reverse_cons, List.nodup_reverse] at hlast
  exact hlast

/-- The files are those that can be reached. -/
theorem mem_places_iff (h : s.LoadsTree root l manifest) {a : Place} :
    a ∈ (root :: l).map ManifestFile.place ↔ s.tree.Reaches root.place a := by
  rw [FileTree.Reaches, ← h.visit.mem_iff, ← List.reverse_cons, List.mem_reverse]
  rfl

/-- A file that can be reached is one of the files, and this is what it declares. -/
theorem exists_file (h : s.LoadsTree root l manifest) {a : Place} {part : Manifest} (ha : s.tree.Reaches root.place a)
    (hpart : s.tree.manifestAt? a = some part) : ∃ f ∈ root :: l, f.place = a ∧ f.manifest = part.withOrigin f.path := by
  obtain ⟨f, hf, rfl⟩ := List.mem_map.mp (h.mem_places_iff.mpr ha)
  obtain ⟨part', hpart', heq⟩ := (h.holds f hf).declared
  rw [hpart, Option.some.injEq] at hpart'
  exact ⟨f, hf, rfl, hpart' ▸ heq⟩

/-- The presets of the tree are those of its files, one file after the other. -/
theorem presets_eq (h : s.LoadsTree root l manifest) :
    manifest.presets.items = (root :: l).flatMap (fun f => f.manifest.presets.items) := by
  rw [h.gains.presets, List.flatMap_cons, List.flatMap_map]

/-- No preset is declared twice. -/
theorem nodup_presets (h : s.LoadsTree root l manifest) :
    ((root :: l).flatMap (fun f => f.manifest.presets.names)).Nodup := by
  have hnames : (root :: l).flatMap (fun f => f.manifest.presets.names) = manifest.presets.names := by
    rw [Catalog.names, h.presets_eq, List.map_flatMap]
    rfl
  rw [hnames]
  exact manifest.presets.nodup

/-- No two files of the tree declare a preset of the same name. -/
theorem eq_of_mem_presets (h : s.LoadsTree root l manifest) (hf : f ∈ root :: l) (hg : g ∈ root :: l) {name : String}
    (hfname : name ∈ f.manifest.presets.names) (hgname : name ∈ g.manifest.presets.names) : f = g := by
  by_contra hne
  obtain ⟨-, hdisjoint⟩ := List.nodup_flatMap.mp h.nodup_presets
  have hsymm : Std.Symm (Function.onFun List.Disjoint fun f : ManifestFile => f.manifest.presets.names) :=
    ⟨fun _ _ hxy _ hy hx => hxy hx hy⟩
  exact hdisjoint.forall hf hg hne hfname hgname

end LoadsTree

end Surroundings

/-- Loading a manifest with all that it includes. The steps of merging end, whatever the files include, and merging succeeds
exactly if the steps come to an end with nothing left. If loading succeeds, the manifest's own file and the fragments are
the files that can be reached from it through includes, each once and in the order of a depth-first visit; the rule sets,
projects and solutions are those of the files in this order, each with its own file as its origin; the presets are those of
the files in this order, and no two have one name; and the includes and the table of the workspace are the manifest's own.
Loading fails if a file that can be reached, other than the manifest itself, has a table for the workspace, if two files that
can be reached declare a preset of one name, or if an include of a file that can be reached names neither a file nor a
directory. -/
theorem manifest_tree_loaded {s : Surroundings} (hs : s.tree.WellFormed) (file : String) :
    WellFounded (fun y x => s.Step x y) ∧
    (∀ m pending m', s.mergeAll m pending = .ok m' ↔ ReflTransGen s.Step (m, pending) (m', [])) ∧
    (∀ manifest fragments, s.loadTree file = .ok (manifest, fragments) →
      ∃ (root : ManifestFile) (l : List ManifestFile), root.path = file ∧ fragments = l.map ManifestFile.path ∧
        (∀ f ∈ root :: l, s.Holds f ∧ f.manifest.DeclaredIn f.path) ∧
        DepthFirst s.tree.includedFiles [root.place] (s.tree.includedFiles root.place)
          ((l.map ManifestFile.place).reverse ++ [root.place]) ∧
        ((root :: l).map ManifestFile.place).Nodup ∧
        (∀ a, a ∈ (root :: l).map ManifestFile.place ↔ s.tree.Reaches root.place a) ∧
        manifest.ruleSets = (root :: l).flatMap (fun f => f.manifest.ruleSets) ∧
        manifest.projects = (root :: l).flatMap (fun f => f.manifest.projects) ∧
        manifest.solutions = (root :: l).flatMap (fun f => f.manifest.solutions) ∧
        manifest.presets.items = (root :: l).flatMap (fun f => f.manifest.presets.items) ∧
        ((root :: l).flatMap (fun f => f.manifest.presets.names)).Nodup ∧
        manifest.includes = root.manifest.includes ∧ manifest.workspace = root.manifest.workspace) ∧
    ∀ root, s.tree.locate s.workingDirectory file = .ok root →
      ∀ a part, s.tree.Reaches root a → s.tree.manifestAt? a = some part →
        (a ≠ root ∧ part.workspace.isSome = true ∨
          (∃ b other name, s.tree.Reaches root b ∧ b ≠ a ∧ s.tree.manifestAt? b = some other ∧
            name ∈ part.presets.names ∧ name ∈ other.presets.names) ∨
          ∃ path ∈ part.includes, s.tree.includeTargets? a path = none) →
        ∃ e, s.loadTree file = .error e := by
  refine ⟨s.wellFounded_step, fun _ _ _ => Surroundings.mergeAll_eq_ok_iff, ?_, ?_⟩
  · intro manifest fragments h
    obtain ⟨root, l, hpath, hfragments, hloads⟩ := Surroundings.loadTree_eq_ok hs h
    refine ⟨root, l, hpath, hfragments, fun f hf => ⟨hloads.holds f hf, ?_⟩, hloads.visit, hloads.nodup,
      fun a => hloads.mem_places_iff, ?_, ?_, ?_, hloads.presets_eq, hloads.nodup_presets, hloads.gains.includes,
      hloads.gains.workspace⟩
    · obtain ⟨part, -, heq⟩ := (hloads.holds f hf).declared
      rw [heq]
      exact Manifest.declaredIn_withOrigin part f.path
    · rw [hloads.gains.ruleSets, List.flatMap_cons, List.flatMap_map]
    · rw [hloads.gains.projects, List.flatMap_cons, List.flatMap_map]
    · rw [hloads.gains.solutions, List.flatMap_cons, List.flatMap_map]
  · intro root hroot a part ha hpart hfault
    cases h : s.loadTree file with
    | error e => exact ⟨e, rfl⟩
    | ok result =>
      obtain ⟨first, l, rfl, -, hloads⟩ := Surroundings.loadTree_eq_ok hs h
      rw [(hloads.holds first List.mem_cons_self).located, Except.ok.injEq] at hroot
      subst hroot
      obtain ⟨f, hf, rfl, hmanifest⟩ := hloads.exists_file ha hpart
      exfalso
      rcases hfault with ⟨hne, hworkspace⟩ | ⟨b, other, name, hb, hne, hother, hname, hname'⟩ | ⟨path, hinclude, hnone⟩
      · rcases List.mem_cons.mp hf with rfl | hf
        · exact hne rfl
        · have hnone := hloads.gains.parts_workspace _ (List.mem_map_of_mem hf)
          rw [hmanifest] at hnone
          rw [show part.workspace = none from hnone] at hworkspace
          cases hworkspace
      · obtain ⟨g, hg, rfl, hmanifest'⟩ := hloads.exists_file hb hother
        have hfname : name ∈ f.manifest.presets.names := hmanifest ▸ hname
        have hgname : name ∈ g.manifest.presets.names := hmanifest' ▸ hname'
        exact hne (congrArg ManifestFile.place (hloads.eq_of_mem_presets hg hf hgname hfname))
      · have hsome := (hloads.holds f hf).includes path (hmanifest ▸ hinclude)
        rw [hnone] at hsome
        cases hsome

/-! ### A directory that includes the manifest -/

/-- A manifest that includes a directory, with one fragment in it that includes itself and the manifest again. -/
def loopSurroundings : Surroundings where
  tree := .directory [("ws", .directory [
    ("trellis.toml", .file "include = [\"mods\"]\n"),
    ("mods", .directory [("a.trellis.toml",
      .file "include = [\"a.trellis.toml\", \"../trellis.toml\"]\n[[project]]\nname = \"A\"\n")])])]

/-- The manifest of the directory. -/
def loopManifest : Manifest := { includes := ["mods"] }

/-- The fragment in it. -/
def loopFragment : Manifest := { includes := ["a.trellis.toml", "../trellis.toml"], projects := [{ name := "A" }] }

/-- The root of the sample is read. -/
theorem readManifest_loop : loopSurroundings.readManifest "/ws/trellis.toml" = .ok loopManifest := by
  have hplace : loopSurroundings.tree.locate loopSurroundings.workingDirectory "/ws/trellis.toml" =
      .ok ["ws", "trellis.toml"] := by decide
  have htext : Manifest.ofText "/ws/trellis.toml" "include = [\"mods\"]\n" = .ok loopManifest := by decide +kernel
  refine (Surroundings.readManifest_eq_ok_iff hplace).mpr ⟨_, rfl, ?_⟩
  rw [Surroundings.manifestOf, htext]
  rfl

/-- The fragment of the sample is a manifest. -/
theorem manifestOf_loop : Surroundings.manifestOf "/ws/mods/a.trellis.toml"
    "include = [\"a.trellis.toml\", \"../trellis.toml\"]\n[[project]]\nname = \"A\"\n" =
      .ok (loopFragment.withOrigin "/ws/mods/a.trellis.toml") := by
  have htext : Manifest.ofText "/ws/mods/a.trellis.toml"
      "include = [\"a.trellis.toml\", \"../trellis.toml\"]\n[[project]]\nname = \"A\"\n" = .ok loopFragment := by
    decide +kernel
  rw [Surroundings.manifestOf, htext]
  rfl

/-- Merging takes the fragment and passes over both of its includes. -/
theorem run_loop : ReflTransGen loopSurroundings.Step
    (⟨loopManifest, [["ws", "trellis.toml"]], []⟩, [.inclusion "/ws/trellis.toml" "mods"])
    (⟨{ loopManifest with projects := (loopFragment.withOrigin "/ws/mods/a.trellis.toml").projects },
      [["ws", "mods", "a.trellis.toml"], ["ws", "trellis.toml"]], ["/ws/mods/a.trellis.toml"]⟩, []) := by
  have hfragments : ∀ content, fragmentsBelow (includedPath "/ws/trellis.toml" "mods")
      (.directory [("a.trellis.toml", .file content)]) = ["/ws/mods/a.trellis.toml"] := by
    intro content
    have hfiles : (FileTree.directory [("a.trellis.toml", .file content)]).files.filter Place.isFragment =
        [["a.trellis.toml"]] := rfl
    rw [fragmentsBelow, hfiles, List.mergeSort_singleton]
    decide
  have hplace : loopSurroundings.tree.locate loopSurroundings.workingDirectory "/ws/mods/a.trellis.toml" =
      .ok ["ws", "mods", "a.trellis.toml"] := by decide
  have hself : loopSurroundings.tree.locate loopSurroundings.workingDirectory
      (includedPath "/ws/mods/a.trellis.toml" "a.trellis.toml") = .ok ["ws", "mods", "a.trellis.toml"] := by decide
  have hback : loopSurroundings.tree.locate loopSurroundings.workingDirectory
      (includedPath "/ws/mods/a.trellis.toml" "../trellis.toml") = .ok ["ws", "trellis.toml"] := by decide
  refine .head (.directory rfl (by decide)) ?_
  rw [hfragments]
  refine .head (.merge hplace (by decide) rfl manifestOf_loop rfl) ?_
  refine .head (.file rfl) (.head (.again hself (by decide)) ?_)
  exact .head (.file rfl) (.single (.again hback (by decide)))

/-- Loading gives the manifest with the fragment. -/
theorem loadTree_loop : loopSurroundings.loadTree "/ws/trellis.toml" =
    .ok ({ loopManifest with projects := (loopFragment.withOrigin "/ws/mods/a.trellis.toml").projects },
      ["/ws/mods/a.trellis.toml"]) := by
  have hplace : loopSurroundings.tree.locate loopSurroundings.workingDirectory "/ws/trellis.toml" =
      .ok ["ws", "trellis.toml"] := by decide
  unfold Surroundings.loadTree
  refine bind_eq_ok_iff.mpr ⟨_, readManifest_loop, ?_⟩
  rw [hplace]
  exact bind_eq_ok_iff.mpr ⟨_, rfl, bind_eq_ok_iff.mpr ⟨_, Surroundings.mergeAll_eq_ok_iff.mpr run_loop, rfl⟩⟩

/-- The tree of the sample is well formed. -/
theorem wellFormed_loop : loopSurroundings.tree.WellFormed := by
  simp [loopSurroundings, FileTree.WellFormed, FileTree.EntriesWellFormed, FileTree.IsName]

/-- The fragment is merged once, although it can be reached from itself and leads back to the manifest. -/
theorem manifest_tree_loaded_loop :
    ∃ (manifest : Manifest) (root f : ManifestFile),
      loopSurroundings.loadTree "/ws/trellis.toml" = .ok (manifest, ["/ws/mods/a.trellis.toml"]) ∧
      loopSurroundings.Holds f ∧ f.path = "/ws/mods/a.trellis.toml" ∧ f.place ≠ root.place ∧
      (∀ a, loopSurroundings.tree.Reaches root.place a ↔ a = root.place ∨ a = f.place) ∧
      manifest.projects = root.manifest.projects ++ f.manifest.projects := by
  obtain ⟨-, -, hloads, -⟩ := manifest_tree_loaded wellFormed_loop "/ws/trellis.toml"
  obtain ⟨root, l, -, hfragments, hholds, -, hnodup, hreaches, -, hprojects, -⟩ := hloads _ _ loadTree_loop
  have hlength := congrArg List.length hfragments
  obtain ⟨f, rfl⟩ := List.length_eq_one_iff.mp (by simpa using hlength.symm : l.length = 1)
  have hpath : f.path = "/ws/mods/a.trellis.toml" := (List.singleton_inj.mp hfragments).symm
  have hne : f.place ≠ root.place := by
    rw [List.map_cons, List.map_cons, List.map_nil, List.nodup_cons, List.mem_singleton] at hnodup
    exact fun h => hnodup.1 h.symm
  refine ⟨_, root, f, loadTree_loop, (hholds f (List.mem_cons_of_mem _ List.mem_cons_self)).1, hpath, hne, fun a => ?_, ?_⟩
  · rw [← hreaches a, List.map_cons, List.map_cons, List.map_nil, List.mem_pair]
  · rw [hprojects, List.flatMap_cons, List.flatMap_singleton]

end BuildPlan
