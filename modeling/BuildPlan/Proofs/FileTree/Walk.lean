import BuildPlan.Loading
import BuildPlan.Proofs.FileTree
import Mathlib.Data.List.Sort
import Mathlib.Data.String.Basic

/-!
# Walking through a directory

A walk visits the entries of a directory in the order of their names, each with all that is below it. The fragments below a
directory are those that a walk visits, in this order (`fragmentsBelow_eq`).
-/

namespace BuildPlan

namespace FileTree

/-! ### Well-formed trees -/

mutual

/-- Whether entries of one directory have different names that are names indeed, in all of a tree. -/
def WellFormed : FileTree → Prop
  | file _ => True
  | directory entries => (entries.map Prod.fst).Nodup ∧ EntriesWellFormed entries

/-- Whether the entries of a directory have names and are well-formed. -/
def EntriesWellFormed : List (String × FileTree) → Prop
  | [] => True
  | (name, t) :: rest => IsName name ∧ t.WellFormed ∧ EntriesWellFormed rest

end

/-- What is found by name in well formed entries is well formed. -/
theorem EntriesWellFormed.of_lookup {entries : List (String × FileTree)} {name : String} {t : FileTree}
    (h : EntriesWellFormed entries) (ht : entries.lookup name = some t) : t.WellFormed := by
  induction entries with
  | nil => cases ht
  | cons e rest ih =>
    obtain ⟨n, u⟩ := e
    rw [EntriesWellFormed] at h
    rw [List.lookup_cons] at ht
    split at ht
    · cases ht
      exact h.2.1
    · exact ih h.2.2 ht

/-- What is in a well-formed tree is well-formed. -/
theorem WellFormed.at? {t u : FileTree} {place : Place} (h : t.WellFormed) (hu : t.at? place = some u) : u.WellFormed := by
  induction place generalizing t with
  | nil =>
    rw [at?_nil] at hu
    cases hu
    exact h
  | cons name place ih =>
    cases t with
    | file c => cases hu
    | directory entries =>
      rw [FileTree.at?] at hu
      split at hu
      · cases hu
      · rename_i v hv
        exact ih (h.2.of_lookup hv) hu

mutual

/-- The names on the way to a file are names. -/
theorem WellFormed.isName {t : FileTree} (h : t.WellFormed) : ∀ place ∈ t.files, ∀ n ∈ place, IsName n :=
  match t with
  | file _ => by
    intro place hplace n hn
    rw [files, List.mem_singleton] at hplace
    rw [hplace] at hn
    exact absurd hn List.not_mem_nil
  | directory entries => h.2.isName

/-- The files under well formed entries are found over names. -/
theorem EntriesWellFormed.isName {entries : List (String × FileTree)} (h : EntriesWellFormed entries) :
    ∀ place ∈ filesOf entries, ∀ n ∈ place, IsName n :=
  match entries with
  | [] => fun place hplace => absurd hplace List.not_mem_nil
  | (name, t) :: rest => by
    intro place hplace n hn
    rw [filesOf, List.mem_append, List.mem_map] at hplace
    rcases hplace with ⟨below, hbelow, rfl⟩ | hplace
    · rcases List.mem_cons.mp hn with rfl | hn
      · exact h.1
      · exact h.2.1.isName below hbelow n hn
    · exact h.2.2.isName place hplace n hn

end

/-! ### The walk -/

mutual

/-- The places of all files in the order in which a walk visits them. -/
def walk : FileTree → List Place
  | file _ => [[]]
  | directory entries =>
    ((walks entries).mergeSort (fun a b => decide (a.1 ≤ b.1))).flatMap (fun e => e.2.map (e.1 :: ·))

/-- The walks through the entries of a directory, by their names. -/
def walks : List (String × FileTree) → List (String × List Place)
  | [] => []
  | (name, t) :: rest => (name, t.walk) :: walks rest

end

/-- The walks are those of the entries, in order. -/
theorem map_fst_walks (entries : List (String × FileTree)) : (walks entries).map Prod.fst = entries.map Prod.fst := by
  induction entries with
  | nil => rfl
  | cons e rest ih => rw [walks, List.map_cons, List.map_cons, ih]

mutual

/-- A walk visits all files. -/
theorem walk_perm : (t : FileTree) → t.walk.Perm t.files
  | file _ => List.Perm.refl _
  | directory entries => by
    rw [walk, files]
    exact ((List.mergeSort_perm _ _).flatMap_right _).trans (flatMap_walks_perm entries)

/-- The walks of the entries come to the files under them. -/
theorem flatMap_walks_perm : (entries : List (String × FileTree)) →
    ((walks entries).flatMap (fun e => e.2.map (e.1 :: ·))).Perm (filesOf entries)
  | [] => List.Perm.refl _
  | (name, t) :: rest => by
    rw [walks, List.flatMap_cons, filesOf]
    exact ((walk_perm t).map _).append (flatMap_walks_perm rest)

end

end FileTree

/-! ### The order of the places -/

namespace Place

/-- Of two places one does not come after the other. -/
theorem le_total (p q : Place) : (Place.le p q || Place.le q p) = true := by
  induction p generalizing q with
  | nil => rfl
  | cons a p ih =>
    cases q with
    | nil => rfl
    | cons b q =>
      have hrest := ih q
      rw [Bool.or_eq_true] at hrest
      simp only [Place.le, Bool.or_eq_true, Bool.and_eq_true, decide_eq_true_eq, beq_iff_eq]
      rcases lt_trichotomy a b with hab | rfl | hba
      · exact Or.inl (Or.inl hab)
      · exact hrest.imp (fun h => Or.inr ⟨rfl, h⟩) (fun h => Or.inr ⟨rfl, h⟩)
      · exact Or.inr (Or.inl hba)

/-- What comes before a place comes before all that come after it. -/
theorem le_trans {p q r : Place} (hpq : Place.le p q = true) (hqr : Place.le q r = true) : Place.le p r = true := by
  induction p generalizing q r with
  | nil => rfl
  | cons a p ih =>
    cases q with
    | nil => cases hpq
    | cons b q =>
      cases r with
      | nil => cases hqr
      | cons c r =>
        simp only [Place.le, Bool.or_eq_true, Bool.and_eq_true, decide_eq_true_eq, beq_iff_eq] at hpq hqr ⊢
        rcases hpq with hab | ⟨rfl, hpq⟩
        · rcases hqr with hbc | ⟨rfl, -⟩
          · exact Or.inl (hab.trans hbc)
          · exact Or.inl hab
        · exact hqr.imp id (fun ⟨hac, hqr⟩ => ⟨hac, ih hpq hqr⟩)

/-- Of two different places only one comes before the other. -/
theorem le_antisymm {p q : Place} (hpq : Place.le p q = true) (hqp : Place.le q p = true) : p = q := by
  induction p generalizing q with
  | nil =>
    cases q with
    | nil => rfl
    | cons b q => cases hqp
  | cons a p ih =>
    cases q with
    | nil => cases hpq
    | cons b q =>
      simp only [Place.le, Bool.or_eq_true, Bool.and_eq_true, decide_eq_true_eq, beq_iff_eq] at hpq hqp
      rcases hpq with hab | ⟨rfl, hpq⟩
      · rcases hqp with hba | ⟨rfl, -⟩
        · exact absurd (hab.trans hba) (lt_irrefl a)
        · exact absurd hab (lt_irrefl _)
      · rcases hqp with hbb | ⟨-, hqp⟩
        · exact absurd hbb (lt_irrefl a)
        · rw [ih hpq hqp]

end Place

namespace FileTree

mutual

/-- A walk visits the files in the order of their places. -/
theorem WellFormed.pairwise_walk {t : FileTree} (h : t.WellFormed) : t.walk.Pairwise (fun p q => Place.le p q = true) :=
  match t with
  | file _ => List.pairwise_singleton _ _
  | directory entries => by
    have hnames : ((walks entries).mergeSort (fun a b => decide (a.1 ≤ b.1))).Pairwise (fun a b => a.1 ≠ b.1) := by
      have hnodup : (((walks entries).mergeSort (fun a b => decide (a.1 ≤ b.1))).map Prod.fst).Nodup := by
        rw [((List.mergeSort_perm _ _).map _).nodup_iff, map_fst_walks]
        exact h.1
      exact List.pairwise_map.mp hnodup
    have hsorted : ((walks entries).mergeSort (fun a b => decide (a.1 ≤ b.1))).Pairwise
        (fun a b => decide (a.1 ≤ b.1) = true) := by
      refine List.pairwise_mergeSort (fun a b c hab hbc => ?_) (fun a b => ?_) _
      · exact decide_eq_true ((of_decide_eq_true hab).trans (of_decide_eq_true hbc))
      · simpa using le_total a.1 b.1
    rw [walk, List.pairwise_flatMap]
    refine ⟨fun e he => ?_, (hsorted.and hnames).imp ?_⟩
    · have hwalk := h.2.pairwise_walks e ((List.mergeSort_perm _ _).mem_iff.mp he)
      exact hwalk.map _ (fun p q hpq => by simp [Place.le, hpq])
    · rintro a b ⟨hle, hne⟩ _ hx _ hy
      obtain ⟨p, -, rfl⟩ := List.mem_map.mp hx
      obtain ⟨q, -, rfl⟩ := List.mem_map.mp hy
      have hlt : a.1 < b.1 := lt_of_le_of_ne (of_decide_eq_true hle) hne
      simp [Place.le, hlt]

/-- Each walk of well formed entries is sorted by place. -/
theorem EntriesWellFormed.pairwise_walks {entries : List (String × FileTree)} (h : EntriesWellFormed entries) :
    ∀ e ∈ walks entries, e.2.Pairwise (fun p q => Place.le p q = true) :=
  match entries with
  | [] => fun e he => absurd he List.not_mem_nil
  | (name, t) :: rest => by
    intro e he
    rw [walks] at he
    rcases List.mem_cons.mp he with rfl | he
    · exact h.2.1.pairwise_walk
    · exact h.2.2.pairwise_walks e he

end

/-- The files in the order of their places are those of a walk. -/
theorem WellFormed.mergeSort_files {t : FileTree} (h : t.WellFormed) (keep : Place → Bool) :
    (t.files.filter keep).mergeSort Place.le = t.walk.filter keep := by
  have hsorted : ((t.files.filter keep).mergeSort Place.le).Pairwise (fun p q => Place.le p q = true) :=
    List.pairwise_mergeSort (fun p q r => Place.le_trans (p := p) (q := q) (r := r)) Place.le_total _
  refine List.Perm.eq_of_pairwise (fun p q _ _ => Place.le_antisymm) hsorted (h.pairwise_walk.filter _) ?_
  exact (List.mergeSort_perm _ _).trans ((t.walk_perm.symm).filter _)

end FileTree

/-- The fragments below a directory are those that a walk visits, in this order. -/
theorem fragmentsBelow_eq {directory : FileTree} (h : directory.WellFormed) (path : String) :
    fragmentsBelow path directory = (directory.walk.filter Place.isFragment).map (Place.pathBelow path) := by
  rw [fragmentsBelow, h.mergeSort_files]

end BuildPlan
