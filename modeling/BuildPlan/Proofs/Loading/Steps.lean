import BuildPlan.Loading
import Mathlib.Logic.Relation
import Mathlib.Order.WellFounded

/-!
# The steps of merging

Merging takes one step after the other (`Surroundings.Step`). Every step leaves less to be done, for all that the files and
directories may include: a file that is merged is one less that is not, an include that is taken is one less while no file is
merged, and a file that is passed over is one less while no include is taken. So no run goes on forever
(`Surroundings.wellFounded_step`), and merging succeeds exactly if its run comes to an end with nothing left
(`Surroundings.mergeAll_eq_ok_iff`).
-/

namespace BuildPlan

open Relation

namespace Surroundings

/-- A step of merging: the first of the pending items is taken. -/
inductive Step (s : Surroundings) : Merging × List Pending → Merging × List Pending → Prop
  /-- An include of a file stands for this file. -/
  | file {m : Merging} {file path text : String} {rest : List Pending}
      (h : s.tree.find? s.workingDirectory (includedPath file path) = some (.file text)) :
      Step s (m, .inclusion file path :: rest) (m, .fragment (includedPath file path) :: rest)
  /-- An include of a directory stands for the fragments below it. -/
  | directory {m : Merging} {file path : String} {entries : List (String × FileTree)} {rest : List Pending}
      (h : s.tree.find? s.workingDirectory (includedPath file path) = some (.directory entries))
      (hsearch : isSearchable (includedPath file path) (.directory entries) = true) :
      Step s (m, .inclusion file path :: rest)
        (m, (fragmentsBelow (includedPath file path) (.directory entries)).map Pending.fragment ++ rest)
  /-- A file that is merged already is passed over. -/
  | again {m : Merging} {file : String} {place : Place} {rest : List Pending}
      (h : s.tree.locate s.workingDirectory file = .ok place) (hold : place ∈ m.visited) :
      Step s (m, .fragment file :: rest) (m, rest)
  /-- Another file is merged, and its includes come next. -/
  | merge {m merged : Merging} {file text : String} {place : Place} {fragment : Manifest} {rest : List Pending}
      (h : s.tree.locate s.workingDirectory file = .ok place) (hnew : place ∉ m.visited)
      (hfile : s.tree.at? place = some (.file text)) (hread : manifestOf file text = .ok fragment)
      (hmerge : mergeOne m place file fragment = .ok merged) :
      Step s (m, .fragment file :: rest) (merged, fragment.includes.map (Pending.inclusion file) ++ rest)

/-- What is still to be done: the files that are not merged, then the includes, then all that is pending. -/
def remaining (s : Surroundings) (x : Merging × List Pending) : Nat × Nat × Nat :=
  ((Reach.unseen s.tree.files x.1.visited).length, inclusions x.2, x.2.length)

variable {s : Surroundings} {m m' merged : Merging} {x y : Merging × List Pending} {pending : List Pending} {file : String}
  {place : Place} {fragment : Manifest}

theorem mergeOne_eq_ok_iff : mergeOne m place file fragment = .ok merged ↔
    ∃ manifest, m.manifest.merge fragment file = (none, manifest) ∧
      merged = ⟨manifest, place :: m.visited, file :: m.latestFirst⟩ := by
  unfold mergeOne
  split
  · rename_i e manifest hmerge
    rw [hmerge]
    exact ⟨fun h => (nomatch h), fun ⟨_, h, _⟩ => (nomatch h)⟩
  · rename_i manifest hmerge
    rw [hmerge]
    constructor
    · intro h
      cases h
      exact ⟨manifest, rfl, rfl⟩
    · rintro ⟨_, h, rfl⟩
      cases h
      rfl

/-- Every step leaves less to be done. -/
theorem Step.remaining_lt (h : s.Step x y) :
    Prod.Lex (· < ·) (Prod.Lex (· < ·) (· < ·)) (s.remaining y) (s.remaining x) := by
  cases h with
  | file h => exact .right _ (.left _ _ (Nat.lt_succ_self _))
  | directory h hsearch =>
    refine .right _ (.left _ _ ?_)
    dsimp only
    rw [inclusions_fragments]
    exact Nat.lt_succ_self _
  | again h hold => exact .right _ (.right _ (Nat.lt_succ_self _))
  | merge h hnew hfile hread hmerge =>
    obtain ⟨manifest, -, rfl⟩ := mergeOne_eq_ok_iff.mp hmerge
    exact .left _ _ (Reach.unseen_cons_lt (FileTree.mem_files_of_at? hfile) hnew)

/-- No run of steps goes on forever. -/
theorem wellFounded_step (s : Surroundings) : WellFounded (fun y x => s.Step x y) :=
  Subrelation.wf (fun h => h.remaining_lt)
    (InvImage.wf s.remaining (WellFounded.prod_lex Nat.lt_wfRel.wf (WellFounded.prod_lex Nat.lt_wfRel.wf Nat.lt_wfRel.wf)))

/-! ### Runs -/

/-- Merging goes the way of its steps. -/
theorem Step.mergeAll_eq (h : s.Step x y) : s.mergeAll x.1 x.2 = s.mergeAll y.1 y.2 := by
  cases h with
  | file h =>
    rw [mergeAll, h]
  | directory h hsearch =>
    rw [mergeAll, h]
    exact if_pos hsearch
  | again h hold =>
    rw [mergeAll, h]
    exact dif_pos hold
  | merge h hnew hfile hread hmerge =>
    rw [mergeAll, h]
    dsimp only
    rw [dif_neg hnew]
    split
    · rename_i text' htext
      rw [hfile] at htext
      cases htext
      rw [hread]
      dsimp only
      split
      · rename_i e he
        rw [hmerge] at he
        cases he
      · rename_i merged' hmerged
        rw [hmerge] at hmerged
        cases hmerged
        rfl
    · rename_i hno
      exact absurd hfile (hno _)

/-- Merging succeeds exactly if its run comes to an end with nothing left. -/
theorem mergeAll_eq_ok_iff : s.mergeAll m pending = .ok m' ↔ ReflTransGen s.Step (m, pending) (m', []) := by
  constructor
  · intro h
    fun_induction mergeAll s m pending with
    | case1 m =>
      cases h
      exact .refl
    | case2 m file path rest text hfind ih => exact .head (.file hfind) (ih h)
    | case3 m file path rest entries hfind hsearch ih => exact .head (.directory hfind hsearch) (ih h)
    | case8 m file rest place hplace hold ih => exact .head (.again hplace hold) (ih h)
    | case11 m file rest place hplace hnew text hfile fragment hread merged hmerge ih =>
      exact .head (.merge hplace hnew hfile hread hmerge) (ih h)
    | case4 | case5 | case6 | case7 | case9 | case10 | case12 => cases h
  · intro h
    have hall : ∀ x, ReflTransGen s.Step x (m', []) → s.mergeAll x.1 x.2 = .ok m' := by
      intro x hx
      induction hx using ReflTransGen.head_induction_on with
      | refl => rw [mergeAll]
      | head hstep _ ih => rw [hstep.mergeAll_eq, ih]
    exact hall _ h

end Surroundings

end BuildPlan
