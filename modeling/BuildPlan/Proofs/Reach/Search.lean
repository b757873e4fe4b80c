import BuildPlan.Proofs.Reach
import Mathlib.Data.List.Perm.Subperm

/-!
# Searches

A search for all that a start leads to takes one waiting name after the other and lets wait in turn what this name leads to,
unless it was found before. Which name is taken next is left open (`Search`). Every turn keeps the balance between the turns,
the names that wait and the names that were found (`Search.length_eq`), and of the names that were found only those that wait
can lead to one that was not (`Search.closed`). So no search goes on forever, and whatever it takes first, it ends with what one
or more steps lead to (`Search.mem_iff`). Breadth-first search is one of these (`Search.exists_explore`).
-/

namespace BuildPlan.Reach

open Relation

variable {α : Type} [DecidableEq α]

/-- What a name leads to and has not been found, each once. -/
def unfound (next : α → List α) (found : List α) (a : α) : List α := distinct ((next a).filter (fun b => b ∉ found))

/-- The states of a search for what a start leads to, after some turns: the names that wait and the names that were found. Each
turn takes one of the names that wait, any of them, and what it finds waits from then on. -/
inductive Search (next : α → List α) (start : α) : Nat → List α → List α → Prop
  | start : Search next start 0 [start] []
  | turn {n : Nat} {before after found : List α} {a : α} (h : Search next start n (before ++ a :: after) found) :
    Search next start (n + 1) (before ++ after ++ unfound next found a) (found ++ unfound next found a)

variable {next : α → List α} {start a b : α} {n n' : Nat} {waiting waiting' found found' : List α}

theorem mem_unfound : b ∈ unfound next found a ↔ b ∈ next a ∧ b ∉ found := by
  simp [unfound, mem_distinct]

/-- In a universe that holds everything, fresh names are the ones that have not been found. -/
theorem fresh_eq_unfound {univ : List α} (h : next a ⊆ univ) : fresh univ found (next a) = unfound next found a := by
  unfold fresh unfound
  refine congrArg distinct (List.filter_congr (fun b hb => ?_))
  have huniv : univ.contains b = true := List.contains_iff_mem.mpr (h hb)
  rw [huniv]
  simp

namespace Search

/-- The name that has waited longest may be taken. -/
theorem turn_head (h : Search next start n (a :: waiting) found) :
    Search next start (n + 1) (waiting ++ unfound next found a) (found ++ unfound next found a) := by
  have hsplit : Search next start n ([] ++ a :: waiting) found := h
  exact hsplit.turn

/-- The name that has waited for the shortest time may be taken. -/
theorem turn_last (h : Search next start n (waiting ++ [a]) found) :
    Search next start (n + 1) (waiting ++ unfound next found a) (found ++ unfound next found a) := by
  have hturn := h.turn
  rwa [List.append_nil] at hturn

theorem nodup (h : Search next start n waiting found) : found.Nodup := by
  induction h with
  | start => exact List.nodup_nil
  | turn h ih =>
    refine List.nodup_append.mpr ⟨ih, nodup_distinct _, ?_⟩
    rintro x hx _ hy rfl
    exact (mem_unfound.mp hy).2 hx

/-- Every turn takes one name off those that wait and adds as many to them as it finds. -/
theorem length_eq (h : Search next start n waiting found) : n + waiting.length = found.length + 1 := by
  induction h with
  | start => rfl
  | turn h ih =>
    simp only [List.length_append, List.length_cons] at ih ⊢
    omega

/-- Only the start and what was found wait. -/
theorem of_mem_waiting (h : Search next start n waiting found) : ∀ b ∈ waiting, b = start ∨ b ∈ found := by
  induction h with
  | start => exact fun b hb => Or.inl (List.mem_singleton.mp hb)
  | turn h ih =>
    intro b hb
    rcases List.mem_append.mp hb with hb | hb
    · have hold := ih b (List.mem_append.mpr ((List.mem_append.mp hb).imp_right (List.mem_cons_of_mem _)))
      exact hold.imp_right (List.mem_append_left _)
    · exact Or.inr (List.mem_append_right _ hb)

/-- One or more steps lead from the start to what was found. -/
theorem reached (h : Search next start n waiting found) : ∀ b ∈ found, TransGen (fun x y => y ∈ next x) start b := by
  induction h with
  | start => exact fun b hb => absurd hb List.not_mem_nil
  | @turn n before after found a h ih =>
    intro b hb
    rcases List.mem_append.mp hb with hb | hb
    · exact ih b hb
    · have hstep : b ∈ next a := (mem_unfound.mp hb).1
      rcases h.of_mem_waiting a List.mem_append_cons_self with rfl | ha
      · exact .single hstep
      · exact (ih a ha).tail hstep

/-- The start and what was found wait, or all they lead to was found. A turn finds all that the name it takes leads to. -/
theorem closed (h : Search next start n waiting found) :
    ∀ x, x = start ∨ x ∈ found → x ∈ waiting ∨ ∀ y ∈ next x, y ∈ found := by
  induction h with
  | start => exact fun x hx => Or.inl (List.mem_singleton.mpr (hx.resolve_right List.not_mem_nil))
  | @turn n before after found a h ih =>
    intro x hx
    by_cases hnew : x ∈ unfound next found a
    · exact Or.inl (List.mem_append_right _ hnew)
    · have hold : x = start ∨ x ∈ found := hx.imp_right (fun hx => (List.mem_append.mp hx).resolve_right hnew)
      by_cases hxa : x = a
      · subst hxa
        refine Or.inr (fun y hy => List.mem_append.mpr ?_)
        by_cases hfound : y ∈ found
        · exact Or.inl hfound
        · exact Or.inr (mem_unfound.mpr ⟨hy, hfound⟩)
      · rcases ih x hold with hwaits | hdone
        · refine Or.inl (List.mem_append_left _ (List.mem_append.mpr ?_))
          exact (List.mem_append.mp hwaits).imp_right (fun hx => (List.mem_cons.mp hx).resolve_left hxa)
        · exact Or.inr (fun y hy => List.mem_append_left _ (hdone y hy))

/-- At the end of a search everything is found that one or more steps lead to, and nothing else. -/
theorem mem_iff (h : Search next start n [] found) : b ∈ found ↔ TransGen (fun x y => y ∈ next x) start b := by
  have hdone : ∀ x, x = start ∨ x ∈ found → ∀ y ∈ next x, y ∈ found :=
    fun x hx => (h.closed x hx).resolve_left List.not_mem_nil
  constructor
  · exact h.reached b
  · intro hb
    induction hb with
    | single hstep => exact hdone start (Or.inl rfl) _ hstep
    | tail _ hstep ih => exact hdone _ (Or.inr ih) _ hstep

/-- What a search has found, every search finds by its end. -/
theorem subset (h : Search next start n waiting found) (h' : Search next start n' [] found') : found ⊆ found' :=
  fun b hb => h'.mem_iff.mpr (h.reached b hb)

/-- What is found does not depend on the order in which names are taken. -/
theorem perm (h : Search next start n [] found) (h' : Search next start n' [] found') : found.Perm found' :=
  (List.perm_ext_iff_of_nodup h.nodup h'.nodup).mpr (fun _ => h.mem_iff.trans h'.mem_iff.symm)

/-- No search takes more turns than one that is over. -/
theorem le_turns (h : Search next start n waiting found) (h' : Search next start n' [] found') : n ≤ n' := by
  have hlength : found.length ≤ found'.length := (h.nodup.subperm (h.subset h')).length_le
  have hbalance := h.length_eq
  have hbalance' := h'.length_eq
  simp only [List.length_nil] at hbalance'
  omega

/-- A search is over after as many turns as another one that is over, and not before: no search takes one turn more. -/
theorem waiting_eq_nil_iff (h : Search next start n waiting found) (h' : Search next start n' [] found') :
    waiting = [] ↔ n = n' := by
  constructor
  · rintro rfl
    exact Nat.le_antisymm (h.le_turns h') (h'.le_turns h)
  · rintro rfl
    cases waiting with
    | nil => rfl
    | cons a rest => exact absurd (h.turn_head.le_turns h') (by omega)

/-- Taking the name that has waited longest is one way to search, and it comes to an end. -/
theorem exists_explore {univ : List α} (huniv : ∀ x, next x ⊆ univ) (waiting found : List α) :
    ∀ n, Search next start n waiting found → ∃ n', Search next start n' [] (explore univ next waiting found) := by
  fun_induction explore univ next waiting found with
  | case1 found => exact fun n h => ⟨n, h⟩
  | case2 found a rest new ih =>
    intro n h
    have hturn := h.turn_head
    rw [← fresh_eq_unfound (huniv a)] at hturn
    exact ih (n + 1) hturn

end Search

end BuildPlan.Reach
