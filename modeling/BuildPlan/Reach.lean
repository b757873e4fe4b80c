import BuildPlan.Catalog

/-!
# Reach

Breadth-first search over names. The search knows a finite universe that it never leaves apart from its start, so it ends:
with every step either a name of the universe is seen for the first time or the queue gets shorter.
-/

namespace BuildPlan.Reach

variable {α : Type} [DecidableEq α]

/-- The members of the universe that have not been seen. -/
def unseen (univ seen : List α) : List α := univ.filter (fun n => !seen.contains n)

/-- The names among some that belong to the universe and have not been seen, each once. -/
def fresh (univ seen names : List α) : List α :=
  distinct (names.filter (fun n => univ.contains n && !seen.contains n))

theorem addNew_subset {l : List α} {a x : α} (h : x ∈ addNew l a) : x ∈ l ∨ x = a := by
  unfold addNew at h
  split at h
  · exact Or.inl h
  · simpa using h

theorem addAll_subset (more l : List α) {x : α} (h : x ∈ addAll l more) : x ∈ l ∨ x ∈ more := by
  induction more generalizing l with
  | nil => exact Or.inl h
  | cons a more ih =>
    rcases ih (addNew l a) h with h | h
    · rcases addNew_subset h with h | h
      · exact Or.inl h
      · exact Or.inr (by simp [h])
    · exact Or.inr (by simp [h])

/-- Fresh names belong to the universe and have not been seen. -/
theorem of_mem_fresh {univ seen names : List α} {x : α} (h : x ∈ fresh univ seen names) :
    x ∈ univ ∧ x ∉ seen := by
  rcases addAll_subset _ _ h with h | h
  · simp at h
  · simpa using (List.mem_filter.mp h).2

/-- Seeing a name of the universe for the first time leaves fewer unseen. -/
theorem unseen_append_lt {univ seen more : List α} {x : α} (hx : x ∈ more) (hu : x ∈ univ) (hs : x ∉ seen) :
    (unseen univ (seen ++ more)).length < (unseen univ seen).length := by
  unfold unseen
  induction univ with
  | nil => simp at hu
  | cons a univ ih =>
    have le : ∀ l : List α, (l.filter (fun n => !(seen ++ more).contains n)).length ≤
        (l.filter (fun n => !seen.contains n)).length := by
      intro l
      induction l with
      | nil => simp
      | cons b l ihl =>
        simp only [List.filter_cons]
        by_cases hb : seen.contains b
        · have : (seen ++ more).contains b = true := by simp_all
          simp only [hb, this]
          exact ihl
        · by_cases hb' : (seen ++ more).contains b
          · simp only [hb, hb']
            exact Nat.le_succ_of_le ihl
          · simp only [hb, hb']
            exact Nat.succ_le_succ ihl
    rcases List.mem_cons.mp hu with rfl | hu
    · have h1 : (seen ++ more).contains x = true := by simp [hx]
      have h2 : seen.contains x = false := by simpa using hs
      simp only [List.filter_cons, h1, h2]
      exact Nat.lt_succ_of_le (le univ)
    · have := ih hu
      simp only [List.filter_cons]
      by_cases ha : seen.contains a
      · have h1 : (seen ++ more).contains a = true := by simp_all
        simp only [ha, h1]
        exact this
      · by_cases ha' : (seen ++ more).contains a
        · simp only [ha, ha']
          exact Nat.lt_succ_of_lt this
        · simp only [ha, ha']
          exact Nat.succ_lt_succ this

/-- The same for one name in front of those seen. -/
theorem unseen_cons_lt {univ seen : List α} {x : α} (hu : x ∈ univ) (hs : x ∉ seen) :
    (unseen univ (x :: seen)).length < (unseen univ seen).length := by
  have e : unseen univ (x :: seen) = unseen univ (seen ++ [x]) := by
    unfold unseen
    congr 1
    funext n
    simp [Bool.or_comm]
  rw [e]
  exact unseen_append_lt (List.mem_singleton.mpr rfl) hu hs

/-- Everything seen once the queue is empty. The head of the queue adds the fresh names among its neighbours to the end of
the queue. -/
def explore (univ : List α) (next : α → List α) (queue seen : List α) : List α :=
  match queue with
  | [] => seen
  | n :: rest =>
    let new := fresh univ seen (next n)
    explore univ next (rest ++ new) (seen ++ new)
termination_by ((unseen univ seen).length, queue.length)
decreasing_by
  cases h : fresh univ seen (next n) with
  | nil => simp [Prod.lex_def]
  | cons x l =>
    have hx : x ∈ fresh univ seen (next n) := by simp [h]
    have := of_mem_fresh hx
    rw [h] at hx
    exact Prod.Lex.left _ _ (unseen_append_lt hx this.1 this.2)

/-- The roots and every name of the universe that some steps lead to from a root, nearest first. -/
def closure (univ : List α) (next : α → List α) (roots : List α) : List α :=
  explore univ next (distinct roots) (distinct roots)

end BuildPlan.Reach
