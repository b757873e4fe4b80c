import BuildPlan.Proofs.Catalog
import BuildPlan.Reach
import Mathlib.Logic.Relation

/-!
# What a search reaches

The breadth-first search over names is exact: it returns the names that some steps lead to from a start, each once. A step
leads from a name to one of its neighbours in the universe.
-/

namespace BuildPlan.Reach

open Relation

variable {α : Type} [DecidableEq α]

/-- One step of the search. -/
def Step (univ : List α) (next : α → List α) (a b : α) : Prop := b ∈ next a ∧ b ∈ univ

/-- The fresh names are those of the universe that were not seen. -/
theorem mem_fresh {univ seen names : List α} {x : α} :
    x ∈ fresh univ seen names ↔ x ∈ names ∧ x ∈ univ ∧ x ∉ seen := by
  simp [fresh, mem_distinct]

/-- What is seen with the fresh names added has no name twice. -/
theorem nodup_seen_append_fresh {univ seen : List α} (h : seen.Nodup) (names : List α) :
    (seen ++ fresh univ seen names).Nodup := by
  rw [List.nodup_append]
  refine ⟨h, nodup_distinct _, ?_⟩
  intro a ha b hb e
  subst e
  exact (mem_fresh.mp hb).2.2 ha

/-- What was seen stays seen. -/
theorem mem_explore_of_seen (univ : List α) (next : α → List α) (queue seen : List α) :
    ∀ x ∈ seen, x ∈ explore univ next queue seen := by
  fun_induction explore univ next queue seen with
  | case1 seen => exact fun x hx => hx
  | case2 seen n rest new ih => exact fun x hx => ih x (List.mem_append_left _ hx)

/-- The search lists no name twice. -/
theorem nodup_explore (univ : List α) (next : α → List α) (queue seen : List α) (h : seen.Nodup) :
    (explore univ next queue seen).Nodup := by
  fun_induction explore univ next queue seen with
  | case1 seen => exact h
  | case2 seen n rest new ih => exact ih (nodup_seen_append_fresh h _)

/-- Everything that is returned is reached from something seen, as long as the queue holds only what was seen. -/
theorem explore_sound (univ : List α) (next : α → List α) (queue seen : List α) (hq : ∀ x ∈ queue, x ∈ seen) :
    ∀ y ∈ explore univ next queue seen, ∃ x ∈ seen, ReflTransGen (Step univ next) x y := by
  fun_induction explore univ next queue seen with
  | case1 seen => exact fun y hy => ⟨y, hy, ReflTransGen.refl⟩
  | case2 seen n rest new ih =>
    intro y hy
    have hq' : ∀ x ∈ rest ++ new, x ∈ seen ++ new := by
      intro x hx
      rcases List.mem_append.mp hx with hx | hx
      · exact List.mem_append_left _ (hq x (List.mem_cons_of_mem _ hx))
      · exact List.mem_append_right _ hx
    obtain ⟨x, hx, hxy⟩ := ih hq' y hy
    rcases List.mem_append.mp hx with hx | hx
    · exact ⟨x, hx, hxy⟩
    · have hstep : Step univ next n x := ⟨(mem_fresh.mp hx).1, (mem_fresh.mp hx).2.1⟩
      exact ⟨n, hq n (by simp), ReflTransGen.head hstep hxy⟩

/-- What is returned is closed under steps, as long as only the names in the queue may have steps to names not seen. -/
theorem explore_closed (univ : List α) (next : α → List α) (queue seen : List α)
    (hd : ∀ x ∈ seen, x ∉ queue → ∀ y, Step univ next x y → y ∈ seen) :
    ∀ x ∈ explore univ next queue seen, ∀ y, Step univ next x y → y ∈ explore univ next queue seen := by
  fun_induction explore univ next queue seen with
  | case1 seen => exact fun x hx y hy => hd x hx (by simp) y hy
  | case2 seen n rest new ih =>
    apply ih
    intro x hx hxq y hy
    rw [List.mem_append, not_or] at hxq
    have hxs : x ∈ seen := (List.mem_append.mp hx).resolve_right hxq.2
    by_cases hxn : x = n
    · subst hxn
      by_cases hys : y ∈ seen
      · exact List.mem_append_left _ hys
      · exact List.mem_append_right _ (mem_fresh.mpr ⟨hy.1, hy.2, hys⟩)
    · exact List.mem_append_left _ (hd x hxs (by simp [hxn, hxq.1]) y hy)

/-- The search returns exactly what steps lead to from a root. -/
theorem mem_closure {univ : List α} {next : α → List α} {roots : List α} {y : α} :
    y ∈ closure univ next roots ↔ ∃ x ∈ roots, ReflTransGen (Step univ next) x y := by
  unfold closure
  constructor
  · intro hy
    obtain ⟨x, hx, hxy⟩ := explore_sound univ next _ _ (fun x hx => hx) y hy
    exact ⟨x, mem_distinct.mp hx, hxy⟩
  · rintro ⟨x, hx, hxy⟩
    induction hxy with
    | refl => exact mem_explore_of_seen univ next _ _ x (mem_distinct.mpr hx)
    | tail _ hbc ih => exact explore_closed univ next _ _ (fun x hx hxq => absurd hx hxq) _ ih _ hbc

/-- The closure lists no name twice. -/
theorem nodup_closure (univ : List α) (next : α → List α) (roots : List α) : (closure univ next roots).Nodup :=
  nodup_explore univ next _ _ (nodup_distinct roots)

/-- A search in another universe is the same where the names that are met have the same neighbours and these belong to both
universes or to none. -/
theorem closure_congr {univ univ' : List α} {next next' : α → List α} {roots : List α} {met : α → Prop}
    (hroots : ∀ x ∈ roots, met x) (hnext : ∀ x, met x → next' x = next x)
    (huniv : ∀ x, met x → ∀ b ∈ next x, b ∈ univ' ↔ b ∈ univ) (hmet : ∀ x b, met x → Step univ next x b → met b) :
    closure univ' next' roots = closure univ next roots := by
  have hexplore : ∀ queue seen, (∀ x ∈ queue, met x) →
      explore univ' next' queue seen = explore univ next queue seen := by
    intro queue seen
    fun_induction explore univ next queue seen with
    | case1 seen => exact fun _ => by rw [explore]
    | case2 seen n rest new ih =>
      intro hq
      have hn : met n := hq n List.mem_cons_self
      have hfresh : fresh univ' seen (next' n) = new := by
        unfold fresh
        rw [hnext n hn]
        refine congrArg distinct (List.filter_congr (fun b hb => ?_))
        have hcontains : univ'.contains b = univ.contains b := by
          rw [Bool.eq_iff_iff, List.contains_iff_mem, List.contains_iff_mem]
          exact huniv n hn b hb
        rw [hcontains]
      rw [explore, hfresh]
      refine ih (fun x hx => ?_)
      rcases List.mem_append.mp hx with hx | hx
      · exact hq x (List.mem_cons_of_mem _ hx)
      · obtain ⟨hb, hu, -⟩ := mem_fresh.mp hx
        exact hmet n x hn ⟨hb, hu⟩
  exact hexplore _ _ (fun x hx => hroots x (mem_distinct.mp hx))

end BuildPlan.Reach
