import Mathlib.Data.List.Nodup
import Mathlib.Logic.Relation

/-!
# Depth-first visits

A depth-first visit goes to some points in order, and from a point that is met for the first time to all that it leads to
before it goes on (`DepthFirst`). There is one such visit (`DepthFirst.unique`). It meets no point twice (`DepthFirst.nodup`),
and from the points that a first one leads to it meets exactly what can be reached from there (`DepthFirst.mem_iff`).
-/

namespace BuildPlan

open Relation

variable {α : Type}

/-- A depth-first visit of some points, one after the other, that have been met up to now and at the end, the latest first. A
point that was met is passed over; from another one the visit goes to what it leads to, and then on. -/
inductive DepthFirst (next : α → List α) : List α → List α → List α → Prop
  | done {seen : List α} : DepthFirst next seen [] seen
  | again {seen last todo : List α} {a : α} (ha : a ∈ seen) (h : DepthFirst next seen todo last) :
    DepthFirst next seen (a :: todo) last
  | visit {seen inner last todo : List α} {a : α} (ha : a ∉ seen) (h : DepthFirst next (a :: seen) (next a) inner)
    (onward : DepthFirst next inner todo last) : DepthFirst next seen (a :: todo) last

namespace DepthFirst

variable {next : α → List α} {seen inner last todo more : List α} {a : α}

/-- A visit of some points and then of others. -/
theorem append_iff : DepthFirst next seen (todo ++ more) last ↔
    ∃ inner, DepthFirst next seen todo inner ∧ DepthFirst next inner more last := by
  induction todo generalizing seen with
  | nil =>
    refine ⟨fun h => ⟨seen, .done, h⟩, ?_⟩
    rintro ⟨inner, hfirst, h⟩
    cases hfirst
    exact h
  | cons a todo ih =>
    rw [List.cons_append]
    constructor
    · intro h
      cases h with
      | again ha h =>
        obtain ⟨inner, hfirst, h⟩ := ih.mp h
        exact ⟨inner, .again ha hfirst, h⟩
      | visit ha hbelow h =>
        obtain ⟨inner, hfirst, h⟩ := ih.mp h
        exact ⟨inner, .visit ha hbelow hfirst, h⟩
    · rintro ⟨inner, hfirst, h⟩
      cases hfirst with
      | again ha hfirst => exact .again ha (ih.mpr ⟨inner, hfirst, h⟩)
      | visit ha hbelow hfirst => exact .visit ha hbelow (ih.mpr ⟨inner, hfirst, h⟩)

/-- What a point leads to is visited before the points after it. -/
theorem visit_append (ha : a ∉ seen) (h : DepthFirst next (a :: seen) (next a ++ todo) last) :
    DepthFirst next seen (a :: todo) last := by
  obtain ⟨inner, hbelow, honward⟩ := append_iff.mp h
  exact .visit ha hbelow honward

/-- What is met, and in which order, depends on the start only. -/
theorem unique {last' : List α} (h : DepthFirst next seen todo last) (h' : DepthFirst next seen todo last') : last = last' := by
  induction h generalizing last' with
  | done =>
    cases h'
    rfl
  | again ha h ih =>
    cases h' with
    | again _ h' => exact ih h'
    | visit hnew _ _ => exact absurd ha hnew
  | visit ha h onward ih ihOnward =>
    cases h' with
    | again hold _ => exact absurd hold ha
    | visit _ h' onward' =>
      cases ih h'
      exact ihOnward onward'

/-- What was met is met at the end. -/
theorem suffix (h : DepthFirst next seen todo last) : seen <:+ last := by
  induction h with
  | done => exact List.suffix_refl _
  | again ha h ih => exact ih
  | visit ha h onward ih ihOnward => exact (List.suffix_cons _ _).trans (ih.trans ihOnward)

/-- No point is met twice. -/
theorem nodup (h : DepthFirst next seen todo last) (hseen : seen.Nodup) : last.Nodup := by
  induction h with
  | done => exact hseen
  | again ha h ih => exact ih hseen
  | visit ha h onward ih ihOnward => exact ihOnward (ih (List.nodup_cons.mpr ⟨ha, hseen⟩))

theorem todo_subset (h : DepthFirst next seen todo last) : todo ⊆ last := by
  induction h with
  | done => exact List.nil_subset _
  | again ha h ih => exact List.cons_subset.mpr ⟨h.suffix.subset ha, ih⟩
  | visit ha h onward ih ihOnward =>
    exact List.cons_subset.mpr ⟨onward.suffix.subset (h.suffix.subset List.mem_cons_self), ihOnward⟩

/-- What is met leads only to what is met. -/
theorem closed (h : DepthFirst next seen todo last) : ∀ b ∈ last, b ∈ seen ∨ next b ⊆ last := by
  induction h with
  | done => exact fun b hb => Or.inl hb
  | again ha h ih => exact ih
  | @visit seen inner last todo a ha h onward ih ihOnward =>
    intro b hb
    rcases ihOnward b hb with hb | hb
    · rcases ih b hb with hb | hb
      · rcases List.mem_cons.mp hb with rfl | hb
        · exact Or.inr (List.Subset.trans h.todo_subset onward.suffix.subset)
        · exact Or.inl hb
      · exact Or.inr (List.Subset.trans hb onward.suffix.subset)
    · exact Or.inr hb

/-- What is met newly can be reached from a point that is visited. -/
theorem reached (h : DepthFirst next seen todo last) :
    ∀ b ∈ last, b ∈ seen ∨ ∃ c ∈ todo, ReflTransGen (fun x y => y ∈ next x) c b := by
  induction h with
  | done => exact fun b hb => Or.inl hb
  | again ha h ih =>
    intro b hb
    rcases ih b hb with hb | ⟨c, hc, hcb⟩
    · exact Or.inl hb
    · exact Or.inr ⟨c, List.mem_cons_of_mem _ hc, hcb⟩
  | @visit seen inner last todo a ha h onward ih ihOnward =>
    intro b hb
    rcases ihOnward b hb with hb | ⟨c, hc, hcb⟩
    · rcases ih b hb with hb | ⟨c, hc, hcb⟩
      · rcases List.mem_cons.mp hb with rfl | hb
        · exact Or.inr ⟨b, List.mem_cons_self, .refl⟩
        · exact Or.inl hb
      · exact Or.inr ⟨a, List.mem_cons_self, ReflTransGen.head hc hcb⟩
    · exact Or.inr ⟨c, List.mem_cons_of_mem _ hc, hcb⟩

/-- A visit of what a first point leads to meets exactly what can be reached from there. -/
theorem mem_iff (h : DepthFirst next [a] (next a) last) {b : α} :
    b ∈ last ↔ ReflTransGen (fun x y => y ∈ next x) a b := by
  constructor
  · intro hb
    rcases h.reached b hb with hb | ⟨c, hc, hcb⟩
    · rw [List.mem_singleton.mp hb]
    · exact ReflTransGen.head hc hcb
  · intro hab
    induction hab with
    | refl => exact h.suffix.subset (List.mem_singleton.mpr rfl)
    | tail _ hstep ih =>
      rcases h.closed _ ih with hb | hb
      · rw [List.mem_singleton.mp hb] at hstep
        exact h.todo_subset hstep
      · exact hb hstep

end DepthFirst

end BuildPlan
