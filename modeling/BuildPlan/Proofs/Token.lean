import BuildPlan.Token
import Mathlib.Data.List.Basic

/-!
# Replacing tokens

What one step of the pass over a text does: it keeps a character that opens nothing, it takes a name between an opener and
its closer, and it ends at an opener without a closer. So a percent sign without a second one hides the names behind it,
though they are known (`expand_known_token`).
-/

namespace BuildPlan

namespace TokenValues

variable {v : TokenValues} {c close : Char} {cs name rest : List Char}

/-! ### Cuts -/

theorem closer?_eq_none_iff : closer? c = none ↔ c ≠ '[' ∧ c ≠ '%' := by
  unfold closer?
  split
  · simp
  · simp
  · rename_i hbracket hpercent
    exact ⟨fun _ => ⟨hbracket, hpercent⟩, fun _ => rfl⟩

/-- A cut is made at the first closer. -/
theorem cutAt_eq_some_iff : cutAt close cs = some (name, rest) ↔ cs = name ++ close :: rest ∧ close ∉ name := by
  induction cs generalizing name with
  | nil => simp [cutAt]
  | cons c cs ih =>
    unfold cutAt
    split
    · rename_i hc
      subst hc
      cases name with
      | nil => simp [eq_comm]
      | cons d name =>
        simp only [Option.some.injEq, Prod.mk.injEq, List.nil_eq, reduceCtorEq, false_and, List.cons_append,
          List.cons.injEq, false_iff]
        rintro ⟨⟨rfl, -⟩, hname⟩
        exact hname List.mem_cons_self
    · rename_i hc
      rw [Option.map_eq_some_iff]
      constructor
      · rintro ⟨⟨name', rest'⟩, hcut, heq⟩
        rw [Prod.mk.injEq] at heq
        obtain ⟨rfl, rfl⟩ := heq
        obtain ⟨rfl, hname⟩ := ih.mp hcut
        exact ⟨rfl, by simp [hname, Ne.symm hc]⟩
      · rintro ⟨hcs, hname⟩
        cases name with
        | nil => exact absurd (List.cons.inj hcs).1 hc
        | cons d name =>
          rw [List.cons_append, List.cons.injEq] at hcs
          obtain ⟨rfl, rfl⟩ := hcs
          rw [List.mem_cons, not_or] at hname
          exact ⟨(name, rest), ih.mpr ⟨rfl, hname.2⟩, rfl⟩

theorem cutAt_eq_none_iff : cutAt close cs = none ↔ close ∉ cs := by
  induction cs with
  | nil => simp [cutAt]
  | cons c cs ih =>
    unfold cutAt
    split
    · rename_i hc
      simp [hc]
    · rename_i hc
      rw [Option.map_eq_none_iff, ih, List.mem_cons, not_or]
      exact ⟨fun h => ⟨Ne.symm hc, h⟩, fun h => h.2⟩

/-! ### One step of the pass -/

/-- The pass takes one character, one name between an opener and its closer, or all that is left. -/
theorem expandChars_cons (v : TokenValues) (c : Char) (cs : List Char) :
    v.expandChars (c :: cs) =
      match closer? c with
      | none => c :: v.expandChars cs
      | some close =>
        match cutAt close cs with
        | none => c :: cs
        | some (name, rest) => (v.value? c name).getD (c :: (name ++ [close])) ++ v.expandChars rest := by
  rw [expandChars]
  cases closer? c with
  | none => rfl
  | some close =>
    dsimp only
    split
    · rename_i hcut
      simp only [hcut]
    · rename_i name rest hcut
      simp only [hcut]

theorem expandChars_named (hpair : closer? c = some close) (hname : close ∉ name) :
    v.expandChars (c :: (name ++ close :: rest)) =
      (v.value? c name).getD (c :: (name ++ [close])) ++ v.expandChars rest := by
  have hcut : cutAt close (name ++ close :: rest) = some (name, rest) := cutAt_eq_some_iff.mpr ⟨rfl, hname⟩
  simp only [expandChars_cons, hpair, hcut]

/-- An opener without a closer ends the pass. -/
theorem expandChars_unclosed (hpair : closer? c = some close) (h : close ∉ cs) : v.expandChars (c :: cs) = c :: cs := by
  simp only [expandChars_cons, hpair, cutAt_eq_none_iff.mpr h]

/-- What holds no opener is kept. -/
theorem expandChars_append {text : List Char} (h : ∀ c ∈ text, closer? c = none) :
    v.expandChars (text ++ cs) = text ++ v.expandChars cs := by
  induction text with
  | nil => rfl
  | cons c text ih =>
    rw [List.forall_mem_cons] at h
    simp only [List.cons_append, expandChars_cons, h.1, ih h.2]

/-! ### A stray percent sign -/

/-- The names of known tokens hold no closer and no percent sign. -/
theorem not_mem_of_tokenValue {context : PlanContext} {project : Project} {target : Target} {name value : String}
    (h : (ofProject context project target).tokenValue name = some value) : ']' ∉ name.toList ∧ '%' ∉ name.toList := by
  simp only [ofProject] at h
  split at h
  case h_10 => cases h
  all_goals decide

variable {a b : String}

/-- A text without openers stays as it is. -/
theorem expand_of_plain (h : ∀ c ∈ a.toList, closer? c = none) : v.expand a = a := by
  have hchars : v.expandChars (a.toList ++ []) = a.toList ++ v.expandChars [] := expandChars_append h
  rw [List.append_nil] at hchars
  simp [expand, hchars, expandChars]

/-- A known name in brackets is replaced if no opener comes before it. -/
theorem expand_token {name value : String} (ha : ∀ c ∈ a.toList, closer? c = none) (hname : ']' ∉ name.toList)
    (h : v.tokenValue name = some value) : v.expand (a ++ "[" ++ name ++ "]" ++ b) = a ++ value ++ v.expand b := by
  have hchars : (a ++ "[" ++ name ++ "]" ++ b).toList = a.toList ++ '[' :: (name.toList ++ ']' :: b.toList) := by simp
  unfold expand
  rw [hchars, expandChars_append ha, expandChars_named rfl hname]
  simp [value?, h, String.ofList_append, String.append_assoc]

/-- Nothing is replaced after a percent sign without a second one. -/
theorem expand_stray (hbracket : '[' ∉ a.toList) (hpercent : '%' ∈ a.toList) (hcount : a.toList.count '%' ≤ 1)
    (hb : '%' ∉ b.toList) : v.expand (a ++ b) = a ++ b := by
  obtain ⟨before, after, ha⟩ := List.append_of_mem hpercent
  have hnone : '%' ∉ before ∧ '%' ∉ after := by
    rw [ha, List.count_append, List.count_cons_self] at hcount
    rw [← List.count_eq_zero, ← List.count_eq_zero]
    omega
  have hbefore : ∀ c ∈ before, closer? c = none := by
    intro c hc
    rw [closer?_eq_none_iff]
    constructor
    · rintro rfl
      exact hbracket (by simp [ha, hc])
    · rintro rfl
      exact hnone.1 hc
  have hrest : '%' ∉ after ++ b.toList := by simp [hnone.2, hb]
  have hchars : (a ++ b).toList = before ++ '%' :: (after ++ b.toList) := by simp [ha]
  unfold expand
  rw [hchars, expandChars_append hbefore, expandChars_unclosed rfl hrest, ← hchars, String.ofList_toList]

end TokenValues

/-- What becomes of a known name in brackets, with at most one percent sign and no bracket before it and no percent sign
after it. It is replaced, and so are the names after it, if there is no percent sign. Behind a stray one the whole text stays
as it is written. -/
theorem expand_known_token (context : PlanContext) (project : Project) (target : Target) (a b name value : String)
    (hname : (TokenValues.ofProject context project target).tokenValue name = some value) (hbracket : '[' ∉ a.toList)
    (hcount : a.toList.count '%' ≤ 1) (hb : '%' ∉ b.toList) :
    (TokenValues.ofProject context project target).expand (a ++ "[" ++ name ++ "]" ++ b) =
      if '%' ∈ a.toList then a ++ "[" ++ name ++ "]" ++ b
      else a ++ value ++ (TokenValues.ofProject context project target).expand b := by
  obtain ⟨hcloser, hpercent⟩ := TokenValues.not_mem_of_tokenValue hname
  split
  · rename_i hstray
    have hrest : '%' ∉ ("[" ++ name ++ "]" ++ b).toList := by simp [hpercent, hb]
    have hkept := TokenValues.expand_stray (v := TokenValues.ofProject context project target) hbracket hstray hcount hrest
    simpa only [String.append_assoc] using hkept
  · rename_i hnone
    refine TokenValues.expand_token ?_ hcloser hname
    intro c hc
    rw [TokenValues.closer?_eq_none_iff]
    constructor
    · rintro rfl
      exact hbracket hc
    · rintro rfl
      exact hnone hc

/-- The values of a project on the default target. -/
def coreValues : TokenValues := TokenValues.ofProject default { name := "Core", sourceRoot := "Core" } {}

/-- The name of the project is replaced in an ordinary path, and stays behind a percent sign. -/
theorem expand_known_token_core :
    coreValues.expand "bin/[project.Name]/Public" = "bin/Core/Public" ∧
      coreValues.expand "100% [project.Name]/Public" = "100% [project.Name]/Public" := by
  have hkept : coreValues.expand "/Public" = "/Public" := TokenValues.expand_of_plain (by simp [TokenValues.closer?])
  constructor
  · have h := expand_known_token default { name := "Core", sourceRoot := "Core" } {} "bin/" "/Public" "project.Name" "Core" rfl
      (by decide) (by decide) (by decide)
    rw [if_neg (by decide), ← coreValues, hkept] at h
    exact h
  · have h := expand_known_token default { name := "Core", sourceRoot := "Core" } {} "100% " "/Public" "project.Name" "Core"
      rfl (by decide) (by decide) (by decide)
    rw [if_pos (by decide)] at h
    exact h

/-- Not every known name is replaced: a single percent sign before it hides it. -/
theorem known_token_hidden :
    ¬∀ (context : PlanContext) (project : Project) (target : Target) (a b name value : String),
      (TokenValues.ofProject context project target).tokenValue name = some value → '[' ∉ a.toList →
      a.toList.count '%' ≤ 1 → '%' ∉ b.toList →
        (TokenValues.ofProject context project target).expand (a ++ "[" ++ name ++ "]" ++ b) =
          a ++ value ++ (TokenValues.ofProject context project target).expand b := by
  intro hreplaced
  have h := hreplaced default { name := "Core", sourceRoot := "Core" } {} "100% " "/Public" "project.Name" "Core" rfl
    (by decide) (by decide) (by decide)
  have hstray : coreValues.expand ("100% " ++ "[project.Name]/Public") = "100% " ++ "[project.Name]/Public" :=
    TokenValues.expand_stray (by decide) (by decide) (by decide) (by decide)
  have hkept : coreValues.expand "/Public" = "/Public" := TokenValues.expand_of_plain (by simp [TokenValues.closer?])
  rw [← coreValues, hkept] at h
  exact absurd (hstray.symm.trans h) (by decide)

end BuildPlan
