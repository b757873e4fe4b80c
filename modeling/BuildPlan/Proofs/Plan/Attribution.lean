import BuildPlan.Proofs.Graph.Cycle
import BuildPlan.Proofs.Plan.Failures

/-!
# The project a failure is attributed to

Where a target fails for a cycle or for a variant that is missing, a project is at fault: it lies on the cycle, or it requires
what has no variant (`Workspace.blames_of_schedule`). The error of a missing variant holds the name of this project. That of a
cycle holds all names of the cycle, and the failure is attributed to what stands before the first arrow of their text: a part
of the first name, and the whole name exactly if the text is not cut within it (`Text.before_append_separator_eq_iff`). So a
failure is attributed to a project at fault unless the name of this project cuts the text (`failures_attributed`), and a name
with an arrow in it does (`cycle_misattributed`).
-/

namespace BuildPlan

open Relation

/-! ### The text before a separator -/

namespace Text

/-- A separator begins within a name that is followed by it: it stands in the name, or the end of the name and the beginning of
the separator make one. -/
def Cuts (separator name : String) : Prop := separator.toList <:+: name.toList ++ separator.toList.dropLast

instance (separator name : String) : Decidable (Cuts separator name) := inferInstanceAs (Decidable (_ <:+: _))

theorem prefix_append_iff {sep l : List Char} (rest : List Char) (h : sep.length ≤ l.length) :
    sep <+: l ++ rest ↔ sep <+: l :=
  ⟨fun hsep => List.prefix_of_prefix_length_le hsep (List.prefix_append l rest) h,
    fun hsep => hsep.trans (List.prefix_append l rest)⟩

/-- What comes after the first separator has no influence on the text before it. -/
theorem beforeChars_append {sep cs : List Char} (h : sep <:+: cs) (rest : List Char) :
    beforeChars sep (cs ++ rest) = beforeChars sep cs := by
  induction cs with
  | nil =>
    rw [List.infix_nil.mp h]
    cases rest <;> rfl
  | cons c cs ih =>
    have hprefix : sep.isPrefixOf (c :: (cs ++ rest)) = sep.isPrefixOf (c :: cs) := by
      rw [Bool.eq_iff_iff, List.isPrefixOf_iff_prefix, List.isPrefixOf_iff_prefix, ← List.cons_append,
        prefix_append_iff rest h.length_le]
    rw [List.cons_append, beforeChars, beforeChars, hprefix]
    split
    · rfl
    · rename_i hnot
      have htail : sep <:+: cs := (List.infix_cons_iff.mp h).resolve_left (fun hp => hnot (List.isPrefixOf_iff_prefix.mpr hp))
      rw [ih htail]

/-- The text before the first separator is all that precedes a separator at the end, unless one begins earlier. The last
character of the separator at the end plays no part in whether one does. -/
theorem beforeChars_append_self_eq_iff {sep : List Char} (hsep : sep ≠ []) (cs : List Char) :
    beforeChars sep (cs ++ sep) = cs ↔ ¬sep <:+: cs ++ sep.dropLast := by
  have hlength : sep.dropLast.length + 1 = sep.length := by
    rw [List.length_dropLast]
    exact Nat.sub_add_cancel (List.length_pos_iff.mpr hsep)
  induction cs with
  | nil =>
    refine iff_of_true ?_ (fun h => absurd h.length_le (by rw [List.nil_append]; omega))
    cases sep with
    | nil => rfl
    | cons c sep => rw [List.nil_append, beforeChars, if_pos (List.isPrefixOf_iff_prefix.mpr (List.prefix_refl _))]
  | cons c cs ih =>
    have hprefix : sep <+: c :: (cs ++ sep) ↔ sep <+: c :: (cs ++ sep.dropLast) := by
      have hsplit : c :: (cs ++ sep) = c :: (cs ++ sep.dropLast) ++ [sep.getLast hsep] := by
        rw [List.cons_append, List.append_assoc, List.dropLast_append_getLast hsep]
      rw [hsplit, prefix_append_iff]
      rw [List.length_cons, List.length_append]
      omega
    rw [List.cons_append, List.cons_append, beforeChars, List.infix_cons_iff, ← hprefix, not_or]
    split
    · rename_i hhere
      exact iff_of_false (fun h => nomatch h) (fun h => h.1 (List.isPrefixOf_iff_prefix.mp hhere))
    · rename_i hnot
      rw [List.cons.injEq, and_iff_right rfl, and_iff_right (fun hp => hnot (List.isPrefixOf_iff_prefix.mpr hp))]
      exact ih

variable {separator : String}

theorem before_append (name rest : String) :
    before separator (name ++ separator ++ rest) = before separator (name ++ separator) := by
  unfold before
  rw [String.toList_append, beforeChars_append]
  rw [String.toList_append]
  exact (List.suffix_append name.toList separator.toList).isInfix

/-- The text before the first separator is the whole name that is followed by one exactly if no separator begins within it. -/
theorem before_append_separator_eq_iff (h : separator ≠ "") (name : String) :
    before separator (name ++ separator) = name ↔ ¬Cuts separator name := by
  have hsep : separator.toList ≠ [] := fun hnil => h (String.toList_inj.mp hnil)
  unfold before Cuts
  rw [String.toList_append, ← beforeChars_append_self_eq_iff hsep name.toList, ← String.toList_inj, String.toList_ofList]

end Text

/-- A cycle is attributed to what stands before the first arrow where its first name is followed by one. -/
theorem BuildError.project?_cyclicDependency (t : Target) (a : String) {more : List String} (hmore : more ≠ []) :
    (cyclicDependency t (a :: more)).project? = some (Text.before " -> " (a ++ " -> ")) := by
  rw [project?, arrows, Text.join_cons a hmore, Text.before_append]

/-! ### The project at fault -/

namespace Workspace

/-- A declared project that is needed and requires itself, directly or through others. -/
structure OnCycle (w : Workspace) (t : Target) (roots : List String) (a : String) : Prop where
  declared : a ∈ w.projects.names
  needed : w.Needed t roots a
  cycle : TransGen (w.Requires t) a a

/-- A declared project that is needed and requires another one, which has no variant. -/
structure LacksVariant (w : Workspace) (t : Target) (roots : List String) (a b : String) : Prop where
  declared : a ∈ w.projects.names
  needed : w.Needed t roots a
  requires : w.Requires t a b
  noVariant : ∃ q, w.projects.get? b = some q ∧ ¬w.HasVariant q t

/-- What an error says about the projects that some roots need: the names of a cycle lead around one, and where a variant is
missing, the dependent lacks that of the dependency. -/
inductive Blames (w : Workspace) (t : Target) (roots : List String) : BuildError → Prop
  | cycle {a : String} {others : List String} (honCycle : w.OnCycle t roots a)
      (hchain : (a :: (others ++ [a])).IsChain (w.Requires t)) :
    Blames w t roots (.cyclicDependency t (a :: (others ++ [a])))
  | noVariant {a b : String} (hlacks : w.LacksVariant t roots a b) : Blames w t roots (.missingVariant b a t)
  | other {e : BuildError} (hcycle : e.kind ≠ .cyclicDependency) (hvariant : e.kind ≠ .missingTargetVariant) :
    Blames w t roots e

variable {w : Workspace} {t : Target} {roots : List String} {strict : Bool} {e : BuildError}

/-- The error of a discovery with a cycle holds a cycle of projects. -/
theorem blames_cyclic {d : Discovery} (hof : Discovery.ofRoots w strict roots t = .ok d) {a : String}
    (h : TransGen d.graph.Edge a a) : w.Blames t roots d.graph.cyclic := by
  have hfound := Discovery.discovered_of_ofRoots hof
  obtain ⟨first, others, hcycle, hcyclic⟩ := TargetGraph.exists_cyclic_eq h
  have hneeded : w.Needed t roots first := hfound.mem_names_iff.mp (hcycle.nodes first List.mem_cons_self)
  have hchain : (first :: (others ++ [first])).IsChain (w.Requires t) :=
    hcycle.edges.imp (fun x y hxy => (hfound.edge_iff.mp hxy).2)
  have hdeclared : first ∈ w.projects.names := (exists_ofRoots_iff_declared.mp ⟨d, hof⟩).1 first hneeded
  have hself : TransGen (w.Requires t) first first :=
    (hfound.transGen_edge_iff (w.needed_closed t roots) hneeded).mp hcycle.transGen
  rw [hcyclic, hfound.target]
  exact .cycle ⟨hdeclared, hneeded, hself⟩ hchain

/-- The error of a schedule is right about the projects at fault. -/
theorem blames_of_schedule (h : w.schedule strict roots t = .error e) : w.Blames t roots e := by
  rcases schedule_error_cases h with h | ⟨d, hof, hvariant | ⟨-, ⟨a, haa⟩, rfl⟩⟩
  · rcases Discovery.ofRoots_eq_error h with ⟨name, reference, rfl⟩ | ⟨project, conflict, rfl⟩ <;>
      exact .other nofun nofun
  · obtain ⟨a, b, q, ha, hab, hq, hnone, rfl⟩ := missing_of_checkVariants hof hvariant
    exact .noVariant ⟨(exists_ofRoots_iff_declared.mp ⟨d, hof⟩).1 a ha, ha, hab, q, hq, hnone⟩
  · exact blames_cyclic hof haa

end Workspace

/-- What the failures of a plan are attributed to, in any workspace. A failure for a cycle names a declared project that lies on
a cycle of the target, the first one in the text of the cycle, if no arrow begins within the name of this project; otherwise it
names the part of this name before the arrow. A failure for a missing variant names a declared project that requires, on the
target, the dependency in the message, which has no variant there. -/
theorem failures_attributed {w : Workspace} {config : PlanConfig} {o : PlanOutcome} (ho : w.plan config = .ok o) :
    ∃ planned, w.plannedTargets config = .ok planned ∧ ∀ f ∈ o.failures, ∃ x ∈ planned, f.target = x.target.key ∧
      (f.kind = .cyclicDependency → ∃ a others, w.OnCycle x.target x.roots a ∧
        (a :: (others ++ [a])).IsChain (w.Requires x.target) ∧
        f.message = (BuildError.cyclicDependency x.target (a :: (others ++ [a]))).message ∧
        f.project = some (Text.before " -> " (a ++ " -> ")) ∧ (f.project = some a ↔ ¬Text.Cuts " -> " a)) ∧
      (f.kind = .missingTargetVariant → ∃ a b, w.LacksVariant x.target x.roots a b ∧ f.project = some a ∧
        f.message = (BuildError.missingVariant b a x.target).message) := by
  unfold Workspace.plan at ho
  obtain ⟨planned, hplanned, ho⟩ := bind_eq_ok_iff.mp ho
  cases ho
  refine ⟨planned, hplanned, fun f hf => ?_⟩
  obtain ⟨t, e, hmem, rfl⟩ := Workspace.mem_failed.mp hf
  obtain ⟨x, hx, rfl, hschedule⟩ := Workspace.exists_schedule_error_of_resolveAll hplanned hmem
  refine ⟨x, hx, rfl, ?_⟩
  cases Workspace.blames_of_schedule hschedule with
  | @cycle a others honCycle hchain =>
    have hproject := BuildError.project?_cyclicDependency x.target a
      (List.append_ne_nil_of_right_ne_nil others (List.cons_ne_nil a []))
    refine ⟨fun _ => ⟨a, others, honCycle, hchain, rfl, hproject, ?_⟩, nofun⟩
    rw [← Text.before_append_separator_eq_iff (by decide) a, Failure.ofError, hproject, Option.some.injEq]
  | noVariant hlacks => exact ⟨nofun, fun _ => ⟨_, _, hlacks, rfl, rfl⟩⟩
  | other hcycle hvariant => exact ⟨fun hkind => absurd hkind hcycle, fun hkind => absurd hkind hvariant⟩

/-- A project that depends on itself, and on a tool that is not built for all platforms of the project. -/
def loopDeclarations (name : String) : Declarations where
  projects := Catalog.ofList [
    { name, sourceRoot := name, axes := { TargetAxes.single {} with platforms := [.win64, .linux] } },
    { name := "Tool", sourceRoot := "Tool", axes := TargetAxes.single {} }]
  edges := [{ source := name, dependency := name }, { source := name, dependency := "Tool" }]

/-- The workspace of these declarations. -/
def loopWorkspace (name : String) : Workspace where
  projects := (loopDeclarations name).projects
  edges := (loopDeclarations name).edges

/-- Where the project fails on both platforms, so does the plan. -/
theorem exists_plan_loop (name : String)
    (hplanned : (loopWorkspace name).plannedTargets {} = .ok [⟨{}, [name, "Tool"]⟩, ⟨{ platform := .linux }, [name]⟩])
    (hcycle : (loopWorkspace name).schedule false [name, "Tool"] {} = .error (.cyclicDependency {} [name, name]))
    (hvariant : (loopWorkspace name).schedule false [name] { platform := .linux } =
      .error (.missingVariant "Tool" name { platform := .linux })) :
    ∃ o, (loopWorkspace name).plan {} = .ok o ∧
      o.failures = [Failure.ofError {} (.cyclicDependency {} [name, name]),
        Failure.ofError { platform := .linux } (.missingVariant "Tool" name { platform := .linux })] := by
  obtain ⟨o, ho, -, hfailures⟩ := Workspace.exists_outcome hplanned
  refine ⟨o, ho, ?_⟩
  simp only [hfailures, List.filterMap_cons, List.filterMap_nil, Workspace.failureAlone?, Workspace.resolveAlone,
    Workspace.resolve_of_schedule_eq_error hcycle, Workspace.resolve_of_schedule_eq_error hvariant]

/-- A project with an ordinary name is at fault on both platforms, and the failures name it. -/
theorem failures_attributed_loop :
    (loopDeclarations "Lib").finish = .ok (loopWorkspace "Lib") ∧ ∃ o, (loopWorkspace "Lib").plan {} = .ok o ∧
      (∃ f ∈ o.failures, ∃ t roots a, f.project = some a ∧ (loopWorkspace "Lib").OnCycle t roots a) ∧
      ∃ f ∈ o.failures, ∃ t roots a b, f.project = some a ∧ (loopWorkspace "Lib").LacksVariant t roots a b := by
  obtain ⟨o, ho, hfailures⟩ := exists_plan_loop "Lib" rfl (by cbv) (by cbv)
  obtain ⟨planned, -, hattributed⟩ := failures_attributed ho
  rw [hfailures] at hattributed
  obtain ⟨x, -, -, hcycle, -⟩ := hattributed _ List.mem_cons_self
  obtain ⟨y, -, -, -, hvariant⟩ := hattributed _ (List.mem_cons_of_mem _ List.mem_cons_self)
  obtain ⟨a, -, honCycle, -, -, -, hproject⟩ := hcycle rfl
  obtain ⟨b, c, hlacks, hb, -⟩ := hvariant rfl
  have hcuts : ∀ n ∈ (loopWorkspace "Lib").projects.names, ¬Text.Cuts " -> " n := by decide
  refine ⟨rfl, o, ho, ?_⟩
  rw [hfailures]
  exact ⟨⟨_, List.mem_cons_self, x.target, x.roots, a, hproject.mpr (hcuts a honCycle.declared), honCycle⟩,
    _, List.mem_cons_of_mem _ List.mem_cons_self, y.target, y.roots, b, c, hb, hlacks⟩

/-- A name with an arrow in it is cut: the failure for the cycle is attributed to a name that no project has. -/
theorem cycle_misattributed :
    (loopDeclarations "A -> B").finish = .ok (loopWorkspace "A -> B") ∧
      ∃ o f, (loopWorkspace "A -> B").plan {} = .ok o ∧ f ∈ o.failures ∧ f.kind = .cyclicDependency ∧
        f.project = some "A" ∧ "A" ∉ (loopWorkspace "A -> B").projects.names := by
  obtain ⟨o, ho, hfailures⟩ := exists_plan_loop "A -> B" rfl (by cbv) (by cbv)
  refine ⟨rfl, o, Failure.ofError {} (.cyclicDependency {} ["A -> B", "A -> B"]), ho, ?_, rfl, by decide, by decide⟩
  rw [hfailures]
  exact List.mem_cons_self

end BuildPlan
