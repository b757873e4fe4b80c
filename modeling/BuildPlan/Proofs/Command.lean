import BuildPlan.Command
import BuildPlan.Proofs.Emission
import BuildPlan.Proofs.Emission.Stream
import BuildPlan.Proofs.Plan.Coverage

/-!
# Planning and checking

`plan` and `check` resolve the same targets. `check` prints its count or the failures; `plan` writes all that was resolved
and reports the failures after it. Since every plan can be emitted, both end well for the same sessions and flags
(`plan_emitted`), as long as what `plan` writes can be written. What it writes is read back as the targets that were resolved,
in both formats (`OutputFormat.targetsOf?_render`).
-/

namespace BuildPlan

/-- Whether any text can be written to an output: to a file that can be created, or printed. -/
def Surroundings.CanWrite (u : Surroundings) (output : Option String) : Prop :=
  ∀ path, output = some path → ∀ text, (u.tree.write? u.workingDirectory path text).isSome

/-- What goes to the terminal can always be written. -/
theorem Surroundings.canWrite_none (u : Surroundings) : u.CanWrite none := by
  intro path hpath
  cases hpath

/-- Whether a run has left a text at an output, and no other file has changed: it is in the file of that path, or printed. -/
def RunReport.Leaves (r : RunReport) (u : Surroundings) (text : String) : Option String → Prop
  | none => r.output = text ∧ r.tree = u.tree
  | some path => r.output = "" ∧ u.tree.write? u.workingDirectory path text = some r.tree

/-- The targets that a consumer gets from a text in a format. -/
def OutputFormat.targetsOf? : OutputFormat → String → Option (List StreamedTarget)
  | .json => StreamedTarget.ofDocument?
  | .jsonLines => StreamedTarget.ofLines?

/-- A consumer gets the targets of an input from what is written for it, in either format. -/
theorem OutputFormat.targetsOf?_render (format : OutputFormat) (x : ExecutorInput) :
    format.targetsOf? (Session.render format x) = some (x.targets.map TargetPlan.streamed) := by
  cases format with
  | json => exact StreamedTarget.ofDocument?_document_lineFeed x
  | jsonLines => exact StreamedTarget.ofLines?_lines x

namespace PlanOutcome

/-- Planning ends without an error exactly if no target failed. -/
theorem error_eq_none_iff (o : PlanOutcome) : o.error = none ↔ o.failures = [] := by
  unfold error isSuccess
  cases o.failures with
  | nil => simp
  | cons f failures => simp

end PlanOutcome

namespace RunReport

/-- The exit code is zero exactly if there is no error. -/
theorem ofOutput_exitCode_eq_zero_iff {colored : Bool} {tree : FileTree} {output : String} {e : Option CommandError} :
    (ofOutput colored tree output e).exitCode = 0 ↔ e = none := by
  cases e with
  | none => exact ⟨fun _ => rfl, fun _ => rfl⟩
  | some e => exact ⟨fun h => (nomatch h), fun h => (nomatch h)⟩

@[simp] theorem ofOutput_output (colored : Bool) (tree : FileTree) (output : String) (e : Option CommandError) :
    (ofOutput colored tree output e).output = output := by
  cases e with
  | none => rfl
  | some e => rfl

@[simp] theorem ofOutput_tree (colored : Bool) (tree : FileTree) (output : String) (e : Option CommandError) :
    (ofOutput colored tree output e).tree = tree := by
  cases e with
  | none => rfl
  | some e => rfl

end RunReport

namespace CommandResult

variable {u : Surroundings} {r : CommandResult}

/-- With an output that can be written, a run fails exactly if its command has an error. -/
theorem deliver_exitCode_eq_zero_iff (hu : u.CanWrite r.destination) (elapsed : String) :
    (r.deliver u elapsed).exitCode = 0 ↔ r.error = none := by
  unfold deliver
  cases hdest : r.destination with
  | none => exact RunReport.ofOutput_exitCode_eq_zero_iff
  | some path =>
    obtain ⟨tree, htree⟩ := Option.isSome_iff_exists.mp (hu path hdest (r.output.render u.isColored elapsed))
    dsimp only
    rw [htree]
    exact RunReport.ofOutput_exitCode_eq_zero_iff

/-- With an output that can be written, the text is there after the run, error or not. -/
theorem deliver_leaves (hu : u.CanWrite r.destination) (elapsed : String) :
    (r.deliver u elapsed).Leaves u (r.output.render u.isColored elapsed) r.destination := by
  unfold deliver
  cases hdest : r.destination with
  | none => exact ⟨RunReport.ofOutput_output _ _ _ _, RunReport.ofOutput_tree _ _ _ _⟩
  | some path =>
    obtain ⟨tree, htree⟩ := Option.isSome_iff_exists.mp (hu path hdest (r.output.render u.isColored elapsed))
    dsimp only
    rw [htree]
    exact ⟨RunReport.ofOutput_output _ _ _ _, by rw [RunReport.ofOutput_tree]; exact htree⟩

end CommandResult

namespace Session

variable {s : Session} {flags : PlanFlags} {output : Option String} {lines : Bool} {o : PlanOutcome}

/-- The plan of a session is the plan of its workspace. -/
theorem plan_eq_ok_iff :
    s.plan flags = .ok o ↔ s.workspace.plan (flags.planConfig s.loaded.settings) = .ok o := by
  unfold plan
  cases s.workspace.plan (flags.planConfig s.loaded.settings) with
  | ok o' => exact ⟨fun h => congrArg Except.ok (Except.ok.inj h), fun h => congrArg Except.ok (Except.ok.inj h)⟩
  | error e => exact ⟨fun h => (nomatch h), fun h => (nomatch h)⟩

/-- What `plan` comes to: all that was resolved, and the failures as its error. -/
theorem run_plan_of_ok (h : s.plan flags = .ok o) :
    s.run (.plan flags output lines) = {
      output := .text (render (s.loaded.settings.outputFormat lines) (ExecutorInput.ofResolutions o))
      destination := output
      error := o.error } := by
  have hrun : s.runPlan flags output lines = .ok {
      output := .text (render (s.loaded.settings.outputFormat lines) (ExecutorInput.ofResolutions o))
      destination := output
      error := o.error } := by
    refine bind_eq_ok_iff.mpr ⟨o, h, ?_⟩
    rw [ExecutorInput.ofOutcome_eq_ok (plan_eq_ok_iff.mp h)]
    rfl
  exact congrArg CommandResult.ofExcept hrun

/-- Where planning ends in an error, `plan` leaves nothing but the error. -/
theorem run_plan_of_error {e : CommandError} (h : s.plan flags = .error e) :
    s.run (.plan flags output lines) = .failed e :=
  congrArg CommandResult.ofExcept (bind_eq_error_iff.mpr (Or.inl h))

/-- The error of `check` is that of its plan, and it only prints. -/
theorem run_check_of_ok (h : s.plan flags = .ok o) :
    (s.run (.check flags)).error = o.error ∧ (s.run (.check flags)).destination = none := by
  cases herror : o.error with
  | none =>
    have hrun : s.runCheck flags = .ok { output := .checked o.stats.planned o.stats.descriptors } :=
      bind_eq_ok_iff.mpr ⟨o, h, by rw [herror]; rfl⟩
    exact ⟨congrArg (fun r => (CommandResult.ofExcept r).error) hrun,
      congrArg (fun r => (CommandResult.ofExcept r).destination) hrun⟩
  | some e =>
    have hrun : s.runCheck flags = .error e := bind_eq_error_iff.mpr (Or.inr ⟨o, h, by rw [herror]; rfl⟩)
    exact ⟨congrArg (fun r => (CommandResult.ofExcept r).error) hrun,
      congrArg (fun r => (CommandResult.ofExcept r).destination) hrun⟩

/-- Where planning ends in an error, `check` leaves nothing but the error. -/
theorem run_check_of_error {e : CommandError} (h : s.plan flags = .error e) : s.run (.check flags) = .failed e :=
  congrArg CommandResult.ofExcept (bind_eq_error_iff.mpr (Or.inl h))

/-- A command that fails with its plan, and with the failures of its plan, has no error exactly if there are none. -/
theorem error_eq_none_iff_of_plan {r : CommandResult} (herror : ∀ e, s.plan flags = .error e → r = .failed e)
    (hok : ∀ o, s.plan flags = .ok o → r.error = o.error) :
    r.error = none ↔ ∃ o, s.plan flags = .ok o ∧ o.failures = [] := by
  cases h : s.plan flags with
  | error e =>
    rw [herror e h]
    exact ⟨fun hnone => (nomatch hnone), fun ⟨o, ho, _⟩ => (nomatch ho)⟩
  | ok o =>
    rw [hok o h, o.error_eq_none_iff]
    exact ⟨fun hnone => ⟨o, rfl, hnone⟩, fun ⟨o', ho', hnone⟩ => Except.ok.inj ho' ▸ hnone⟩

variable {u : Surroundings}

/-- `plan` ends well exactly if planning works out without failures. -/
theorem plan_exitCode_eq_zero_iff (hu : u.CanWrite output) (elapsed : String) :
    ((s.run (.plan flags output lines)).deliver u elapsed).exitCode = 0 ↔ ∃ o, s.plan flags = .ok o ∧ o.failures = [] := by
  have hdest : u.CanWrite (s.run (.plan flags output lines)).destination := by
    cases h : s.plan flags with
    | error e => rw [run_plan_of_error h]; exact u.canWrite_none
    | ok o => rw [run_plan_of_ok h]; exact hu
  rw [CommandResult.deliver_exitCode_eq_zero_iff hdest]
  exact error_eq_none_iff_of_plan (fun _ => run_plan_of_error) (fun _ h => by rw [run_plan_of_ok h])

/-- `check` ends well exactly if planning works out without failures. -/
theorem check_exitCode_eq_zero_iff (elapsed : String) :
    ((s.run (.check flags)).deliver u elapsed).exitCode = 0 ↔ ∃ o, s.plan flags = .ok o ∧ o.failures = [] := by
  have hdest : u.CanWrite (s.run (.check flags)).destination := by
    cases h : s.plan flags with
    | error e => rw [run_check_of_error h]; exact u.canWrite_none
    | ok o => rw [(run_check_of_ok h).2]; exact u.canWrite_none
  rw [CommandResult.deliver_exitCode_eq_zero_iff hdest]
  exact error_eq_none_iff_of_plan (fun _ => run_check_of_error) (fun _ h => (run_check_of_ok h).1)

/-- If planning works out, `plan` leaves what was resolved, failures or not. -/
theorem plan_leaves (hu : u.CanWrite output) (elapsed : String) (h : s.plan flags = .ok o) :
    ((s.run (.plan flags output lines)).deliver u elapsed).Leaves u
      (render (s.loaded.settings.outputFormat lines) (ExecutorInput.ofResolutions o)) output := by
  have hleaves := CommandResult.deliver_leaves (r := s.run (.plan flags output lines)) (by rw [run_plan_of_ok h]; exact hu)
    elapsed
  rw [run_plan_of_ok h] at hleaves ⊢
  exact hleaves

end Session

/-- Every plan can be emitted, producers first: what is emitted are the resolutions of the plan, one after the other, and in
each of them the descriptors stand in dependency order, for the target, with every dependency before the descriptor that
lists it. So `plan` ends well exactly if `check` does for the same flags, that is if planning works out and nothing is
reported as failed. And if planning works out at all, what was resolved is written, failures or not: from the text that is left,
in either format, a consumer gets exactly the resolved targets in their order, each with its key, its order, its fingerprint and
its descriptors. -/
theorem plan_emitted :
    (∀ (w : Workspace) (config : PlanConfig) (o : PlanOutcome), w.plan config = .ok o →
      ∃ x, ExecutorInput.ofOutcome o = .ok x ∧ x.targets = o.resolutions.map TargetPlan.ofResolution ∧
        ∀ p ∈ x.targets, p.ProducersFirst) ∧
    ∀ (s : Session) (flags : PlanFlags) (output : Option String) (lines : Bool) (u : Surroundings) (elapsed : String),
      u.CanWrite output →
      (((s.run (.plan flags output lines)).deliver u elapsed).exitCode = 0 ↔
        ((s.run (.check flags)).deliver u elapsed).exitCode = 0) ∧
      (((s.run (.plan flags output lines)).deliver u elapsed).exitCode = 0 ↔
        ∃ o, s.plan flags = .ok o ∧ o.failures = []) ∧
      ∀ o, s.plan flags = .ok o → ∃ x, ExecutorInput.ofOutcome o = .ok x ∧
        ((s.run (.plan flags output lines)).deliver u elapsed).Leaves u
          (Session.render (s.loaded.settings.outputFormat lines) x) output ∧
        (s.loaded.settings.outputFormat lines).targetsOf? (Session.render (s.loaded.settings.outputFormat lines) x) =
          some (o.resolutions.map fun r =>
            ⟨r.target.key, r.order, TargetPlan.fingerprintOf r.descriptors, r.descriptors⟩) := by
  refine ⟨fun w config o h => ?_, fun s flags output lines u elapsed hu => ⟨?_, ?_, fun o h => ?_⟩⟩
  · exact ⟨ExecutorInput.ofResolutions o, ExecutorInput.ofOutcome_eq_ok h, rfl, ExecutorInput.producersFirst_of_plan h⟩
  · rw [Session.plan_exitCode_eq_zero_iff hu, Session.check_exitCode_eq_zero_iff]
  · exact Session.plan_exitCode_eq_zero_iff hu elapsed
  · refine ⟨_, ExecutorInput.ofOutcome_eq_ok (Session.plan_eq_ok_iff.mp h), Session.plan_leaves hu elapsed h, ?_⟩
    rw [OutputFormat.targetsOf?_render, ExecutorInput.ofResolutions, List.map_map]
    rfl

/-- The session of the three projects, with the settings that hold by default. -/
def threeProjectsSession : Session where
  loaded := {
    manifest := {}, user := {}, rootDirectory := "/", manifestPath := "/trellis.toml", fragments := [], settings := {} }
  workspace := Workspace.threeProjects

/-- For the default target of the three projects both commands end well, and the plan is printed, as a document or as lines.
Either way a consumer gets this one target. -/
theorem plan_emitted_threeProjects :
    ∃ (flags : PlanFlags) (o : PlanOutcome) (x : ExecutorInput) (r : Resolution),
      threeProjectsSession.plan flags = .ok o ∧ ExecutorInput.ofOutcome o = .ok x ∧
      x.targets = [TargetPlan.ofResolution r] ∧ (TargetPlan.ofResolution r).ProducersFirst ∧
      ((threeProjectsSession.run (.plan flags none false)).deliver ⟨.empty, [], ∅, none, false⟩ "0.00").exitCode = 0 ∧
      ((threeProjectsSession.run (.check flags)).deliver ⟨.empty, [], ∅, none, false⟩ "0.00").exitCode = 0 ∧
      ((threeProjectsSession.run (.plan flags none false)).deliver ⟨.empty, [], ∅, none, false⟩ "0.00").output =
        x.document ++ "\n" ∧
      StreamedTarget.ofDocument? (x.document ++ "\n") =
        some [⟨({} : Target).key, r.order, TargetPlan.fingerprintOf r.descriptors, r.descriptors⟩] ∧
      ((threeProjectsSession.run (.plan flags none true)).deliver ⟨.empty, [], ∅, none, false⟩ "0.00").output = x.lines ∧
      StreamedTarget.ofLines? x.lines =
        some [⟨({} : Target).key, r.order, TargetPlan.fingerprintOf r.descriptors, r.descriptors⟩] := by
  obtain ⟨hemitted, hcommands⟩ := plan_emitted
  obtain ⟨r, store, hr⟩ :=
    Workspace.threeProjects_resolved false (by decide : ∀ x ∈ ["App", "Lib", "Core"], x ∈ ["Core", "Lib", "App"])
  have halone : Workspace.threeProjects.resolveAlone false ⟨{}, ["App", "Lib", "Core"]⟩ = .ok r := congrArg Prod.fst hr
  have hplanned : Workspace.threeProjects.plannedTargets { targets := [({} : Target).key] } =
      .ok [⟨{}, ["App", "Lib", "Core"]⟩] := rfl
  obtain ⟨o, ho, hresolutions, hfailures⟩ := Workspace.exists_outcome hplanned
  have hres : o.resolutions = [r] := by
    rw [hresolutions, List.filterMap_cons, halone]
    rfl
  have hfail : o.failures = [] := by
    rw [hfailures, List.filterMap_cons, Workspace.failureAlone?, halone]
    rfl
  have hplan : threeProjectsSession.plan { targets := [({} : Target).key] } = .ok o := Session.plan_eq_ok_iff.mpr ho
  obtain ⟨x, hx, htargets, hfirst⟩ := hemitted _ _ o ho
  have hrun := fun lines => hcommands threeProjectsSession { targets := [({} : Target).key] } none lines
    ⟨.empty, [], ∅, none, false⟩ "0.00" (Surroundings.canWrite_none _)
  obtain ⟨hsame, hsuccess, hleaves⟩ := hrun false
  have hzero := hsuccess.mpr ⟨o, hplan, hfail⟩
  obtain ⟨d, hresolved⟩ := Workspace.exists_resolved hr
  rw [hres, List.map_singleton] at htargets
  obtain ⟨x', hx', hleft, hread⟩ := hleaves o hplan
  obtain rfl : x = x' := Except.ok.inj (hx.symm.trans hx')
  obtain ⟨x', hx', hleft', hread'⟩ := (hrun true).2.2 o hplan
  obtain rfl : x = x' := Except.ok.inj (hx.symm.trans hx')
  rw [hres, List.map_singleton, hresolved.target] at hread hread'
  exact ⟨_, o, x, r, hplan, hx, htargets, hfirst _ (htargets ▸ List.mem_singleton.mpr rfl), hzero, hsame.mp hzero, hleft.1,
    hread, hleft'.1, hread'⟩

end BuildPlan
