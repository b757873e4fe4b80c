import BuildPlan.Proofs.Resolution.Extension
import BuildPlan.Proofs.Resolution.Publication
import BuildPlan.Proofs.Resolution.Reference
import Mathlib.Data.List.Forall2

/-!
# Private settings stay private

Of what the rules of a project write, its consumers see the exported settings and the graph sees the dependencies. All else
is read by the project alone. Two workspaces that differ only in such settings of one project have the same graphs and
orders, and the same descriptors of all other projects (`private_settings_stay`). What other projects can see of a
configuration (`Configuration.outward`) is kept apart from the rest by every write.
-/

namespace BuildPlan

/-! ### What other projects can see -/

/-- Whether a write is seen outside of its project: an exported setting or a dependency. -/
def Write.isOutward : Write → Bool
  | .includePath _ | .libraryPath _ | .libraryFiles _ | .exportDefine _ | .dependency _ _ => true
  | _ => false

namespace Configuration

/-- The configuration as other projects see it: everything that only the project itself reads is left out. -/
def outward (c : Configuration) : Configuration :=
  { c with
    privateIncludePaths := []
    compilerOptions := []
    defines := ∅
    properties := ∅
    outputKind := c.target.outputKind
    outputPath := none
    intermediatePath := none
    targetFileName := none
    lastWrite := fun _ => none
    conflicts := [] }

/-- A write changes what others see exactly if it is one of an outward setting. -/
theorem outward_write (c : Configuration) (w : Write) :
    (c.write w).outward = if w.isOutward then c.outward.write w else c.outward := by
  have hrecord : ∀ f v, (c.recordScalar f v).outward = c.outward := by
    intro f v
    rw [recordScalar_eq]
    rfl
  cases w with
  | outputKind | outputPath | intermediatePath | targetFileName => exact hrecord _ _
  | _ => rfl

/-- Of some writes, those that are seen outside of the project decide what is seen of the configuration. -/
theorem outward_writeAll (c : Configuration) (ws : List Write) :
    (c.writeAll ws).outward = c.outward.writeAll (ws.filter Write.isOutward) := by
  unfold writeAll
  induction ws generalizing c with
  | nil => rfl
  | cons w ws ih =>
    rw [List.foldl_cons, ih, outward_write, List.filter_cons]
    cases w.isOutward <;> rfl

/-- A rule changes what others see by its outward writes only. -/
theorem outward_applyRule (c : Configuration) (a : AppliedRule) :
    (c.applyRule a).outward =
      ((c.outward.beginRule a.1).writeAll ((a.2 (c.beginRule a.1)).filter Write.isOutward)).endRule :=
  congrArg endRule (outward_writeAll (c.beginRule a.1) (a.2 (c.beginRule a.1)))

/-- Rules that write the same for others leave configurations that look the same to others. -/
theorem outward_applyRules {rules rules' : List AppliedRule}
    (h : List.Forall₂
      (fun a a' => a.1 = a'.1 ∧ ∀ c c', (a.2 c).filter Write.isOutward = (a'.2 c').filter Write.isOutward) rules rules')
    {c c' : Configuration} (hc : c.outward = c'.outward) :
    (c.applyRules rules).outward = (c'.applyRules rules').outward := by
  unfold applyRules
  induction h generalizing c c' with
  | nil => exact hc
  | cons ha _ ih =>
    obtain ⟨hplace, hwrites⟩ := ha
    refine ih ?_
    rw [outward_applyRule, outward_applyRule, hc, hplace]
    rw [hwrites]

end Configuration

/-! ### Rules that differ in private settings -/

/-- What the rule of an entry writes for others. -/
theorem Manifest.RuleEntry.filter_isOutward_writes (e : Manifest.RuleEntry) (kind : Option OutputKind) :
    (e.writes kind).filter Write.isOutward =
      e.includePaths.map .includePath ++ e.exportDefines.map .exportDefine ++ e.libraryPaths.map .libraryPath ++
        [.libraryFiles e.libraryFiles] ++ e.publicDependencies.map (fun p => .dependency p .pub) ++
        e.privateDependencies.map (fun p => .dependency p .priv) := by
  unfold writes
  simp [Option.toList_map, List.filter_map, List.filter_cons, Function.comp_def, Write.isOutward]

/-- Two declared rules that differ at most in private include paths, defines, compiler options, properties and scalar
fields. -/
def Rule.SameOutward (r r' : Rule) : Prop :=
  r.name = r'.name ∧ r.filter = r'.filter ∧ r.priority = r'.priority ∧
    ∃ e e' : Manifest.RuleEntry, e.rule = .ok r ∧ e'.rule = .ok r' ∧ e.includePaths = e'.includePaths ∧
      e.exportDefines = e'.exportDefines ∧ e.libraryPaths = e'.libraryPaths ∧ e.libraryFiles = e'.libraryFiles ∧
      e.publicDependencies = e'.publicDependencies ∧ e.privateDependencies = e'.privateDependencies

/-- Rules that are the same outward make the same outward writes, whatever the configuration. -/
theorem Rule.SameOutward.filter_writes {r r' : Rule} (h : r.SameOutward r') (x x' : RuleContext) (c c' : Configuration) :
    (r.writes.run x c).filter Write.isOutward = (r'.writes.run x' c').filter Write.isOutward := by
  obtain ⟨-, -, -, e, e', he, he', hinclude, hdefines, hpaths, hfiles, hpublic, hprivate⟩ := h
  rw [(Manifest.RuleEntry.of_rule_eq_ok he).2.2, (Manifest.RuleEntry.of_rule_eq_ok he').2.2]
  dsimp only [Merge.always]
  rw [Manifest.RuleEntry.filter_isOutward_writes, Manifest.RuleEntry.filter_isOutward_writes, hinclude, hdefines, hpaths,
    hfiles, hpublic, hprivate]

/-! ### Workspaces that differ in private settings -/

namespace Workspace

/-- What a project exports can be seen of the configuration that its chain gives. -/
theorem ownExports_localConfiguration (w : Workspace) (p : Project) (t : Target) :
    (w.localConfiguration p t).ownExports =
      let c := (w.chainConfiguration p t).outward
      LocalConfiguration.ownExports ⟨p.kind, false, if c.appliedRules.isEmpty then c else w.complete p t c⟩ := by
  have happlied : (w.chainConfiguration p t).outward.appliedRules = (w.chainConfiguration p t).appliedRules := rfl
  unfold localConfiguration
  dsimp only
  rw [happlied]
  split
  · rfl
  · unfold complete
    cases p.kind <;> rfl

/-- Two workspaces that differ at most in the rule set of one project, and there only in private settings. No other project
has this rule set in its chain. -/
structure DifferPrivately (w w' : Workspace) (q : Project) (s s' : RuleSet) : Prop where
  projects : w'.projects = w.projects
  edges : w'.edges = w.edges
  context : w'.context = w.context
  others : ∀ id, id ≠ s.id → w'.rules.sets.get? id = w.rules.sets.get? id
  declared : q ∈ w.projects.items
  ruleSet : q.ruleSet = some s.id
  registered : w.rules.sets.get? s.id = some s
  registered' : w'.rules.sets.get? s.id = some s'
  base : s'.base = s.base
  rules : List.Forall₂ Rule.SameOutward s.rules s'.rules
  unshared : ∀ p ∈ w.projects.items, p.name ≠ q.name → s ∉ w.chainOf p

namespace DifferPrivately

variable {w w' : Workspace} {q p : Project} {s s' : RuleSet} {t : Target}

/-- The chain of every other project is the same. -/
theorem chainOf_of_ne (h : w.DifferPrivately w' q s s') (hw : w.Finished) (hp : p ∈ w.projects.items)
    (hne : p.name ≠ q.name) : w'.chainOf p = w.chainOf p := by
  refine hw.chainOf_eq hp (fun x hx => ?_)
  have hget := Workspace.get?_of_mem_chainOf hx
  have hid : x.id ≠ s.id := by
    intro he
    rw [he, h.registered, Option.some.injEq] at hget
    exact h.unshared p hp hne (hget ▸ hx)
  rw [h.others x.id hid, hget]

/-- The chains of the project differ in their last rule set alone. -/
theorem exists_chainOf (h : w.DifferPrivately w' q s s') (hw : w.Finished) :
    ∃ front, w.chainOf q = front ++ [s] ∧ w'.chainOf q = front ++ [s'] := by
  rcases hw.chainOf h.declared with ⟨hnone, -⟩ | ⟨id, hid, hchain⟩
  · rw [h.ruleSet] at hnone
    cases hnone
  · rw [h.ruleSet, Option.some.injEq] at hid
    subst hid
    obtain ⟨front, hfront, hchain'⟩ := hchain.replace_last h.registered h.registered' h.base h.others
    refine ⟨front, hfront, ?_⟩
    rw [chainOf, h.ruleSet]
    exact RuleRegistry.chain_eq hchain'

/-- Rules that hold for a target do so in both workspaces. -/
theorem applying_forall₂ (h : w.DifferPrivately w' q s s') (t : Target) :
    List.Forall₂ Rule.SameOutward (s.applying t) (s'.applying t) := by
  refine List.rel_filter ?_ h.rules
  rintro r r' ⟨-, hfilter, -⟩
  dsimp only [Rule.appliesTo]
  rw [hfilter]

/-- What others see of the configuration of a project is the same. -/
theorem outward_chainConfiguration (h : w.DifferPrivately w' q s s') (hw : w.Finished) (hp : p ∈ w.projects.items)
    (t : Target) : (w'.chainConfiguration p t).outward = (w.chainConfiguration p t).outward := by
  by_cases hne : p.name = q.name
  · have hpq : p = q := Catalog.eq_of_name_eq hp h.declared hne
    subst hpq
    obtain ⟨front, hchain, hchain'⟩ := h.exists_chainOf hw
    unfold chainConfiguration appliedRules
    rw [hchain, hchain', List.flatMap_append, List.flatMap_append, Configuration.applyRules, Configuration.applyRules,
      List.foldl_append, List.foldl_append, h.context, List.flatMap_singleton, List.flatMap_singleton]
    refine (Configuration.outward_applyRules ?_ rfl).symm
    rw [List.forall₂_map_left_iff, List.forall₂_map_right_iff]
    refine (h.applying_forall₂ t).imp (fun r r' hr => ⟨?_, fun c c' => hr.filter_writes _ _ c c'⟩)
    have hid : s'.id = s.id := Catalog.name_of_get? h.registered'
    obtain ⟨hname, -, hpriority, -⟩ := hr
    rw [hid, hname, hpriority]
  · rw [chainConfiguration_congr h.context (h.chainOf_of_ne hw hp hne)]

/-- The graph sees no difference. -/
theorem node_eq (h : w.DifferPrivately w' q s s') (hw : w.Finished) (hp : p ∈ w.projects.items) (t : Target) :
    w'.node p t = w.node p t := by
  have hdependencies : (w'.chainConfiguration p t).outward.dependencies = (w.chainConfiguration p t).outward.dependencies := by
    rw [h.outward_chainConfiguration hw hp]
  change (w'.chainConfiguration p t).dependencies = (w.chainConfiguration p t).dependencies at hdependencies
  unfold node declaredEdges edgesFor
  rw [h.projects, h.edges, hdependencies]

/-- No consumer sees a difference. -/
theorem ownExports_eq (h : w.DifferPrivately w' q s s') (hw : w.Finished) (hp : p ∈ w.projects.items) (t : Target) :
    (w'.localConfiguration p t).ownExports = (w.localConfiguration p t).ownExports := by
  have hcomplete : ∀ c, w'.complete p t c = w.complete p t c := by
    intro c
    unfold complete
    rw [h.context]
  rw [ownExports_localConfiguration, ownExports_localConfiguration, h.outward_chainConfiguration hw hp]
  dsimp only
  rw [hcomplete]

/-- The local configuration of every other project is the same. -/
theorem localConfiguration_of_ne (h : w.DifferPrivately w' q s s') (hw : w.Finished) (hp : p ∈ w.projects.items)
    (hne : p.name ≠ q.name) (t : Target) : w'.localConfiguration p t = w.localConfiguration p t :=
  localConfiguration_congr h.context (h.chainOf_of_ne hw hp hne) t

/-! ### Two resolutions -/

/-- The same projects are needed. -/
theorem needed_eq (h : w.DifferPrivately w' q s s') (hw : w.Finished) (roots : List String) (t : Target) :
    w'.needed roots t = w.needed roots t := by
  have hsuccessors : w'.successors t = w.successors t := by
    funext x
    unfold successors
    rw [h.projects]
    cases hx : w.projects.get? x with
    | none => rfl
    | some p =>
      dsimp only
      rw [h.node_eq hw (Catalog.mem_of_get? hx)]
  unfold needed
  rw [h.projects, hsuccessors]

/-- Visits of the same names give the same graph. -/
theorem graph_foldlM_visit_eq (h : w.DifferPrivately w' q s s') (hw : w.Finished) {strict strict' : Bool}
    {names : List String} {b b' d d' : Discovery} (hb : b'.graph = b.graph)
    (hd : names.foldlM (Discovery.visit w strict t) b = .ok d)
    (hd' : names.foldlM (Discovery.visit w' strict' t) b' = .ok d') : d'.graph = d.graph := by
  induction names generalizing b b' with
  | nil =>
    cases hd
    cases hd'
    exact hb
  | cons x names ih =>
    rw [List.foldlM_cons] at hd hd'
    obtain ⟨c, hc, hd⟩ := bind_eq_ok_iff.mp hd
    obtain ⟨c', hc', hd'⟩ := bind_eq_ok_iff.mp hd'
    obtain ⟨p, hp, -, -, rfl⟩ := Discovery.visit_eq_ok_iff.mp hc
    obtain ⟨p', hp', -, -, rfl⟩ := Discovery.visit_eq_ok_iff.mp hc'
    rw [h.projects, hp, Option.some.injEq] at hp'
    subst hp'
    refine ih ?_ hd hd'
    dsimp only
    rw [hb, h.node_eq hw (Catalog.mem_of_get? hp)]

/-- Both workspaces give the same graph. -/
theorem graph_eq (h : w.DifferPrivately w' q s s') (hw : w.Finished) {strict strict' : Bool} {roots : List String}
    {d d' : Discovery} (hd : Discovery.ofRoots w strict roots t = .ok d)
    (hd' : Discovery.ofRoots w' strict' roots t = .ok d') : d'.graph = d.graph := by
  unfold Discovery.ofRoots at hd hd'
  rw [h.needed_eq hw] at hd'
  exact h.graph_foldlM_visit_eq hw rfl hd hd'

/-- A project inherits the same in two resolutions if its dependencies export the same. -/
theorem inheritance_eq (h : w.DifferPrivately w' q s s') (hw : w.Finished) {roots : List String} {d d' : Discovery}
    {r r' : Resolution} {store store' : DescriptorStore} (hr : Resolved w t roots d r store)
    (hr' : Resolved w' t roots d' r' store') (horder : r'.order = r.order) {x : String} (hx : x ∈ r.order)
    (hp : w.projects.get? x = some p)
    (hexports : ∀ b, w.Requires t x b → ∀ e e', store.get? b t = some e → store'.get? b t = some e' → e'.exports = e.exports) :
    d'.inheritance store' x (w.node p t).dependencies.items = d.inheritance store x (w.node p t).dependencies.items := by
  refine Discovery.inheritance_congr ?_
  rintro ⟨b, v⟩ hb
  have hreq : w.Requires t x b := requires_of_mem_node hp hb
  have hbx : b ∈ r.order := hr.dependenciesFirst.mem hx hreq
  have hbx' : b ∈ r'.order := horder ▸ hbx
  obtain ⟨pb, hpb⟩ := hr.found.declared b (hr.mem_order_iff.mp hbx)
  have hpb' : w'.projects.get? b = some pb := h.projects ▸ hpb
  unfold Discovery.inheritedFrom
  cases v with
  | pub =>
    obtain ⟨eb, hgetb, -⟩ := hr.described b hbx
    obtain ⟨eb', hgetb', -⟩ := hr'.described b hbx'
    dsimp only
    rw [hr.found.target, hr'.found.target, hgetb, hgetb']
    dsimp only
    rw [hexports b hreq eb eb' hgetb hgetb']
  | priv =>
    dsimp only
    rw [(hr.found.lookup b _).mpr ⟨hr.mem_order_iff.mp hbx, pb, hpb, rfl⟩,
      (hr'.found.lookup b _).mpr ⟨hr'.mem_order_iff.mp hbx', pb, hpb', rfl⟩]
    dsimp only
    rw [h.ownExports_eq hw (Catalog.mem_of_get? hpb)]

/-- Of two resolutions, the stores agree on what a project exports, and on all of its descriptor if it is not the project in
question. -/
theorem get?_agree (h : w.DifferPrivately w' q s s') (hw : w.Finished) {roots : List String} {d d' : Discovery}
    {r r' : Resolution} {store store' : DescriptorStore} (hr : Resolved w t roots d r store)
    (hr' : Resolved w' t roots d' r' store') (hgraph : d'.graph = d.graph) (horder : r'.order = r.order) :
    ∀ x ∈ r.order, ∀ e e', store.get? x t = some e → store'.get? x t = some e' →
      e'.exports = e.exports ∧ (x ≠ q.name → e' = e) := by
  refine hr.dependenciesFirst.induction ?_
  intro x hx ih e e' hget hget'
  obtain ⟨_, hsome, hdesc⟩ := hr.described x hx
  rw [hget, Option.some.injEq] at hsome
  subst hsome
  obtain ⟨_, hsome, hdesc'⟩ := hr'.described x (horder ▸ hx)
  rw [hget', Option.some.injEq] at hsome
  subst hsome
  obtain ⟨hneeded, p, inherited, hp, hi, rfl⟩ := hr.found.describe_eq_ok_iff.mp hdesc
  obtain ⟨-, p', inherited', hp', hi', rfl⟩ := hr'.found.describe_eq_ok_iff.mp hdesc'
  have hmem := Catalog.mem_of_get? hp
  have hname : p.name = x := Catalog.name_of_get? hp
  rw [h.projects, hp, Option.some.injEq] at hp'
  subst hp'
  have hinherit := h.inheritance_eq hw hr hr' horder hx hp
    (fun b hb eb eb' hgetb hgetb' => (ih b hb eb eb' hgetb hgetb').1)
  rw [h.node_eq hw hmem, hinherit, hi, Except.ok.injEq] at hi'
  subst hi'
  constructor
  · have hexports : ∀ (l : LocalConfiguration) deps, (l.descriptor inherited deps).exports = l.exports inherited :=
      fun _ _ => rfl
    rw [hexports, hexports, LocalConfiguration.exports, LocalConfiguration.exports, h.ownExports_eq hw hmem]
  · intro hne
    rw [h.localConfiguration_of_ne hw hmem (hname ▸ hne), hgraph, horder]

end DifferPrivately

end Workspace

/-- Private settings are seen by nobody else. Take a finished workspace and one that differs from it only in private settings
of the rules of one project's rule set, which no other project uses. Two resolutions of the same roots on the same target, in
strict mode or not, have the same graph and the same order. Each project exports the same in both, and every project but
this one has the same descriptor. -/
theorem private_settings_stay {d : Declarations} {w w' : Workspace} (hw : d.finish = .ok w) {q : Project} {s s' : RuleSet}
    (h : w.DifferPrivately w' q s s') {strict strict' : Bool} {roots : List String} {t : Target}
    {store₀ store₀' store store' : DescriptorStore} {r r' : Resolution}
    (hr : w.resolve strict roots t store₀ = (.ok r, store)) (hr' : w'.resolve strict' roots t store₀' = (.ok r', store')) :
    r'.graph = r.graph ∧ r'.order = r.order ∧
      List.Forall₂ (fun e e' => e'.project = e.project ∧ e'.exports = e.exports ∧ (e.project ≠ q.name → e' = e))
        r.descriptors r'.descriptors := by
  obtain ⟨-, hfinished⟩ := Declarations.finish_eq_ok_iff.mp hw
  obtain ⟨sched, hsched, hrun⟩ := Workspace.resolve_eq_ok_iff.mp hr
  obtain ⟨sched', hsched', hrun'⟩ := Workspace.resolve_eq_ok_iff.mp hr'
  have hres := Workspace.resolved_of_run hsched hrun
  have hres' := Workspace.resolved_of_run hsched' hrun'
  obtain ⟨hof, -, -, htopo, -⟩ := Workspace.schedule_eq_ok_iff.mp hsched
  obtain ⟨hof', -, -, htopo', -⟩ := Workspace.schedule_eq_ok_iff.mp hsched'
  have hgraph := h.graph_eq hfinished hof hof'
  have horder : r'.order = r.order := by
    rw [hgraph, htopo, Except.ok.injEq] at htopo'
    rw [Workspace.order_of_run hrun, Workspace.order_of_run hrun', htopo']
  refine ⟨?_, horder, ?_⟩
  · rw [hres.graph, hres'.graph, hgraph]
  · refine forall₂_of_common hres.descriptors_forall₂ (horder ▸ hres'.descriptors_forall₂) ?_
    rintro x hx e e' ⟨rfl, hget, -⟩ ⟨hproject, hget', -⟩
    exact ⟨hproject, h.get?_agree hfinished hres hres' hgraph horder _ hx e e' hget hget'⟩

/-! ### A project with a secret -/

namespace Workspace

/-- The entry of a rule with an exported path and a define of the project alone. -/
def secretEntry (define : String) : Manifest.RuleEntry where
  name := "secret"
  includePaths := ["include"]
  defines := [define]

/-- The rule of this entry. -/
def secretRule (define : String) : Rule where
  name := "secret"
  writes := .always ((secretEntry define).writes none)

/-- A program that depends on a project with this rule. -/
def secretWorkspace (define : String) : Workspace := appWorkspace [secretRule define]

/-- The rule set of the project. -/
def secretRules (define : String) : RuleSet where
  id := "Core"
  rules := [secretRule define]

/-- Rules that write private defines are the same outward. -/
theorem sameOutward_secretRule (define define' : String) : (secretRule define).SameOutward (secretRule define') :=
  ⟨rfl, rfl, rfl, secretEntry define, secretEntry define', rfl, rfl, rfl, rfl, rfl, rfl, rfl, rfl⟩

/-- The sample has the rule set with the private define. -/
theorem get?_secretRules (define : String) :
    (secretWorkspace define).rules.sets.get? "Core" = some (secretRules define) := by
  have hitems : (secretWorkspace define).rules.sets.items = [secretRules define] := rfl
  exact Catalog.get?_eq_some_iff.mpr ⟨hitems ▸ List.mem_singleton.mpr rfl, rfl⟩

/-- The sample has no other rule set. -/
theorem get?_of_ne_secretRules (define : String) {id : String} (h : id ≠ "Core") :
    (secretWorkspace define).rules.sets.get? id = none := by
  have hnames : (secretWorkspace define).rules.sets.names = ["Core"] := rfl
  rw [Catalog.get?_eq_none_iff, hnames, List.mem_singleton]
  exact h

/-- Two samples with different private defines differ privately. -/
theorem differPrivately_secret (define define' : String) :
    (secretWorkspace define).DifferPrivately (secretWorkspace define') coreProject (secretRules define)
      (secretRules define') where
  projects := (appWorkspace_frame _ _).1
  edges := (appWorkspace_frame _ _).2.1
  context := (appWorkspace_frame _ _).2.2
  others := fun id hid => (get?_of_ne_secretRules define' hid).trans (get?_of_ne_secretRules define hid).symm
  declared := mem_appWorkspace.mpr (Or.inr rfl)
  ruleSet := rfl
  registered := get?_secretRules define
  registered' := get?_secretRules define'
  base := rfl
  rules := List.Forall₂.cons (sameOutward_secretRule define define') List.Forall₂.nil
  unshared := by
    intro p hp hne
    rcases mem_appWorkspace.mp hp with rfl | rfl
    · exact List.not_mem_nil
    · exact absurd rfl hne

/-- The chain of the sample has its one rule set. -/
theorem chainOf_secret (define : String) :
    (secretWorkspace define).chainOf coreProject = [secretRules define] := chainOf_core _

/-- The project of the sample is declared by the rule with the private define. -/
theorem declaredBy_secret (define : String) :
    (secretWorkspace define).DeclaredBy coreProject {} [(secretRules define, secretEntry define)] := by
  unfold DeclaredBy rulesFor
  rw [chainOf_secret]
  exact List.Forall₂.cons ⟨rfl, rfl⟩ List.Forall₂.nil

/-- In the sample the program requires the project with the rule, and nothing else is required. -/
theorem requires_secret {define a b : String} (h : (secretWorkspace define).Requires {} a b) : a = "App" ∧ b = "Core" := by
  obtain ⟨p, hp, ⟨e, he, rfl, rfl, -⟩ | hdeclares⟩ := h
  · rw [List.mem_singleton.mp he]
    exact ⟨rfl, rfl⟩
  · obtain ⟨d, hd, -⟩ := declaresDependency_iff.mp hdeclares
    rcases mem_appWorkspace.mp (Catalog.mem_of_get? hp) with rfl | rfl
    · cases hd
    · rw [(declaredBy_secret define).dependencies_chainConfiguration] at hd
      cases hd

/-- The sample is resolved whatever its private define. -/
theorem secretWorkspace_resolved (define : String) :
    ∃ r store, (secretWorkspace define).resolve false ["App"] {} {} = (.ok r, store) := by
  have hfirst : DependenciesFirst ((secretWorkspace define).Requires {}) ["Core", "App"] := by
    refine (DependenciesFirst.nil.concat ?_).concat ?_
    · intro b hb
      simpa using requires_secret hb
    · intro b hb
      simpa using (requires_secret hb).2
  obtain ⟨hneeded, hacyclic⟩ := needed_of_dependenciesFirst hfirst (by decide : ∀ x ∈ ["App"], x ∈ ["Core", "App"])
  have hdeclared : (secretWorkspace define).AllDeclared {} ["App"] := by
    intro x hx
    rcases List.mem_pair.mp (hneeded x hx) with rfl | rfl
    · exact List.mem_cons_of_mem _ List.mem_cons_self
    · exact List.mem_cons_self
  have hvariants : (secretWorkspace define).AllVariants {} ["App"] := by
    intro a b _ hab
    obtain ⟨-, rfl⟩ := requires_secret hab
    refine ⟨coreProject, rfl, rfl, Or.inr ?_⟩
    rw [chainOf_secret]
    exact ⟨_, List.mem_singleton.mpr rfl, _, List.mem_singleton.mpr rfl, rfl⟩
  have hagreeing : (secretWorkspace define).AllAgreeing false {} ["App"] := by
    intro x p _ _ hstrict
    cases hstrict
  obtain ⟨s, hs⟩ := exists_schedule_eq_ok_iff.mpr ⟨hdeclared, hagreeing, hvariants, hacyclic⟩
  exact exists_resolve_of_schedule (fun _ => rfl) hs

end Workspace

/-- Another secret of the project does not change the program that depends on it. -/
theorem private_settings_stay_secret :
    ∃ r store r' store',
      (Workspace.secretWorkspace "KEY=1").resolve false ["App"] {} {} = (.ok r, store) ∧
      (Workspace.secretWorkspace "KEY=2").resolve false ["App"] {} {} = (.ok r', store') ∧ r'.order = r.order ∧
      List.Forall₂ (fun e e' => e'.project = e.project ∧ e'.exports = e.exports ∧ (e.project ≠ "Core" → e' = e))
        r.descriptors r'.descriptors := by
  obtain ⟨r, store, hr⟩ := Workspace.secretWorkspace_resolved "KEY=1"
  obtain ⟨r', store', hr'⟩ := Workspace.secretWorkspace_resolved "KEY=2"
  obtain ⟨-, horder, hdescriptors⟩ := private_settings_stay (finish_appWorkspace [Workspace.secretRule "KEY=1"])
    (Workspace.differPrivately_secret "KEY=1" "KEY=2") hr hr'
  exact ⟨r, store, r', store', hr, hr', horder, hdescriptors⟩

end BuildPlan
