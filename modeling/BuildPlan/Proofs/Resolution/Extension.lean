import BuildPlan.Proofs.Graph.Reindex
import BuildPlan.Proofs.Resolution.Outcome
import BuildPlan.Proofs.Resolution.Reference
import Mathlib.Data.List.Find

/-!
# What else is declared does not matter

A workspace may be part of another one that declares further projects, edges, rule sets and solutions. As long as nothing in
the part depends on a further project, a project of the part is compiled in both to the same result (`compile_partOf`). The
places of the projects in the order of declaration are others, but they compare alike.
-/

namespace BuildPlan

/-! ### Discoveries with other indices -/

/-- A node gets its dependencies whatever its index is. -/
theorem TargetNode.addDependencies_reindex (ι : String → Nat) (n : TargetNode) (deps : List (String × Visibility)) :
    (n.addDependencies deps).reindex ι = (n.reindex ι).addDependencies deps := by
  unfold addDependencies
  induction deps generalizing n with
  | nil => rfl
  | cons d deps ih => exact ih (n.addDependency d.1 d.2)

namespace Discovery

variable {ι : String → Nat}

/-- The discovery with other indices in its graph. -/
def reindex (ι : String → Nat) (d : Discovery) : Discovery := { d with graph := d.graph.reindex ι }

/-- What a project inherits does not depend on the indices of the nodes. -/
theorem inheritance_reindex (d : Discovery) (store : DescriptorStore) (x : String) (deps : List (String × Visibility)) :
    (d.reindex ι).inheritance store x deps = d.inheritance store x deps := by
  induction deps with
  | nil => rfl
  | cons dep deps ih =>
    unfold inheritance
    rw [ih]
    rfl

/-- The descriptor of a project does not depend on the indices of the nodes. -/
theorem describe_reindex (d : Discovery) (order : List String) (store : DescriptorStore) (x : String) :
    (d.reindex ι).describe order store x = d.describe order store x := by
  have hnode : (d.reindex ι).graph.node? x = (d.graph.node? x).map (TargetNode.reindex ι) := d.graph.node?_reindex ι x
  have hreached : (d.reindex ι).graph.transitiveDependencies = d.graph.transitiveDependencies :=
    d.graph.transitiveDependencies_reindex ι
  have hlocals : (d.reindex ι).locals = d.locals := rfl
  unfold describe
  rw [hnode, hreached, hlocals]
  cases d.graph.node? x with
  | none => rfl
  | some n =>
    cases d.locals.lookup x with
    | none => rfl
    | some l =>
      dsimp only [Option.map_some, TargetNode.reindex]
      rw [inheritance_reindex]

/-- Assembling a project does not depend on the indices of the nodes. -/
theorem assemble_reindex (d : Discovery) : (d.reindex ι).assemble = d.assemble := by
  funext order store x
  unfold assemble
  rw [describe_reindex]
  rfl

/-- Assembling a wave does not depend on the indices of the nodes. -/
theorem assembleWave_reindex (d : Discovery) : (d.reindex ι).assembleWave = d.assembleWave := by
  funext order store wave
  induction wave generalizing store with
  | nil => rfl
  | cons x wave ih =>
    unfold assembleWave
    rw [assemble_reindex]
    simp only [ih]

/-- Assembling waves does not depend on the indices of the nodes. -/
theorem assembleWaves_reindex (d : Discovery) : (d.reindex ι).assembleWaves = d.assembleWaves := by
  funext order store waves
  induction waves generalizing store with
  | nil => rfl
  | cons wave waves ih =>
    unfold assembleWaves
    rw [assembleWave_reindex]
    simp only [ih]

end Discovery

namespace Schedule

/-- The schedule with other indices in its graph. -/
def reindex (ι : String → Nat) (s : Schedule) : Schedule := { s with discovery := s.discovery.reindex ι }

/-- The resolution of the schedule is the same apart from the indices in its graph. -/
theorem run_reindex (ι : String → Nat) (s : Schedule) (store : DescriptorStore) :
    (s.reindex ι).run store =
      ((s.run store).1.map fun r => { r with graph := r.graph.reindex ι }, (s.run store).2) := by
  have hwaves : (s.reindex ι).discovery.assembleWaves = s.discovery.assembleWaves := s.discovery.assembleWaves_reindex
  unfold run
  rw [hwaves]
  dsimp only [reindex]
  cases s.discovery.assembleWaves s.order store s.waves with
  | mk error store =>
    cases error with
    | some e => rfl
    | none =>
      have htarget : (s.discovery.reindex ι).graph.target = s.discovery.graph.target := rfl
      dsimp only
      rw [htarget]
      cases collect store s.discovery.graph.target s.order with
      | error e => rfl
      | ok ds => rfl

end Schedule

/-! ### Parts of a workspace -/

namespace Workspace

/-- A workspace is part of another one: it has some of its projects with all edges that leave them, and some of its rule sets,
all in the same order. No rule of a project of the part declares a dependency on a project that is not in the part. Solutions
play no role. -/
structure PartOf (w w' : Workspace) : Prop where
  projects : w.projects.items.Sublist w'.projects.items
  edges : w.edges = w'.edges.filter (fun e => w.projects.contains e.source)
  ruleSets : w.rules.sets.items.Sublist w'.rules.sets.items
  context : w'.context = w.context
  dependencies : ∀ p ∈ w.projects.items, ∀ t b, w'.DeclaresDependency p t b → b ∈ w'.projects.names → b ∈ w.projects.names

namespace PartOf

variable {w w' : Workspace} {p : Project} {t : Target} {roots : List String} {strict : Bool}

/-- A project of the part is the same in the whole. -/
theorem get?_eq (h : w.PartOf w') {x : String} (hx : x ∈ w.projects.names) :
    w'.projects.get? x = w.projects.get? x := by
  obtain ⟨p, hp⟩ := Catalog.mem_names_iff.mp hx
  rw [hp]
  exact Catalog.get?_eq_some_of_subset (fun _ ha => h.projects.subset ha) hp

/-- Looking up a name of the part is the same in the whole. -/
theorem project_eq (h : w.PartOf w') {x : String} (hx : x ∈ w.projects.names) : w'.project x = w.project x := by
  unfold project
  rw [h.get?_eq hx]

/-- The names of the part are names of the whole. -/
theorem mem_names (h : w.PartOf w') {x : String} (hx : x ∈ w.projects.names) : x ∈ w'.projects.names :=
  (h.projects.map Named.name).subset hx

/-! ### One project -/

/-- A project of the part has the same chain of rule sets in the whole. -/
theorem chainOf_eq (h : w.PartOf w') (hw : w.Finished) (hp : p ∈ w.projects.items) : w'.chainOf p = w.chainOf p :=
  hw.chainOf_eq hp (fun _ hs =>
    Catalog.get?_eq_some_of_subset (fun _ ha => h.ruleSets.subset ha) (Workspace.get?_of_mem_chainOf hs))

/-- The chain of a project of the part leaves the same configuration in the whole. -/
theorem chainConfiguration_eq (h : w.PartOf w') (hw : w.Finished) (hp : p ∈ w.projects.items) (t : Target) :
    w'.chainConfiguration p t = w.chainConfiguration p t := chainConfiguration_congr h.context (h.chainOf_eq hw hp) t

/-- A project of the part is configured to the same result in the whole, error or not. -/
theorem compileLocal_eq (h : w.PartOf w') (hw : w.Finished) (hp : p ∈ w.projects.items) (strict : Bool) (t : Target) :
    w'.compileLocal strict p t = w.compileLocal strict p t := by
  unfold compileLocal
  rw [h.chainConfiguration_eq hw hp, localConfiguration_congr h.context (h.chainOf_eq hw hp)]

/-- A project of the part has the same registered edges in the whole. -/
theorem edgesFor_eq (h : w.PartOf w') {x : String} (hx : x ∈ w.projects.names) (t : Target) :
    w'.edgesFor x t = w.edgesFor x t := by
  unfold edgesFor
  rw [h.edges, List.filter_filter]
  refine List.filter_congr (fun e _ => ?_)
  by_cases hsource : e.source = x
  · rw [Catalog.contains_iff_mem.mpr (hsource ▸ hx), Bool.and_true]
  · rw [beq_false_of_ne hsource, Bool.false_and, Bool.false_and]

/-- The place that a project has in the larger workspace. -/
theorem node_eq (h : w.PartOf w') (hw : w.Finished) (hp : p ∈ w.projects.items) (t : Target) :
    w'.node p t = (w.node p t).reindex w'.projects.indexOf := by
  have hname : p.name ∈ w.projects.names := List.mem_map_of_mem hp
  unfold node declaredEdges
  rw [h.edgesFor_eq hname, h.chainConfiguration_eq hw hp, TargetNode.addDependencies_reindex]
  rfl

/-- A project of the part has the same dependencies in the whole. -/
theorem successors_eq (h : w.PartOf w') (hw : w.Finished) {x : String} (hx : x ∈ w.projects.names) (t : Target) :
    w'.successors t x = w.successors t x := by
  unfold successors
  rw [h.get?_eq hx]
  cases hp : w.projects.get? x with
  | none => rfl
  | some p =>
    dsimp only
    rw [h.node_eq hw (Catalog.mem_of_get? hp)]
    rfl

/-- What a project of the part requires is in the part or not declared at all. -/
theorem mem_names_of_requires (h : w.PartOf w') (hw : w.Finished) {x b : String} (hb : w.Requires t x b)
    (hdeclared : b ∈ w'.projects.names) : b ∈ w.projects.names := by
  obtain ⟨p, hp, ⟨e, he, -, rfl, -⟩ | hrule⟩ := hb
  · exact (hw.edges e he).2
  · have hmem := Catalog.mem_of_get? hp
    refine h.dependencies p hmem t b ?_ hdeclared
    rw [declaresDependency_iff, h.chainConfiguration_eq hw hmem]
    exact declaresDependency_iff.mp hrule

/-- A dependency of a project of the part is declared in the whole exactly if it is in the part. -/
theorem contains_eq (h : w.PartOf w') (hw : w.Finished) {x b : String} (hb : w.Requires t x b) :
    w'.projects.contains b = w.projects.contains b := by
  unfold Catalog.contains
  rw [Bool.eq_iff_iff, List.contains_iff_mem, List.contains_iff_mem]
  exact ⟨h.mem_names_of_requires hw hb, h.mem_names⟩

/-! ### The discovery -/

/-- Roots of the part need the same names in the whole, found in the same order. -/
theorem needed_eq (h : w.PartOf w') (hw : w.Finished) (hroots : ∀ x ∈ roots, x ∈ w.projects.names) (t : Target) :
    w'.needed roots t = w.needed roots t := by
  refine Reach.closure_congr hroots (fun x hx => h.successors_eq hw hx t) ?_ (fun x b _ hb => hb.2)
  intro x _ b hb
  have hreq : w.Requires t x b := requires_iff_mem_successors.mpr hb
  exact ⟨h.mem_names_of_requires hw hreq, h.mem_names⟩

/-- What declared roots need and is found is declared. -/
theorem mem_names_of_needed (hroots : ∀ x ∈ roots, x ∈ w.projects.names) : ∀ x ∈ w.needed roots t, x ∈ w.projects.names := by
  intro x hx
  obtain ⟨r, hr, hrx⟩ := Reach.mem_closure.mp hx
  rcases Relation.ReflTransGen.cases_tail hrx with rfl | ⟨b, -, hbx⟩
  · exact hroots _ hr
  · exact hbx.2

/-- A visit is the same in both workspaces. -/
theorem visit_eq (h : w.PartOf w') (hw : w.Finished) {x : String} (hx : x ∈ w.projects.names) (strict : Bool) (t : Target)
    (d : Discovery) :
    Discovery.visit w' strict t (d.reindex w'.projects.indexOf) x =
      (Discovery.visit w strict t d x).map (Discovery.reindex w'.projects.indexOf) := by
  obtain ⟨p, hp⟩ := Catalog.mem_names_iff.mp hx
  have hmem := Catalog.mem_of_get? hp
  have hfind : (w.node p t).dependencies.names.find? (fun dep => !w'.projects.contains dep) =
      (w.node p t).dependencies.names.find? (fun dep => !w.projects.contains dep) := by
    refine List.find?_congr (fun b hb => ?_)
    rw [h.contains_eq hw ((requires_iff hp).mpr hb)]
  unfold Discovery.visit
  rw [h.project_eq hx, Discovery.project_eq_ok_iff.mpr hp]
  dsimp only [bind, Except.bind]
  rw [h.compileLocal_eq hw hmem]
  cases w.compileLocal strict p t with
  | error e => rfl
  | ok l =>
    have hdependencies : (w'.node p t).dependencies = (w.node p t).dependencies := by
      rw [h.node_eq hw hmem]
      rfl
    dsimp only
    rw [hdependencies, hfind]
    cases (w.node p t).dependencies.names.find? (fun dep => !w.projects.contains dep) with
    | some dep => rfl
    | none =>
      have hgraph := d.graph.addNode_reindex w'.projects.indexOf (w.node p t)
      rw [← h.node_eq hw hmem] at hgraph
      simp only [pure, Except.pure, Except.map, Discovery.reindex, hgraph]

/-- Visiting names of the part discovers the same in the whole, apart from the indices of the nodes. -/
theorem foldlM_visit_eq (h : w.PartOf w') (hw : w.Finished) (strict : Bool) (t : Target) {names : List String}
    (hnames : ∀ x ∈ names, x ∈ w.projects.names) (d : Discovery) :
    names.foldlM (Discovery.visit w' strict t) (d.reindex w'.projects.indexOf) =
      (names.foldlM (Discovery.visit w strict t) d).map (Discovery.reindex w'.projects.indexOf) := by
  induction names generalizing d with
  | nil => rfl
  | cons x names ih =>
    rw [List.foldlM_cons, List.foldlM_cons, h.visit_eq hw (hnames x List.mem_cons_self)]
    cases Discovery.visit w strict t d x with
    | error e => rfl
    | ok d => exact ih (fun y hy => hnames y (List.mem_cons_of_mem _ hy)) d

/-- Roots of the part discover the same in the whole, apart from the indices of the nodes. -/
theorem ofRoots_eq (h : w.PartOf w') (hw : w.Finished) (hroots : ∀ x ∈ roots, x ∈ w.projects.names) (strict : Bool)
    (t : Target) :
    Discovery.ofRoots w' strict roots t = (Discovery.ofRoots w strict roots t).map (Discovery.reindex w'.projects.indexOf) := by
  unfold Discovery.ofRoots
  rw [h.needed_eq hw hroots]
  exact h.foldlM_visit_eq hw strict t (mem_names_of_needed hroots) { graph := { target := t } }

/-! ### The schedule and the resolution -/

/-- The check of dependencies of the part gives the same in the whole. -/
theorem checkDependencies_eq (h : w.PartOf w') (d : Discovery) (ι : String → Nat) (x : String) {deps : List String}
    (hdeps : ∀ b ∈ deps, b ∈ w.projects.names) :
    (d.reindex ι).checkDependencies w' x deps = d.checkDependencies w x deps := by
  induction deps with
  | nil => rfl
  | cons b deps ih =>
    unfold Discovery.checkDependencies
    rw [h.project_eq (hdeps b List.mem_cons_self), ih (fun c hc => hdeps c (List.mem_cons_of_mem _ hc))]
    rfl

/-- The check of nodes of the part gives the same in the whole. -/
theorem checkVariants_eq (h : w.PartOf w') (d : Discovery) (ι : String → Nat) {nodes : List TargetNode}
    (hnodes : ∀ n ∈ nodes, ∀ b ∈ n.dependencies.names, b ∈ w.projects.names) :
    (d.reindex ι).checkVariants w' (nodes.map (TargetNode.reindex ι)) = d.checkVariants w nodes := by
  induction nodes with
  | nil => rfl
  | cons n nodes ih =>
    have hdependencies : (n.reindex ι).dependencies = n.dependencies := rfl
    rw [List.map_cons, Discovery.checkVariants, Discovery.checkVariants,
      ih (fun m hm => hnodes m (List.mem_cons_of_mem _ hm)), hdependencies,
      h.checkDependencies_eq d ι _ (hnodes n List.mem_cons_self)]
    rfl

/-- The places in both workspaces compare the nodes of a discovery alike. -/
theorem compares (h : w.PartOf w') {d : Discovery} (hd : Discovery.ofRoots w strict roots t = .ok d) :
    TargetGraph.Compares w'.projects.indexOf d.graph.nodes.items := by
  have hfound := Discovery.discovered_of_ofRoots hd
  have hindex : ∀ n ∈ d.graph.nodes.items, n.index = w.projects.indexOf n.name ∧ n.name ∈ w.projects.names := by
    intro n hn
    obtain ⟨-, p, hp, rfl⟩ := (hfound.node? n.name n).mp (Catalog.get?_name hn)
    obtain ⟨hname, hindex⟩ := TargetNode.addDependencies_frame _ (w.declaredEdges p t)
    exact ⟨by rw [name_node]; exact hindex, Catalog.mem_names_of_get? hp⟩
  intro n hn m hm
  rw [(hindex n hn).1, (hindex m hm).1]
  exact Catalog.indexOf_le_indexOf_iff h.projects (hindex n hn).2 (hindex m hm).2

/-- Roots of the part have the same schedule in the whole, apart from the indices of the nodes. -/
theorem schedule_eq (h : w.PartOf w') (hw : w.Finished) (hroots : ∀ x ∈ roots, x ∈ w.projects.names) (strict : Bool)
    (t : Target) :
    w'.schedule strict roots t = (w.schedule strict roots t).map (Schedule.reindex w'.projects.indexOf) := by
  unfold schedule
  rw [h.ofRoots_eq hw hroots]
  cases hd : Discovery.ofRoots w strict roots t with
  | error e => rfl
  | ok d =>
    have hcompares := h.compares hd
    have hnodes : ∀ n ∈ d.graph.nodes.items, ∀ b ∈ n.dependencies.names, b ∈ w.projects.names := by
      intro n hn b hb
      obtain ⟨hx, hreq⟩ := (Discovery.discovered_of_ofRoots hd).requires_of_mem hn hb
      exact (Workspace.exists_ofRoots_iff_declared.mp ⟨d, hd⟩).1 b (hx.tail hreq)
    have hvalidate : (d.reindex w'.projects.indexOf).graph.validate = d.graph.validate := d.graph.validate_reindex _
    have hvariants := h.checkVariants_eq d w'.projects.indexOf hnodes
    have horder : (d.reindex w'.projects.indexOf).graph.topologicalOrder = d.graph.topologicalOrder :=
      TargetGraph.topologicalOrder_reindex hcompares
    have hwaves : (d.reindex w'.projects.indexOf).graph.parallelGroups = d.graph.parallelGroups :=
      TargetGraph.parallelGroups_reindex hcompares
    have hitems : (d.reindex w'.projects.indexOf).graph.nodes.items =
        d.graph.nodes.items.map (TargetNode.reindex w'.projects.indexOf) := rfl
    dsimp only [bind, Except.bind, Except.map]
    rw [hvalidate, hitems, hvariants, horder, hwaves]
    cases d.graph.validate with
    | error e => rfl
    | ok _ =>
      cases d.checkVariants w d.graph.nodes.items with
      | error e => rfl
      | ok _ =>
        cases d.graph.topologicalOrder with
        | error e => rfl
        | ok order => cases d.graph.parallelGroups <;> rfl

/-- Projects of the part are resolved alike, apart from their indices. -/
theorem resolve_eq (h : w.PartOf w') (hw : w.Finished) (hroots : ∀ x ∈ roots, x ∈ w.projects.names) (strict : Bool)
    (t : Target) (store : DescriptorStore) :
    w'.resolve strict roots t store =
      ((w.resolve strict roots t store).1.map fun r => { r with graph := r.graph.reindex w'.projects.indexOf },
        (w.resolve strict roots t store).2) := by
  unfold resolve
  rw [h.schedule_eq hw hroots]
  cases w.schedule strict roots t with
  | error e => rfl
  | ok s => exact s.run_reindex w'.projects.indexOf store

end PartOf

end Workspace

/-- Unrelated declarations do not matter. Where a finished workspace is part of another one, each of its projects is compiled
to the same result in both, on every target and in strict mode or not: the same descriptor in every field, or the same
error. -/
theorem compile_partOf {d : Declarations} {w w' : Workspace} (hw : d.finish = .ok w) (h : w.PartOf w') {p : Project}
    (hp : p ∈ w.projects.items) (strict : Bool) (t : Target) :
    w'.compile strict p.name t = w.compile strict p.name t := by
  obtain ⟨-, hfinished⟩ := Declarations.finish_eq_ok_iff.mp hw
  have hroots : ∀ x ∈ [p.name], x ∈ w.projects.names :=
    fun x hx => List.mem_singleton.mp hx ▸ List.mem_map_of_mem hp
  unfold Workspace.compile
  rw [h.resolve_eq hfinished hroots]
  cases (w.resolve strict [p.name] t {}).1 with
  | error e => rfl
  | ok r => rfl

/-! ### A project with a consumer -/

/-- A program. -/
def appProject : Project where
  name := "App"
  sourceRoot := "App"

/-- The workspace of one project with some rules and of a program that depends on it, declared before it. -/
def appWorkspace (rules : List Rule) : Workspace :=
  { coreWorkspace rules with
    projects := Catalog.ofList [appProject, coreProject]
    edges := [{ source := "App", dependency := "Core" }] }

/-- Only the rules make a difference. -/
theorem appWorkspace_frame (rules rules' : List Rule) :
    (appWorkspace rules').projects = (appWorkspace rules).projects ∧
      (appWorkspace rules').edges = (appWorkspace rules).edges ∧
      (appWorkspace rules').context = (appWorkspace rules).context :=
  ⟨rfl, rfl, rfl⟩

/-- The workspace holds the program and the project. -/
theorem mem_appWorkspace {rules : List Rule} {p : Project} :
    p ∈ (appWorkspace rules).projects.items ↔ p = appProject ∨ p = coreProject := by
  have hitems : (appWorkspace rules).projects.items = [appProject, coreProject] := rfl
  rw [hitems, List.mem_pair]

/-- The declarations of the project and the program are finished, whatever the rules are. -/
theorem finish_appWorkspace (rules : List Rule) :
    ({ coreDeclarations rules with
      projects := (appWorkspace rules).projects
      edges := (appWorkspace rules).edges } : Declarations).finish = .ok (appWorkspace rules) := by
  obtain ⟨-, h⟩ := Declarations.finish_eq_ok_iff.mp (finish_coreDeclarations rules)
  refine Declarations.finish_eq_ok_iff.mpr ⟨rfl, ⟨?_, h.chains, ?_, ?_, fun s hs => absurd hs List.not_mem_nil, h.solutionAxes⟩⟩
  · intro e he
    rw [List.mem_singleton.mp he]
    exact ⟨List.mem_cons_self, List.mem_cons_of_mem _ List.mem_cons_self⟩
  · intro p hp
    rcases mem_appWorkspace.mp hp with rfl | rfl
    · exact fun id hid => nomatch hid
    · exact h.ruleSets coreProject List.mem_cons_self
  · intro p hp
    rcases mem_appWorkspace.mp hp with rfl | rfl
    · rfl
    · rfl

/-- The workspace of the project alone is part of the one with the program. -/
theorem partOf_appWorkspace (name path : String) :
    (coreWorkspace [outputRule name 0 path]).PartOf (appWorkspace [outputRule name 0 path]) where
  projects := List.Sublist.cons _ (List.Sublist.refl _)
  edges := rfl
  ruleSets := List.Sublist.refl _
  context := rfl
  dependencies := by
    intro p hp t b hb _
    have hentries : (appWorkspace [outputRule name 0 path]).DeclaredBy coreProject t _ := declaredBy_core name path t
    obtain ⟨d, hd, -⟩ := Workspace.declaresDependency_iff.mp hb
    rw [List.mem_singleton.mp hp, hentries.dependencies_chainConfiguration] at hd
    cases hd

/-- The program plays no part when the project that it depends on is compiled. -/
theorem compile_partOf_appWorkspace :
    (appWorkspace [outputRule "output" 0 "bin"]).compile true "Core" {} =
      (coreWorkspace [outputRule "output" 0 "bin"]).compile true "Core" {} :=
  compile_partOf (finish_coreDeclarations _) (partOf_appWorkspace "output" "bin") (p := coreProject) List.mem_cons_self true {}

end BuildPlan
