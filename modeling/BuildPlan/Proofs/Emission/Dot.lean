import BuildPlan.Emission.Dot
import BuildPlan.Proofs.Emission.Stream
import BuildPlan.Proofs.Resolution.Inheritance
import Mathlib.Data.List.Permutation

/-!
# What a drawing tells of a graph

A drawing puts names between double quotes as they are. As long as no name holds a double quote, the lines of a drawing can be
told apart from the last one on (`DotLine.eq_of_marks`), and the drawing tells the key of the target, the order and the
dependencies of every project with their visibility (`drawing_faithful`). A name with a double quote can look like several
lines, so that two different graphs have one drawing (`drawing_ambiguous`).
-/

namespace BuildPlan

/-- A line of a drawing, for a project or for a dependency of a project. -/
inductive DotLine
  | node (name : String)
  | edge (source : String) (dep : String × Visibility)

namespace DotLine

open Resolution

/-- The line as it is drawn. -/
def text : DotLine → String
  | .node name => "  " ++ dotName name ++ ";\n"
  | .edge source dep => dotEdge source dep

/-- The names in the line. -/
def names : DotLine → List String
  | .node name => [name]
  | .edge source dep => [source, dep.1]

/-- No name in the line holds a double quote. -/
def Plain (l : DotLine) : Prop := ∀ n ∈ l.names, '"' ∉ n.toList

/-! ### Lines read from their ends -/

/-- The characters of a line, the last one first. -/
def marks (l : DotLine) : List Char := l.text.toList.reverse

/-- A name between double quotes and what is in front of it, the last character first. -/
def quotedMarks (name : String) (front : List Char) : List Char := '"' :: (name.toList.reverse ++ '"' :: front)

/-- What follows the last name in the line of a dependency, the last character first. -/
def closing : Visibility → List Char
  | .pub => ['\n', ';']
  | .priv => " [style=dashed];\n".toList.reverse

/-- The line of a node, read backwards, is its closing and its name between double quotes. -/
theorem marks_node (name : String) (front : List Char) :
    (node name).marks ++ front = closing .pub ++ quotedMarks name (' ' :: ' ' :: front) := by
  simp [marks, text, dotName, quotedMarks, closing]

/-- The line of an edge, read backwards, is its closing and its two names between double quotes. -/
theorem marks_edge (source name : String) (v : Visibility) (front : List Char) :
    (edge source (name, v)).marks ++ front =
      closing v ++ quotedMarks name (' ' :: '>' :: '-' :: ' ' :: quotedMarks source (' ' :: ' ' :: front)) := by
  cases v <;> simp [marks, text, dotEdge, dotName, quotedMarks, closing]

/-- The closing of a line has no double quote. -/
theorem not_mem_closing (v : Visibility) : '"' ∉ closing v := by
  cases v <;> decide

/-- The closing of a line tells the visibility. -/
theorem closing_injective : Function.Injective closing := by
  intro v v'
  cases v <;> cases v' <;> decide

/-- The part before the first quote is known from a text: the longer one of two different parts would go on with a quote. -/
theorem eq_of_append_quote {l m x y : List Char} (hl : '"' ∉ l) (hm : '"' ∉ m) (h : l ++ '"' :: x = m ++ '"' :: y) :
    l = m ∧ x = y := by
  rcases List.append_eq_append_iff.mp h with ⟨more, rfl, hmore⟩ | ⟨more, rfl, hmore⟩
  · cases more with
    | nil => exact ⟨(List.append_nil l).symm, (List.cons.inj hmore).2⟩
    | cons c more =>
      obtain ⟨rfl, -⟩ := List.cons.inj hmore
      exact absurd (List.mem_append_right _ List.mem_cons_self) hm
  · cases more with
    | nil => exact ⟨List.append_nil m, (List.cons.inj hmore).2.symm⟩
    | cons c more =>
      obtain ⟨rfl, -⟩ := List.cons.inj hmore
      exact absurd (List.mem_append_right _ List.mem_cons_self) hl

/-- The last name of a text is known, and what stands behind it and in front of it. -/
theorem eq_of_quotedMarks {a b : String} {l m x y : List Char} (hl : '"' ∉ l) (hm : '"' ∉ m) (ha : '"' ∉ a.toList)
    (hb : '"' ∉ b.toList) (h : l ++ quotedMarks a x = m ++ quotedMarks b y) : l = m ∧ a = b ∧ x = y := by
  obtain ⟨hbehind, hquoted⟩ := eq_of_append_quote hl hm h
  obtain ⟨hname, hfront⟩ := eq_of_append_quote (mt List.mem_reverse.mp ha) (mt List.mem_reverse.mp hb) hquoted
  exact ⟨hbehind, String.toList_inj.mp (List.reverse_inj.mp hname), hfront⟩

/-- In front of the name of a project there are blanks, in front of that of a dependency there is an arrow. -/
theorem marks_node_ne_edge {a b name : String} {v : Visibility} (ha : (node a).Plain) (hb : (edge b (name, v)).Plain)
    (x y : List Char) : (node a).marks ++ x ≠ (edge b (name, v)).marks ++ y := by
  intro h
  rw [marks_node, marks_edge] at h
  obtain ⟨-, -, hfront⟩ := eq_of_quotedMarks (not_mem_closing _) (not_mem_closing _) (ha a (by simp [names]))
    (hb name (by simp [names])) h
  exact absurd hfront (by simp)

/-- Lines without double quotes in their names are told apart by their ends. -/
theorem eq_of_marks {l m : DotLine} (hl : l.Plain) (hm : m.Plain) {x y : List Char} (h : l.marks ++ x = m.marks ++ y) :
    l = m ∧ x = y := by
  cases l with
  | node a =>
    cases m with
    | node b =>
      rw [marks_node, marks_node] at h
      obtain ⟨-, rfl, hfront⟩ := eq_of_quotedMarks (not_mem_closing _) (not_mem_closing _) (hl a (by simp [names]))
        (hm b (by simp [names])) h
      exact ⟨rfl, by simpa using hfront⟩
    | edge b dep => exact absurd h (marks_node_ne_edge hl hm x y)
  | edge a dep =>
    cases m with
    | node b => exact absurd h.symm (marks_node_ne_edge hm hl y x)
    | edge b dep' =>
      obtain ⟨name, v⟩ := dep
      obtain ⟨name', v'⟩ := dep'
      rw [marks_edge, marks_edge] at h
      obtain ⟨hclosing, rfl, harrow⟩ := eq_of_quotedMarks (not_mem_closing _) (not_mem_closing _)
        (hl name (by simp [names])) (hm name' (by simp [names])) h
      obtain ⟨-, rfl, hfront⟩ := eq_of_quotedMarks (l := [' ', '>', '-', ' ']) (m := [' ', '>', '-', ' ']) (by decide)
        (by decide) (hl a (by simp [names])) (hm b (by simp [names])) harrow
      rw [closing_injective hclosing]
      exact ⟨rfl, by simpa using hfront⟩

/-! ### The lines of a drawing -/

/-- What is drawn before the lines of a target of a key. -/
def header (key : String) : String := "digraph " ++ dotName key ++ " \x7b\n  rankdir=LR;\n"

/-- The header tells the key. -/
theorem header_injective : Function.Injective header := by
  intro k k' h
  have hchars := congrArg String.toList h
  simpa [header, dotName, String.toList_inj] using hchars

/-- The header does not look like a line. -/
theorem header_ne_marks (key : String) {l : DotLine} (x : List Char) : (header key).toList.reverse ≠ l.marks ++ x := by
  intro h
  cases l with
  | node a => simp [marks_node, header, closing, quotedMarks] at h
  | edge a dep =>
    obtain ⟨name, v⟩ := dep
    rw [marks_edge] at h
    cases v <;> simp [header, closing, quotedMarks] at h

/-- The lines of a drawing and the key in its header are known from its text, if no name holds a double quote. -/
theorem eq_of_flatMap_marks {ls ms : List DotLine} {k k' : String} (hls : ∀ l ∈ ls, l.Plain) (hms : ∀ m ∈ ms, m.Plain)
    (h : ls.flatMap marks ++ (header k).toList.reverse = ms.flatMap marks ++ (header k').toList.reverse) :
    ls = ms ∧ k = k' := by
  induction ls generalizing ms with
  | nil =>
    cases ms with
    | nil => exact ⟨rfl, header_injective (String.toList_inj.mp (List.reverse_inj.mp h))⟩
    | cons m ms =>
      rw [List.flatMap_cons, List.append_assoc] at h
      exact absurd h (header_ne_marks k _)
  | cons l ls ih =>
    rw [List.flatMap_cons, List.append_assoc] at h
    cases ms with
    | nil => exact absurd h.symm (header_ne_marks k' _)
    | cons m ms =>
      rw [List.flatMap_cons, List.append_assoc] at h
      rw [List.forall_mem_cons] at hls hms
      obtain ⟨rfl, hrest⟩ := eq_of_marks hls.1 hms.1 h
      obtain ⟨rfl, rfl⟩ := ih hls.2 hms.2 hrest
      exact ⟨rfl, rfl⟩

/-! ### What lines tell -/

/-- The project of a line for a project. -/
def node? : DotLine → Option String
  | .node name => some name
  | .edge .. => none

/-- The dependency of a line for a dependency of a project. -/
def dependency? (source : String) : DotLine → Option (String × Visibility)
  | .node _ => none
  | .edge a dep => if a = source then some dep else none

end DotLine

namespace Resolution

open DotLine

variable {r : Resolution}

/-- The lines of the drawing of a resolution. -/
def dotLines (r : Resolution) : List DotLine :=
  r.order.map node ++ r.order.flatMap fun x => (r.graph.dependenciesOf x).map (edge x)

/-- The edges of a node are drawn in the order of its dependencies. -/
theorem dotEdges_eq (r : Resolution) (x : String) : r.dotEdges x = ((r.graph.dependenciesOf x).map (edge x)).map text := by
  unfold dotEdges TargetGraph.dependenciesOf
  rw [List.map_map]
  cases r.graph.node? x <;> rfl

/-- A drawing is its header, its lines and a brace. -/
theorem toList_dot (r : Resolution) :
    r.dot.toList = (header r.target.key).toList ++ (r.dotLines.map text).flatMap String.toList ++ ['\x7d', '\n'] := by
  have hnodes : r.order.map (fun name => "  " ++ dotName name ++ ";\n") = (r.order.map node).map text := by
    rw [List.map_map]
    rfl
  have hedges : r.order.flatMap r.dotEdges = (r.order.flatMap fun x => (r.graph.dependenciesOf x).map (edge x)).map text := by
    rw [List.map_flatMap]
    exact List.flatMap_congr (fun x _ => r.dotEdges_eq x)
  rw [dot, hnodes, hedges, dotLines, List.map_append, List.flatMap_append, ← Text.toList_join, ← Text.toList_join]
  simp [header]

/-- The characters of a drawing, the last one first. -/
theorem reverse_toList_dot (r : Resolution) :
    r.dot.toList.reverse =
      ['\n', '\x7d'] ++ (r.dotLines.reverse.flatMap marks ++ (header r.target.key).toList.reverse) := by
  rw [toList_dot, List.flatMap_map, List.reverse_append, List.reverse_append, List.reverse_flatMap]
  rfl

/-- The lines of a drawing, written out: the key of the target, the projects in order, and, project by project, their
dependencies, of which the private ones are dashed. -/
def drawing (r : Resolution) : List String :=
  ["digraph \"" ++ r.target.key ++ "\" \x7b", "  rankdir=LR;"] ++
    r.order.map (fun x => "  \"" ++ x ++ "\";") ++
    r.order.flatMap (fun x => (r.graph.dependenciesOf x).map fun dep =>
      "  \"" ++ x ++ "\" -> \"" ++ dep.1 ++ "\"" ++ if dep.2 = .pub then ";" else " [style=dashed];") ++
    ["\x7d"]

/-- A drawing is its lines, each with a line feed. -/
theorem dot_eq_join_drawing (r : Resolution) : r.dot = Text.join "" (r.drawing.map (· ++ "\n")) := by
  have hheader : "digraph \"" ++ r.target.key ++ "\" \x7b" ++ "\n" = "digraph \"" ++ r.target.key ++ "\" \x7b\n" := by
    simp [← String.toList_inj]
  have hnode : ∀ x, "  \"" ++ x ++ "\";" ++ "\n" = (node x).text := by
    intro x
    simp [text, dotName, ← String.toList_inj]
  have hedge : ∀ x (dep : String × Visibility), "  \"" ++ x ++ "\" -> \"" ++ dep.1 ++ "\"" ++
      (if dep.2 = .pub then ";" else " [style=dashed];") ++ "\n" = (edge x dep).text := by
    rintro x ⟨name, v⟩
    cases v <;> simp [text, dotEdge, dotName, ← String.toList_inj]
  have hlines : r.drawing.map (· ++ "\n") =
      ["digraph \"" ++ r.target.key ++ "\" \x7b\n", "  rankdir=LR;\n"] ++ r.dotLines.map text ++ ["\x7d\n"] := by
    simp [drawing, dotLines, List.map_flatMap, Function.comp_def, hheader, hnode, hedge]
  rw [← String.toList_inj, Text.toList_join, hlines, toList_dot]
  simp [header, dotName]

/-- What is read off no line for a dependency of some projects. -/
theorem filterMap_edges_eq_nil {β : Type} {read : DotLine → Option β} {names : List String}
    (h : ∀ x ∈ names, ∀ dep, read (edge x dep) = none) :
    (names.flatMap fun x => (r.graph.dependenciesOf x).map (edge x)).filterMap read = [] := by
  rw [List.filterMap_eq_nil_iff]
  intro l hl
  obtain ⟨x, hx, hl⟩ := List.mem_flatMap.mp hl
  obtain ⟨dep, -, rfl⟩ := List.mem_map.mp hl
  exact h x hx dep

/-- The lines of nodes name the order. -/
theorem filterMap_node?_dotLines (r : Resolution) : r.dotLines.filterMap node? = r.order := by
  have hnodes : (r.order.map node).filterMap node? = r.order := by
    rw [List.filterMap_map]
    exact List.filterMap_some
  rw [dotLines, List.filterMap_append, hnodes, filterMap_edges_eq_nil (fun _ _ _ => rfl), List.append_nil]

/-- The lines of edges from a node name its dependencies, with their visibility and in order. -/
theorem filterMap_dependency?_dotLines (hnodup : r.order.Nodup) {x : String} (hx : x ∈ r.order) :
    r.dotLines.filterMap (dependency? x) = r.graph.dependenciesOf x := by
  have hnodes : (r.order.map node).filterMap (dependency? x) = [] := by
    rw [List.filterMap_map]
    exact List.filterMap_eq_nil_iff.mpr (fun _ _ => rfl)
  have hself : ((r.graph.dependenciesOf x).map (edge x)).filterMap (dependency? x) = r.graph.dependenciesOf x := by
    rw [List.filterMap_map]
    exact (List.filterMap_congr (fun dep _ => if_pos rfl)).trans List.filterMap_some
  have hothers : ∀ names : List String, x ∉ names →
      (names.flatMap fun a => (r.graph.dependenciesOf a).map (edge a)).filterMap (dependency? x) = [] :=
    fun names hnot => filterMap_edges_eq_nil (fun a ha _ => if_neg (fun he : a = x => hnot (he ▸ ha)))
  obtain ⟨front, rest, hsplit⟩ := List.append_of_mem hx
  rw [hsplit, List.nodup_middle, List.nodup_cons, List.mem_append, not_or] at hnodup
  rw [dotLines, List.filterMap_append, hnodes, List.nil_append, hsplit, List.flatMap_append, List.flatMap_cons,
    List.filterMap_append, List.filterMap_append, hothers front hnodup.1.1, hothers rest hnodup.1.2, hself,
    List.nil_append, List.append_nil]

end Resolution

namespace Resolved

variable {w : Workspace} {t : Target} {roots : List String} {d : Discovery} {r : Resolution} {store : DescriptorStore}

/-- The names in the lines are those of the order. -/
theorem plain_dotLines (h : Resolved w t roots d r store) (hnames : ∀ x ∈ r.order, '"' ∉ x.toList) :
    ∀ l ∈ r.dotLines, l.Plain := by
  intro l hl
  rcases List.mem_append.mp hl with hl | hl
  · obtain ⟨x, hx, rfl⟩ := List.mem_map.mp hl
    exact fun n hn => List.mem_singleton.mp hn ▸ hnames x hx
  · obtain ⟨x, hx, hl⟩ := List.mem_flatMap.mp hl
    obtain ⟨dep, hdep, rfl⟩ := List.mem_map.mp hl
    have hedge : d.graph.Edge x dep.1 := h.graph ▸ TargetGraph.edge_of_mem_dependenciesOf hdep
    intro n hn
    rcases List.mem_pair.mp hn with rfl | rfl
    · exact hnames _ hx
    · exact hnames _ (h.isOrder.dependenciesFirst.mem hx hedge)

/-- A name that is not in the order has no dependencies in the graph. -/
theorem dependenciesOf_of_not_mem (h : Resolved w t roots d r store) {x : String} (hx : x ∉ r.order) :
    r.graph.dependenciesOf x = [] := by
  have hnode : r.graph.node? x = none := by
    rw [h.graph]
    exact Catalog.get?_eq_none_iff.mpr (fun hmem => hx ((h.isOrder.complete x).mpr hmem))
  unfold TargetGraph.dependenciesOf
  rw [hnode]

end Resolved

/-- A drawing tells what it was made from. For two resolutions without double quotes in the names of their projects, the
drawings are the same exactly if the targets have the same key, the orders are the same, and every project has the same
dependencies with the same visibility, in the same order. -/
theorem drawing_faithful {w w' : Workspace} {strict strict' : Bool} {roots roots' : List String} {t t' : Target}
    {before after before' after' : DescriptorStore} {r r' : Resolution}
    (h : w.resolve strict roots t before = (.ok r, after)) (h' : w'.resolve strict' roots' t' before' = (.ok r', after'))
    (hnames : ∀ x ∈ r.order ++ r'.order, '"' ∉ x.toList) :
    r.dot = r'.dot ↔ r.target.key = r'.target.key ∧ r.order = r'.order ∧
      ∀ x, r.graph.dependenciesOf x = r'.graph.dependenciesOf x := by
  obtain ⟨d, hr⟩ := Workspace.exists_resolved h
  obtain ⟨d', hr'⟩ := Workspace.exists_resolved h'
  rw [List.forall_mem_append] at hnames
  rw [← String.toList_inj, ← List.reverse_inj, Resolution.reverse_toList_dot, Resolution.reverse_toList_dot,
    List.append_cancel_left_eq]
  constructor
  · intro hmarks
    obtain ⟨hlines, hkey⟩ := DotLine.eq_of_flatMap_marks
      (fun l hl => hr.plain_dotLines hnames.1 l (List.mem_reverse.mp hl))
      (fun l hl => hr'.plain_dotLines hnames.2 l (List.mem_reverse.mp hl)) hmarks
    rw [List.reverse_inj] at hlines
    have horder : r.order = r'.order := by
      rw [← r.filterMap_node?_dotLines, hlines, r'.filterMap_node?_dotLines]
    refine ⟨hkey, horder, fun x => ?_⟩
    by_cases hx : x ∈ r.order
    · rw [← Resolution.filterMap_dependency?_dotLines hr.isOrder.nodup hx, hlines,
        Resolution.filterMap_dependency?_dotLines hr'.isOrder.nodup (horder ▸ hx)]
    · rw [hr.dependenciesOf_of_not_mem hx, hr'.dependenciesOf_of_not_mem (horder ▸ hx)]
  · rintro ⟨hkey, horder, hdependencies⟩
    rw [Resolution.dotLines, Resolution.dotLines, hkey, horder]
    simp only [hdependencies]

/-- Three projects, the last of which has a name that reads like the lines of the first two. -/
def quotedDeclarations : Declarations where
  projects := Catalog.ofList [
    { name := "A", sourceRoot := "A" },
    { name := "B", sourceRoot := "B" },
    { name := "A\";\n  \"B", sourceRoot := "C" }]

/-- The workspace of these projects. -/
def quotedWorkspace : Workspace where
  projects := quotedDeclarations.projects

/-- The sample with a double quote in a name finishes. -/
theorem finish_quotedDeclarations : quotedDeclarations.finish = .ok quotedWorkspace := by
  rfl

/-- The order of a schedule and the drawing of what it resolves. -/
def Schedule.drawn (s : Schedule) : List String × String :=
  (s.order, Resolution.dot ⟨s.discovery.graph.target, s.discovery.graph, s.order, s.waves.length, []⟩)

/-- Roots that have a schedule have a resolution with its order and its drawing. -/
theorem exists_drawn {w : Workspace} {roots : List String} {drawn : List String × String}
    (h : (w.schedule false roots {}).toOption.map Schedule.drawn = some drawn) :
    ∃ r after, w.resolve false roots {} {} = (.ok r, after) ∧ r.order = drawn.1 ∧ r.dot = drawn.2 := by
  obtain ⟨s, hs, rfl⟩ := Option.map_eq_some_iff.mp h
  rw [toOption_eq_some_iff] at hs
  have hempty : ∀ x, ({} : DescriptorStore).get? x {} = none := fun _ => rfl
  obtain ⟨r, after, hrun⟩ := Workspace.exists_run_of_schedule hempty hs
  have hresolve := Workspace.resolve_eq_ok_iff.mpr ⟨s, hs, hrun⟩
  obtain ⟨-, ds, -, rfl⟩ := Schedule.run_eq_ok_iff.mp hrun
  exact ⟨_, after, hresolve, rfl, rfl⟩

/-- The drawing of the project `A` alone. -/
theorem drawn_A : (quotedWorkspace.schedule false ["A"] {}).toOption.map Schedule.drawn =
    some (["A"], "digraph \"win64-vs2022-debug-lib-editor-fastbuild\" \x7b\n  rankdir=LR;\n  \"A\";\n\x7d\n") := by
  cbv

/-- The drawing of the projects `A` and `B`. -/
theorem drawn_A_B : (quotedWorkspace.schedule false ["A", "B"] {}).toOption.map Schedule.drawn =
    some (["A", "B"],
      "digraph \"win64-vs2022-debug-lib-editor-fastbuild\" \x7b\n  rankdir=LR;\n  \"A\";\n  \"B\";\n\x7d\n") := by
  cbv

/-- The drawing of the one project whose name has double quotes is that of the two projects. -/
theorem drawn_quoted :
    (quotedWorkspace.schedule false ["A\";\n  \"B"] {}).toOption.map Schedule.drawn =
      some (["A\";\n  \"B"],
        "digraph \"win64-vs2022-debug-lib-editor-fastbuild\" \x7b\n  rankdir=LR;\n  \"A\";\n  \"B\";\n\x7d\n") := by
  cbv

/-- Two drawings of projects with plain names differ, since the orders do. -/
theorem drawing_faithful_plain :
    ∃ r after r' after', quotedWorkspace.resolve false ["A"] {} {} = (.ok r, after) ∧
      quotedWorkspace.resolve false ["A", "B"] {} {} = (.ok r', after') ∧ (∀ x ∈ r.order ++ r'.order, '"' ∉ x.toList) ∧
      r.dot ≠ r'.dot := by
  obtain ⟨r, after, h, horder, -⟩ := exists_drawn drawn_A
  obtain ⟨r', after', h', horder', -⟩ := exists_drawn drawn_A_B
  have hnames : ∀ x ∈ r.order ++ r'.order, '"' ∉ x.toList := by
    rw [horder, horder']
    decide
  refine ⟨r, after, r', after', h, h', hnames, fun hdot => ?_⟩
  obtain ⟨-, hsame, -⟩ := (drawing_faithful h h' hnames).mp hdot
  rw [horder, horder'] at hsame
  exact absurd hsame (by decide)

/-- With a double quote in a name, one project can be drawn like two. -/
theorem drawing_ambiguous :
    ¬∀ (d d' : Declarations) (w w' : Workspace), d.finish = .ok w → d'.finish = .ok w' →
      (∀ n ∈ w.projects.names ++ w'.projects.names, Text.isBlankText n = false) →
      ∀ strict strict' roots roots' t t' before after before' after' r r',
        w.resolve strict roots t before = (.ok r, after) → w'.resolve strict' roots' t' before' = (.ok r', after') →
        r.dot = r'.dot → r.target.key = r'.target.key ∧ r.order = r'.order ∧
          ∀ x, r.graph.dependenciesOf x = r'.graph.dependenciesOf x := by
  intro hfaithful
  obtain ⟨r, after, h, horder, hdot⟩ := exists_drawn drawn_A_B
  obtain ⟨r', after', h', horder', hdot'⟩ := exists_drawn drawn_quoted
  have hnames : ∀ n ∈ quotedWorkspace.projects.names ++ quotedWorkspace.projects.names, Text.isBlankText n = false := by
    decide +kernel
  obtain ⟨-, hsame, -⟩ := hfaithful _ _ _ _ finish_quotedDeclarations finish_quotedDeclarations hnames
    _ _ _ _ _ _ _ _ _ _ r r' h h' (hdot.trans hdot'.symm)
  rw [horder, horder'] at hsame
  exact absurd hsame (by decide)

end BuildPlan
