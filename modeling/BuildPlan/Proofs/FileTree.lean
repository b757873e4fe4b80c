import BuildPlan.FileTree
import BuildPlan.Proofs.Except
import BuildPlan.Proofs.Text.Path

/-!
# Following paths in a tree

Following some steps and then others is following them all (`follow_append`). So a path that is joined to a base leads on
from where the base leads (`lead_join`), and an include is followed from the directory of the file that has it, whatever
path has led to the file (`lead_parent`).
-/

namespace BuildPlan.FileTree

open Text.Path

variable {root t : FileTree} {p q place start wd : Place} {step : String} {steps : List String} {path base : String}

/-! ### Places -/

/-- At the place without names is the tree itself. -/
theorem at?_nil (t : FileTree) : t.at? [] = some t := by
  unfold at?
  rfl

/-- What is at a place is found from any place above it. -/
theorem at?_append (t : FileTree) (p q : Place) : t.at? (p ++ q) = (t.at? p).bind (fun u => u.at? q) := by
  induction p generalizing t with
  | nil => rw [List.nil_append, at?_nil, Option.bind_some]
  | cons name p ih =>
    cases t with
    | file c => rw [List.cons_append, at?, at?, Option.bind_none]
    | directory entries =>
      rw [List.cons_append, at?, at?]
      cases entries.lookup name with
      | none => rfl
      | some u => exact ih u

/-- Where something is, there is a directory above it. -/
theorem exists_directory_of_at?_concat {name : String} (h : t.at? (p ++ [name]) = some root) :
    ∃ entries, t.at? p = some (directory entries) := by
  rw [at?_append] at h
  obtain ⟨u, hu, h⟩ := Option.bind_eq_some_iff.mp h
  cases u with
  | file c => cases h
  | directory entries => exact ⟨entries, hu⟩

/-- Above a directory is a directory, the root being above itself. -/
theorem exists_directory_dropLast {entries : List (String × FileTree)} (h : t.at? p = some (directory entries)) :
    ∃ entries', t.at? p.dropLast = some (directory entries') := by
  rcases List.eq_nil_or_concat' p with rfl | ⟨q, name, rfl⟩
  · exact ⟨entries, h⟩
  · rw [List.dropLast_concat]
    exact exists_directory_of_at?_concat h

/-! ### Steps -/

/-- A step that stays where it is. -/
abbrev IsIdleStep (step : String) : Prop := step = "" ∨ step = "."

/-- Steps in two parts: the second ones lead on from where the first ones lead. -/
theorem follow_append (root : FileTree) (start : Place) (steps steps' : List String) :
    root.follow start (steps ++ steps') = root.follow start steps >>= fun p => root.follow p steps' := by
  induction steps generalizing start with
  | nil => rfl
  | cons step steps ih =>
    rw [List.cons_append, follow, follow]
    cases root.at? start with
    | none => rfl
    | some t =>
      cases t with
      | file c => rfl
      | directory entries =>
        dsimp only
        split_ifs
        · exact ih start
        · exact ih start.dropLast
        · rfl
        · exact ih (start ++ [step])
        · rfl

/-- Steps in two parts arrive if the first ones do and the second ones do from there. -/
theorem follow_append_eq_ok_iff {steps' : List String} :
    root.follow start (steps ++ steps') = .ok place ↔
      ∃ q, root.follow start steps = .ok q ∧ root.follow q steps' = .ok place := by
  rw [follow_append, bind_eq_ok_iff]

/-- Every step starts from a directory. -/
theorem exists_directory_of_follow_cons (h : root.follow start (step :: steps) = .ok place) :
    ∃ entries, root.at? start = some (directory entries) := by
  rw [follow] at h
  cases hroot : root.at? start with
  | none => rw [hroot] at h; cases h
  | some t =>
    cases t with
    | file c => rw [hroot] at h; cases h
    | directory entries => exact ⟨entries, rfl⟩

/-- An idle step from a directory changes nothing. -/
theorem follow_idle_cons {entries : List (String × FileTree)} (hdir : root.at? start = some (directory entries))
    (hidle : IsIdleStep step) : root.follow start (step :: steps) = root.follow start steps := by
  rw [follow, hdir]
  exact if_pos hidle

/-- An idle step before another one changes nothing, since both need the same directory. -/
theorem follow_idle_cons_cons (hidle : IsIdleStep step) (next : String) :
    root.follow start (step :: next :: steps) = root.follow start (next :: steps) := by
  cases hroot : root.at? start with
  | none => rw [follow, follow, hroot]
  | some t =>
    cases t with
    | file c => rw [follow, follow, hroot]
    | directory entries => exact follow_idle_cons hroot hidle

/-- An idle step ends where it starts. -/
theorem eq_of_follow_idle (hidle : IsIdleStep step) (h : root.follow start [step] = .ok place) :
    place = start ∧ ∃ entries, root.at? start = some (directory entries) := by
  obtain ⟨entries, hdir⟩ := exists_directory_of_follow_cons h
  rw [follow_idle_cons hdir hidle] at h
  cases h
  exact ⟨rfl, entries, hdir⟩

/-- What an idle step at the end leads to, the other steps lead to. -/
theorem follow_of_follow_concat_idle (hidle : IsIdleStep step) (h : root.follow start (steps ++ [step]) = .ok place) :
    root.follow start steps = .ok place := by
  obtain ⟨q, hq, hlast⟩ := follow_append_eq_ok_iff.mp h
  rw [(eq_of_follow_idle hidle hlast).1]
  exact hq

/-- The last step to a file is its name, as an idle step and a step to the parent end at a directory. -/
theorem follow_concat_file {content : String} (h : root.follow start (steps ++ [step]) = .ok place)
    (hfile : root.at? place = some (file content)) :
    root.follow start steps = .ok place.dropLast ∧ ¬IsIdleStep step ∧
      ∃ entries, root.at? place.dropLast = some (directory entries) := by
  obtain ⟨q, hq, hlast⟩ := follow_append_eq_ok_iff.mp h
  obtain ⟨entries, hdir⟩ := exists_directory_of_follow_cons hlast
  by_cases hidle : IsIdleStep step
  · obtain ⟨rfl, -⟩ := eq_of_follow_idle hidle hlast
    rw [hfile] at hdir
    cases hdir
  rw [follow, hdir] at hlast
  dsimp only at hlast
  rw [if_neg hidle] at hlast
  split_ifs at hlast
  · cases hlast
    obtain ⟨entries', hparent⟩ := exists_directory_dropLast hdir
    rw [hfile] at hparent
    cases hparent
  · cases hlast
    rw [List.dropLast_concat]
    exact ⟨hq, hidle, entries, hdir⟩

/-! ### Names -/

/-- A text that can name an entry of a directory. -/
def IsName (name : String) : Prop := name ≠ "" ∧ name ≠ "." ∧ name ≠ ".." ∧ '/' ∉ name.toList

instance (name : String) : Decidable (IsName name) := inferInstanceAs (Decidable (_ ∧ _ ∧ _ ∧ _))

/-- Names lead down. -/
theorem eq_of_follow_names (hnames : ∀ n ∈ steps, IsName n) (h : root.follow start steps = .ok place) :
    place = start ++ steps := by
  induction steps generalizing start with
  | nil =>
    cases h
    rw [List.append_nil]
  | cons step steps ih =>
    obtain ⟨entries, hdir⟩ := exists_directory_of_follow_cons h
    obtain ⟨hempty, hdot, hdots, -⟩ := hnames step List.mem_cons_self
    rw [follow, hdir] at h
    dsimp only at h
    rw [if_neg (not_or.mpr ⟨hempty, hdot⟩), if_neg hdots] at h
    split_ifs at h
    rw [ih (fun n hn => hnames n (List.mem_cons_of_mem _ hn)) h, List.append_assoc, List.singleton_append]

/-! ### Paths -/

/-- Where the steps of a path start. -/
def startOf (wd : Place) (path : String) : Place := if isAbsolute path then [] else wd

/-- Where a path leads, however long it is. -/
def lead (root : FileTree) (wd : Place) (path : String) : Except PathFault Place :=
  root.follow (startOf wd path) (segments path)

/-- A path that is located is not empty and leads to the place. -/
theorem locate_eq_ok (h : root.locate wd path = .ok place) : path ≠ "" ∧ root.lead wd path = .ok place := by
  unfold locate at h
  split at h
  · cases h
  · rename_i hempty
    split at h
    · cases h
    · exact ⟨hempty, h⟩

theorem toList_ne_nil (h : path ≠ "") : path.toList ≠ [] := fun hnil => h (String.toList_eq_nil_iff.mp hnil)

/-- Every path has a segment, be it an empty one. -/
theorem segments_ne_nil (path : String) : segments path ≠ [] := by
  unfold segments
  rw [ne_eq, List.map_eq_nil_iff]
  exact splitSlash_ne_nil _

/-- A name is its only segment. -/
theorem segments_of_isName {name : String} (h : IsName name) : segments name = [name] := by
  rw [segments, splitSlash_of_not_mem h.2.2.2, List.map_singleton, String.ofList_toList]

/-- A name is no absolute path. -/
theorem isAbsolute_of_isName {name : String} (h : IsName name) : isAbsolute name = false := by
  rw [Bool.eq_false_iff]
  intro habsolute
  obtain ⟨rest, hrest⟩ := isAbsolute_iff.mp habsolute
  exact h.2.2.2 (hrest ▸ List.mem_cons_self)

/-- A relative path that is joined to a base has the separators of the base and one more, if the base has none at its end. -/
theorem join_eq (hbase : base ≠ "") (hpath : isAbsolute path = false) :
    (∃ cs, base.toList = cs ++ ['/'] ∧ join base path = base ++ path) ∨
      (join base path = base ++ "/" ++ path) := by
  unfold join
  rw [hpath, if_neg Bool.false_ne_true]
  have hne : base.isEmpty = false := by
    rw [Bool.eq_false_iff, ne_eq, String.isEmpty_iff]
    exact hbase
  rw [hne, Bool.false_or]
  by_cases hlast : base.toList.getLast? = some '/'
  · rw [hlast]
    obtain ⟨cs, hcs⟩ := List.getLast?_eq_some_iff.mp hlast
    exact Or.inl ⟨cs, hcs, rfl⟩
  · rw [if_neg (fun h => hlast (beq_iff_eq.mp h))]
    exact Or.inr rfl

/-- A path keeps being absolute or relative with whatever comes behind it. -/
theorem isAbsolute_append (hbase : base ≠ "") (path : String) : isAbsolute (base ++ path) = isAbsolute base := by
  unfold isAbsolute
  rw [String.toList_append, List.head?_append_of_ne_nil _ (toList_ne_nil hbase)]

/-- A relative path that is joined to a base leads on from where the base leads, also if the base ends with an idle step. -/
theorem lead_join (hbase : base ≠ "") (hpath : isAbsolute path = false) :
    root.lead wd (join base path) = root.lead wd base >>= fun p => root.follow p (segments path) := by
  have hstart : ∀ more, startOf wd (base ++ more) = startOf wd base := fun more => by
    rw [startOf, isAbsolute_append hbase, startOf]
  rcases join_eq hbase hpath with ⟨cs, hcs, hjoin⟩ | hjoin
  · have hsegments : segments (base ++ path) = (splitSlash cs).map String.ofList ++ segments path := by
      rw [segments, String.toList_append, hcs, List.append_assoc, List.singleton_append, splitSlash_append_slash,
        List.map_append, segments]
    have hbasesegments : segments base = (splitSlash cs).map String.ofList ++ [""] := by
      rw [segments, hcs, splitSlash_append_slash, List.map_append]
      rfl
    obtain ⟨first, rest, hfirst⟩ := List.exists_cons_of_ne_nil (segments_ne_nil path)
    rw [hjoin, lead, lead, hstart, hsegments, hbasesegments, ← follow_append, List.append_assoc, List.singleton_append,
      hfirst, follow_append, follow_append]
    exact congrArg _ (funext fun p => (follow_idle_cons_cons (Or.inl rfl) first).symm)
  · have hsegments : segments (base ++ "/" ++ path) = segments base ++ segments path := by
      rw [segments, String.toList_append, String.toList_append, List.append_assoc]
      exact (congrArg _ (splitSlash_append_slash _ _)).trans List.map_append
    rw [hjoin, lead, lead, String.append_assoc, hstart, ← String.append_assoc, hsegments, follow_append]

/-! ### The directory of a file -/

/-- The segments that are dropped at the end of a path are the idle steps. -/
theorem isIdle_iff {segment : List Char} : isIdle segment = true ↔ IsIdleStep (String.ofList segment) := by
  have hempty : "" = String.ofList [] := rfl
  have hdot : "." = String.ofList ['.'] := rfl
  rw [isIdle, Bool.or_eq_true, beq_iff_eq, beq_iff_eq, IsIdleStep, hempty, hdot, String.ofList_inj, String.ofList_inj]

/-- Without idle steps at their end, steps lead to the same place. -/
theorem follow_dropIdleEnd {rev : List (List Char)} (h : root.follow start (rev.reverse.map String.ofList) = .ok place) :
    root.follow start ((dropIdleEnd rev).reverse.map String.ofList) = .ok place := by
  fun_induction dropIdleEnd rev with
  | case1 => exact h
  | case2 s hs =>
    have hidle : isIdle s = true := by rw [isIdle, hs, Bool.true_or]
    have hconcat : root.follow start ([] ++ [String.ofList s]) = .ok place := h
    exact follow_of_follow_concat_idle (isIdle_iff.mp hidle) hconcat
  | case3 s hs => exact h
  | case4 s rest hne hidle ih =>
    rw [List.reverse_cons, List.map_append] at h
    exact ih (follow_of_follow_concat_idle (isIdle_iff.mp hidle) h)
  | case5 s rest hne hidle => exact h

/-- Steps that arrive somewhere arrive there without the idle ones at their end. -/
theorem follow_dropWhile_isIdle {rev : List (List Char)}
    (h : root.follow start (rev.reverse.map String.ofList) = .ok place) :
    root.follow start ((rev.dropWhile isIdle).reverse.map String.ofList) = .ok place := by
  induction rev with
  | nil => exact h
  | cons s rev ih =>
    rw [List.dropWhile_cons]
    split
    · rename_i hidle
      rw [List.reverse_cons, List.map_append] at h
      exact ih (follow_of_follow_concat_idle (isIdle_iff.mp hidle) h)
    · exact h

/-- The last segment of a path that leads to a file, and what the segments before it lead to. -/
theorem exists_concat_of_follow_file {cs : List Char} {content : String}
    (h : root.follow start ((splitSlash cs).map String.ofList) = .ok place) (hfile : root.at? place = some (file content)) :
    ∃ init last, splitSlash cs = init ++ [last] ∧ isIdle last = false ∧
      root.follow start (init.map String.ofList) = .ok place.dropLast ∧
      ∃ entries, root.at? place.dropLast = some (directory entries) := by
  obtain ⟨init, last, hconcat⟩ := (List.eq_nil_or_concat' (splitSlash cs)).resolve_left (splitSlash_ne_nil cs)
  rw [hconcat, List.map_append] at h
  obtain ⟨hinit, hlast, hdir⟩ := follow_concat_file h hfile
  exact ⟨init, last, hconcat, Bool.eq_false_iff.mpr (fun hidle => hlast (isIdle_iff.mp hidle)), hinit, hdir⟩

/-- What is above an absolute path to a file. -/
theorem exists_parent_of_isAbsolute {content : String} (habsolute : isAbsolute path = true)
    (h : root.lead wd path = .ok place) (hfile : root.at? place = some (file content)) :
    ∃ base, parent? path = some base ∧ base ≠ "" ∧ root.lead wd base = .ok place.dropLast := by
  obtain ⟨cs, hcs⟩ := isAbsolute_iff.mp habsolute
  rw [lead, startOf, if_pos habsolute, segments, hcs, splitSlash_slash, List.map_cons] at h
  obtain ⟨top, htop⟩ := exists_directory_of_follow_cons h
  rw [follow_idle_cons htop (Or.inl rfl)] at h
  obtain ⟨init, last, hconcat, hidle, hinit, dir, hdir⟩ := exists_concat_of_follow_file h hfile
  let kept := (init.reverse.dropWhile isIdle).reverse
  have hkept : root.follow [] (kept.map String.ofList) = .ok place.dropLast :=
    follow_dropWhile_isIdle (by rw [List.reverse_reverse]; exact hinit)
  refine ⟨String.ofList ('/' :: joinSlash kept), ?_, by simp, ?_⟩
  · have hsteps : stepsRev path = last :: init.reverse := by
      rw [stepsRev_of_absolute hcs, hconcat, List.reverse_append, List.reverse_singleton, List.singleton_append,
        List.dropWhile_cons, hidle]
      rfl
    rw [parent?, hsteps]
    exact if_pos habsolute
  · have habove : isAbsolute (String.ofList ('/' :: joinSlash kept)) = true := isAbsolute_iff.mpr ⟨_, String.toList_ofList⟩
    rw [lead, startOf, if_pos habove, segments, String.toList_ofList, splitSlash_slash, List.map_cons,
      follow_idle_cons htop (Or.inl rfl)]
    by_cases hnil : kept = []
    · rw [hnil] at hkept ⊢
      rw [← Except.ok.inj hkept]
      exact follow_idle_cons htop (Or.inl rfl)
    · rw [splitSlash_joinSlash hnil (fun s hs => ?_)]
      · exact hkept
      · have hs' : s ∈ splitSlash cs := hconcat ▸ List.mem_append_left _ ((reverse_dropWhile_isIdle_isPrefixOf init).subset hs)
        exact slash_not_mem_of_mem_splitSlash hs'

/-- What is above a relative path to a file. If there is no step above it, it is in the working directory. -/
theorem exists_parent_of_relative {content : String} (hpath : path ≠ "") (hrelative : isAbsolute path = false)
    (h : root.lead wd path = .ok place) (hfile : root.at? place = some (file content)) :
    ∃ base, parent? path = some base ∧
      (base = "" ∧ wd = place.dropLast ∨ base ≠ "" ∧ root.lead wd base = .ok place.dropLast) := by
  rw [lead, startOf, hrelative, if_neg Bool.false_ne_true, segments] at h
  obtain ⟨init, last, hconcat, hidle, hinit, dir, hdir⟩ := exists_concat_of_follow_file h hfile
  let kept := (dropIdleEnd init.reverse).reverse
  have hkept : root.follow wd (kept.map String.ofList) = .ok place.dropLast :=
    follow_dropIdleEnd (by rw [List.reverse_reverse]; exact hinit)
  refine ⟨String.ofList (joinSlash kept), ?_, ?_⟩
  · have hsteps : stepsRev path = last :: init.reverse := by
      rw [stepsRev_of_relative hrelative, hconcat, List.reverse_append, List.reverse_singleton, List.singleton_append,
        dropIdleEnd_cons hidle]
    rw [parent?, hsteps]
    exact if_neg (hrelative ▸ Bool.false_ne_true)
  by_cases hnil : kept = []
  · rw [hnil] at hkept ⊢
    exact Or.inl ⟨rfl, Except.ok.inj hkept⟩
  · have hkeptStart : kept <+: splitSlash path.toList :=
      (reverse_dropIdleEnd_isPrefixOf init).trans (hconcat ▸ List.prefix_append _ _)
    have hsplit : splitSlash (joinSlash kept) = kept :=
      splitSlash_joinSlash hnil (fun s hs => slash_not_mem_of_mem_splitSlash (hkeptStart.subset hs))
    have hfirst : (splitSlash (joinSlash kept)).head? ≠ some [] := by
      obtain ⟨more, hmore⟩ := hkeptStart
      rw [hsplit]
      intro hhead
      have hpathHead : (splitSlash path.toList).head? = some [] := by
        rw [← hmore, List.head?_append_of_ne_nil _ hnil, hhead]
      rcases head?_splitSlash_eq_nil_iff.mp hpathHead with hempty | ⟨rest, hrest⟩
      · exact toList_ne_nil hpath hempty
      · exact isAbsolute_eq_false_iff.mp hrelative rest hrest
    rw [ne_eq, head?_splitSlash_eq_nil_iff, not_or] at hfirst
    have habove : isAbsolute (String.ofList (joinSlash kept)) = false :=
      isAbsolute_eq_false_iff.mpr (fun rest hrest => hfirst.2 ⟨rest, String.toList_ofList.symm.trans hrest⟩)
    refine Or.inr ⟨fun hempty => hfirst.1 ?_, ?_⟩
    · rw [← String.toList_ofList (l := joinSlash kept), hempty]
      rfl
    · rw [lead, startOf, habove, if_neg Bool.false_ne_true, segments, String.toList_ofList, hsplit]
      exact hkept

/-- Without a base, a relative path starts from the working directory. -/
theorem lead_of_relative (hpath : isAbsolute path = false) : root.lead wd path = root.follow wd (segments path) := by
  rw [lead, startOf, hpath]
  rfl

/-- An absolute path starts from the root, whatever it is joined to. -/
theorem lead_join_of_isAbsolute (hpath : isAbsolute path = true) :
    root.lead wd (join base path) = root.follow [] (segments path) := by
  rw [join, if_pos hpath, lead, startOf, if_pos hpath]

/-- A path that is joined to what is above the path to a file leads where it leads from the directory of the file. -/
theorem lead_include {content : String} (hpath : path ≠ "") (h : root.lead wd path = .ok place)
    (hfile : root.at? place = some (file content)) (more : String) :
    root.lead wd (join ((parent? path).getD ".") more) = root.lead place.dropLast more := by
  have hparent : ∃ base, parent? path = some base ∧
      (base = "" ∧ wd = place.dropLast ∨ base ≠ "" ∧ root.lead wd base = .ok place.dropLast) := by
    cases habsolute : isAbsolute path with
    | false => exact exists_parent_of_relative hpath habsolute h hfile
    | true =>
      obtain ⟨base, hbase, hne, hlead⟩ := exists_parent_of_isAbsolute habsolute h hfile
      exact ⟨base, hbase, Or.inr ⟨hne, hlead⟩⟩
  obtain ⟨base, hbase, hcases⟩ := hparent
  rw [hbase, Option.getD_some]
  cases hmore : isAbsolute more with
  | true => rw [lead_join_of_isAbsolute hmore, lead, startOf, if_pos hmore]
  | false =>
    rcases hcases with ⟨rfl, rfl⟩ | ⟨hne, hlead⟩
    · rw [join, hmore]
      exact congrArg _ (String.empty_append)
    · rw [lead_join hne hmore, hlead, lead_of_relative hmore]
      rfl

/-! ### Below a directory -/

/-- Names that are joined to a path lead on from where the path leads. -/
theorem lead_foldl_join (hpath : path ≠ "") (hnames : ∀ n ∈ steps, IsName n) :
    root.lead wd (steps.foldl join path) = root.lead wd path >>= fun p => root.follow p steps := by
  induction steps generalizing path with
  | nil =>
    rw [List.foldl_nil]
    cases root.lead wd path <;> rfl
  | cons n steps ih =>
    have hn := hnames n List.mem_cons_self
    have hrelative := isAbsolute_of_isName hn
    have hne : join path n ≠ "" := by
      rcases join_eq hpath hrelative with ⟨-, -, hjoin⟩ | hjoin
      · rw [hjoin, ne_eq, String.append_eq_empty_iff]
        exact fun h => hpath h.1
      · rw [hjoin, ne_eq, String.append_eq_empty_iff]
        exact fun h => hn.1 h.2
    rw [List.foldl_cons, ih hne (fun m hm => hnames m (List.mem_cons_of_mem _ hm)), lead_join hpath hrelative,
      segments_of_isName hn]
    cases root.lead wd path with
    | error e => rfl
    | ok p => exact (follow_append root p [n] steps).symm

/-- A path below a directory leads to the place below it. -/
theorem eq_of_lead_foldl_join (hpath : path ≠ "") (hnames : ∀ n ∈ steps, IsName n) (h : root.lead wd path = .ok p)
    (hbelow : root.lead wd (steps.foldl join path) = .ok place) : place = p ++ steps := by
  rw [lead_foldl_join hpath hnames, h] at hbelow
  exact eq_of_follow_names hnames hbelow

end BuildPlan.FileTree
