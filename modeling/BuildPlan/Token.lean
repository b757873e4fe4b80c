import BuildPlan.Rule

/-!
# Tokens

Settings may hold tokens such as `[project.Name]` and variables such as `%Dir%`. They are replaced in one pass from left
to right: a name reaches from its opener to the next closer, a value is not scanned again, an unknown name stays as it
is written, and an opener without a closer ends the pass.
-/

namespace BuildPlan

/-- What the tokens and variables of one project on one target stand for. -/
structure TokenValues where
  tokenValue : String → Option String
  variableValue : String → Option String

namespace TokenValues

/-- The values for a project and a target. -/
def ofProject (context : PlanContext) (project : Project) (target : Target) : TokenValues where
  tokenValue := fun
    | "project.Name" => some project.name
    | "project.SourceRootPath" => some project.sourceRoot
    | "conf.Name" => some target.configurationName
    | "target.Optimization" => some target.optimization.title
    | "target.Platform" => some target.platform.name
    | "target.LaunchMode" => some target.launchMode.title
    | "solution.Root" => some context.solutionRoot
    | "intermediate.Root" => some context.intermediateRoot
    | "output.Root" => some context.outputRoot
    | _ => none
  variableValue := context.substitutions.lookup

/-- The characters before the first `close` and those after it, if there is one. -/
def cutAt (close : Char) : List Char → Option (List Char × List Char)
  | [] => none
  | c :: cs => if c = close then some ([], cs) else (cutAt close cs).map (fun p => (c :: p.1, p.2))

/-- What follows the closer is shorter than what the cut was made in. -/
theorem length_lt_of_cutAt {close : Char} {cs name rest : List Char} (h : cutAt close cs = some (name, rest)) :
    rest.length < cs.length := by
  induction cs generalizing name with
  | nil => simp [cutAt] at h
  | cons c cs ih =>
    unfold cutAt at h
    split at h
    · simp only [Option.some.injEq, Prod.mk.injEq] at h
      simp [← h.2]
    · obtain ⟨⟨n, r⟩, hp, he⟩ := Option.map_eq_some_iff.mp h
      simp only [Prod.mk.injEq] at he
      rw [he.2] at hp
      have := ih hp
      simp only [List.length_cons]
      omega

/-- The closer of an opener. -/
def closer? : Char → Option Char
  | '[' => some ']'
  | '%' => some '%'
  | _ => none

/-- The value of a name after an opener. -/
def value? (v : TokenValues) (opener : Char) (name : List Char) : Option (List Char) :=
  ((if opener = '[' then v.tokenValue else v.variableValue) (String.ofList name)).map String.toList

set_option linter.unusedVariables false in
/-- The characters with every known token and variable replaced. -/
def expandChars (v : TokenValues) : List Char → List Char
  | [] => []
  | c :: cs =>
    match closer? c with
    | none => c :: expandChars v cs
    | some close =>
      match h : cutAt close cs with
      | none => c :: cs
      | some (name, rest) => (v.value? c name).getD (c :: (name ++ [close])) ++ expandChars v rest
termination_by cs => cs.length
decreasing_by
  · simp
  · have := length_lt_of_cutAt h
    simp only [List.length_cons]
    omega

/-- The text with every known token and variable replaced. -/
def expand (v : TokenValues) (s : String) : String := String.ofList (v.expandChars s.toList)

end TokenValues

end BuildPlan
