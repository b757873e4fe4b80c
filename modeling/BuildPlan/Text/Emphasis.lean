import BuildPlan.Catalog

/-!
# Emphasis

Single words of what a program prints may be set in bold and in a color, by the control sequences of terminals. Variables
of the environment can ask for this or forbid it; if they do neither, it is done on a terminal only.
-/

namespace BuildPlan.Text

/-- The color of a word that stands out. -/
inductive Tint
  | red
  | green
  deriving DecidableEq

/-- The number of a color in a control sequence. -/
def Tint.code : Tint → String
  | red => "31"
  | green => "32"

/-- A word in bold and in a color, or as it is. -/
def emphasized (colored : Bool) (tint : Tint) (word : String) : String :=
  if colored then "\x1b[1;" ++ tint.code ++ "m" ++ word ++ "\x1b[0m" else word

/-- Whether words stand out. Asking for it with `CLICOLOR_FORCE` wins over forbidding it with `NO_COLOR`; the value `0` is
no asking. -/
def isColored (environment : Keyed String) (onTerminal : Bool) : Bool :=
  let allows (name : String) (default : Bool) := (environment.lookup name).elim default (· != "0")
  if allows "CLICOLOR_FORCE" false then true
  else if (environment.lookup "NO_COLOR").isSome then false
  else allows "CLICOLOR" true && onTerminal

end BuildPlan.Text
