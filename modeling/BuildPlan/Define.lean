import BuildPlan.Catalog
import BuildPlan.Text.Blank

/-!
# Defines

A define is written `NAME=VALUE`, or `NAME` for a bare flag. Only the first `=` counts, and blanks around the name and the
value do not.
-/

namespace BuildPlan

/-- Preprocessor symbols with their values; a bare flag has none. -/
abbrev Defines := Keyed (Option String)

/-- The characters before the first `=`, and those after it if there is one. -/
def splitEquals : List Char → List Char × Option (List Char)
  | [] => ([], none)
  | c :: cs => if c = '=' then ([], some cs) else ((c :: (splitEquals cs).1), (splitEquals cs).2)

/-- The symbol and the value of `NAME=VALUE`, or of a bare `NAME`, without blanks around them. -/
def parseDefine (define : String) : String × Option String :=
  let parts := splitEquals define.toList
  (String.ofList (Text.trimChars parts.1), parts.2.map (fun v => String.ofList (Text.trimChars v)))

end BuildPlan
