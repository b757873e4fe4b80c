import BuildPlan.Toml.Statement

/-!
# TOML documents

The value of a TOML text is a table. Its statements are taken in order: a header opens a table at its key, and the keys
after it are put into this table.
-/

namespace BuildPlan.Toml

/-- A document that is being read. -/
structure Document where
  root : Entries := []
  /-- The key of the last header; empty before the first one. -/
  current : List String := []

namespace Document

/-- Opens a table under the last part of a header's key, in the table at the parts before it. -/
def openAt (d : Document) (key : List String) (change : String → Entries → Option Entries) : Option Document :=
  match key.getLast? with
  | none => none
  | some last => (Entries.atHeader (change last) key.dropLast d.root).map (fun root => ⟨root, key⟩)

/-- The document after one more statement, unless the statement is in conflict with earlier ones. -/
def apply (d : Document) : Statement → Option Document
  | .entry key v => (Entries.atHeader (Entries.insertValue key v) d.current d.root).map (fun root => { d with root })
  | .header key => d.openAt key Entries.openTable
  | .itemHeader key => d.openAt key Entries.openItem

/-- The table of a finished document. -/
def value (d : Document) : Toml := table (ofEntries d.root)

end Document

/-- The table of a text, or nothing if the text is not TOML or holds a value that no declaration uses. -/
def ofText? (s : String) : Option Toml := do
  let lexemes ← Lexeme.ofText? s
  let statements ← Statement.ofLexemes? lexemes
  let document ← statements.foldlM Document.apply {}
  return document.value

end BuildPlan.Toml
