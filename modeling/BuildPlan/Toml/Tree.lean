import BuildPlan.Toml

/-!
# Trees of tables

The tables of a TOML text while it is read. A table may be written in several ways, and how it came about decides what may
still be added to it:

* a table with a header of its own is written once, but other headers may add tables to it;
* a table that only headers of tables in it imply may still get its header;
* a table that dotted keys have made may get more dotted keys, but no header.

A table or an array that is written as a value is closed: nothing is added to it.
-/

namespace BuildPlan.Toml

/-- How a table came about. -/
inductive TableOrigin
  | header
  | implied
  | dotted
  deriving DecidableEq

/-- An entry of a table that is being read. -/
inductive Node
  /-- A value, to which nothing is added. -/
  | value (v : Toml)
  | table (origin : TableOrigin) (entries : List (String × Node))
  /-- The tables of an array of tables, the latest first. -/
  | tables (latestFirst : List (List (String × Node)))
  deriving Inhabited

/-- The entries of a table that is being read. -/
abbrev Entries := List (String × Node)

namespace Entries

/-- The entries with another node for a key that is there. -/
def replace (es : Entries) (key : String) (node : Node) : Entries :=
  es.map (fun e => if e.1 == key then (key, node) else e)

/-- The entries without a key. -/
def remove (es : Entries) (key : String) : Entries := es.filter (fun e => e.1 != key)

/-- The entries with one more; its key must be new. -/
def add (key : String) (node : Node) (es : Entries) : Option Entries :=
  match es.lookup key with
  | none => some (es ++ [(key, node)])
  | some _ => none

/-- Changes the table at a path of header keys. Tables that are missing on the way are implied, and an array of tables
stands for its latest table. -/
def atHeader (change : Entries → Option Entries) : List String → Entries → Option Entries
  | [], es => change es
  | key :: path, es =>
    match es.lookup key with
    | none => (atHeader change path []).map (fun sub => es ++ [(key, .table .implied sub)])
    | some (.table origin sub) => (atHeader change path sub).map (fun sub => es.replace key (.table origin sub))
    | some (.tables (latest :: earlier)) =>
      (atHeader change path latest).map (fun latest => es.replace key (.tables (latest :: earlier)))
    | some _ => none

/-- Changes the table at a path of dotted keys. The table itself must be one that dotted keys have made, and no table with
a header of its own lies on the way. -/
def atDotted (change : Entries → Option Entries) : List String → Entries → Option Entries
  | [], es => change es
  | key :: path, es =>
    match es.lookup key with
    | none => (atDotted change path []).map (fun sub => es ++ [(key, .table .dotted sub)])
    | some (.table .dotted sub) => (atDotted change path sub).map (fun sub => es.replace key (.table .dotted sub))
    | some (.table .implied sub) =>
      if path.isEmpty then none
      else (atDotted change path sub).map (fun sub => es.replace key (.table .implied sub))
    | some (.tables (latest :: earlier)) =>
      if path.isEmpty then none
      else (atDotted change path latest).map (fun latest => es.replace key (.tables (latest :: earlier)))
    | some _ => none

/-- The entries with a value under a dotted key, which is not empty. -/
def insertValue (path : List String) (v : Toml) (es : Entries) : Option Entries :=
  match path.getLast? with
  | none => none
  | some key => atDotted (add key (.value v)) path.dropLast es

/-- The entries with a table that has the header `key`. A table that was implied keeps its entries and moves to the
end. -/
def openTable (key : String) (es : Entries) : Option Entries :=
  match es.lookup key with
  | none => some (es ++ [(key, .table .header [])])
  | some (.table .implied sub) => some (es.remove key ++ [(key, .table .header sub)])
  | some _ => none

/-- The entries with one more table in the array of tables `key`. -/
def openItem (key : String) (es : Entries) : Option Entries :=
  match es.lookup key with
  | none => some (es ++ [(key, .tables [[]])])
  | some (.tables latestFirst) => some (es.replace key (.tables ([] :: latestFirst)))
  | some _ => none

end Entries

/-! ### Finished trees -/

mutual

/-- The value of a node. -/
def ofNode : Node → Toml
  | .value v => v
  | .table _ entries => table (ofEntries entries)
  | .tables latestFirst => arr (ofTables latestFirst [])

/-- The values of the entries of a table. -/
def ofEntries : List (String × Node) → List (String × Toml)
  | [] => []
  | (key, node) :: rest => (key, ofNode node) :: ofEntries rest

/-- The values of some tables, the latest first, in front of those of later ones. -/
def ofTables : List (List (String × Node)) → List Toml → List Toml
  | [], later => later
  | es :: earlier, later => ofTables earlier (table (ofEntries es) :: later)

end

/-- The table that is written as a value with these keys, unless two of them are in conflict. -/
def inlineTable? (members : List (List String × Toml)) : Option Toml :=
  (members.foldlM (fun (es : Entries) m => es.insertValue m.1 m.2) []).map (fun es => table (ofEntries es))

end BuildPlan.Toml
