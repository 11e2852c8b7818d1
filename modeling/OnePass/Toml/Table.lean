import OnePass.Number.Double

/-!
# Values and tables of TOML

A document is a tree of tables. How a table came to be decides whether later lines may add to it: a header opens
a table once, dotted keys extend only what dotted keys began, and an inline table is closed for good.

* `Item` — a value, a table or an array of tables;
* `Table.update` — change the table that a header names;
* `Table.insertDotted` — add a value under a dotted key;
* `Table.openTable`, `Table.openElement` — the effect of the two kinds of headers.
-/

namespace OnePass.Toml

/-- How a table came to be. -/
inductive Origin where
  | header
  | implied
  | dotted
  | inline
deriving DecidableEq, Repr

/-- What a key stands for. The names in a table are all different. -/
inductive Item where
  | integer (value : Int)
  | float (value : Double)
  | boolean (value : Bool)
  | text (value : String)
  | moment (written : String)
  | array (items : List Item)
  | table (origin : Origin) (entries : List (String × Item))
  | tables (elements : List (List (String × Item)))
deriving Repr

abbrev Table := List (String × Item)

namespace Table

def replace (name : String) (item : Item) (table : Table) : Table :=
  table.map fun entry => if entry.1 == name then (name, item) else entry

def add (name : String) (item : Item) (table : Table) : Table := table ++ [(name, item)]

def updateLast (change : Table → Option Table) : List Table → Option (List Table)
  | [] => none
  | [last] => (change last).map ([·])
  | table :: rest => (updateLast change rest).map (table :: ·)

/-- Changes the table that a header names. Tables on the way that are not there come to be; of several tables
under one name the last is meant. -/
def update (change : Table → Option Table) : List String → Table → Option Table
  | [], table => change table
  | name :: path, table =>
      match table.lookup name with
      | none => do return table.add name (.table .implied (← update change path []))
      | some (.table .inline _) => none
      | some (.table origin entries) => do
          return table.replace name (.table origin (← update change path entries))
      | some (.tables elements) => do
          return table.replace name (.tables (← updateLast (update change path) elements))
      | some _ => none

def insert (name : String) (item : Item) (table : Table) : Option Table :=
  match table.lookup name with
  | none => some (table.add name item)
  | some _ => none

def insertDotted (name : String) (item : Item) : List String → Table → Option Table
  | [], table => table.insert name item
  | part :: path, table =>
      match table.lookup part with
      | none => do return table.add part (.table .dotted (← insertDotted name item path []))
      | some (.table .dotted entries) => do
          return table.replace part (.table .dotted (← insertDotted name item path entries))
      | some (.table .implied entries) => do
          guard !path.isEmpty
          return table.replace part (.table .implied (← insertDotted name item path entries))
      | some (.tables elements) => do
          guard !path.isEmpty
          return table.replace part (.tables (← updateLast (insertDotted name item path) elements))
      | some _ => none

def openTable (name : String) (table : Table) : Option Table :=
  match table.lookup name with
  | none => some (table.add name (.table .header []))
  | some (.table .implied entries) => some (table.replace name (.table .header entries))
  | some _ => none

def openElement (name : String) (table : Table) : Option Table :=
  match table.lookup name with
  | none => some (table.add name (.tables [[]]))
  | some (.tables elements) => some (table.replace name (.tables (elements ++ [[]])))
  | some _ => none

end Table

end OnePass.Toml
