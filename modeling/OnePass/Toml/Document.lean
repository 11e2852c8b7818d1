import OnePass.Toml.Scalar

/-!
# TOML documents

* `value` — a value, with all values inside it;
* `Document` — the tables of a document and the one that keys go to;
* `parse?` — the root table of a text, if the text is a document.
-/

namespace OnePass.Toml

open Reading

/-! ### Values -/

/-- The values of an array, after the opening bracket. A comma may follow the last one. The number bounds the
values. -/
def arrayItems (item : Reading Item) : Nat → Reading (List Item)
  | 0 => failure
  | n + 1 => do
      gap
      if ← accept [']'] then return []
      let first ← item
      gap
      if ← accept [','] then return first :: (← arrayItems item n)
      literal [']']
      return [first]

def keyValue (item : Reading Item) : Reading ((List String × String) × Item) := do
  let name ← key
  literal ['=']
  blanks
  return (name, ← item)

def inlineEntries (item : Reading Item) : Nat → Table → Reading Table
  | 0, _ => failure
  | n + 1, table => do
      let ((path, name), value) ← keyValue item
      blanks
      match table.insertDotted name value path with
      | none => failure
      | some table => do
          if ← accept [','] then inlineEntries item n table
          else
            literal ['\x7d']
            return table

def inlineTable (item : Reading Item) : Reading Table := do
  blanks
  if ← accept ['\x7d'] then return [] else inlineEntries item (← get).length []

def valueOver (inner : Option (Reading Item)) : Reading Item := do
  match ← peek with
  | some '"' => .text <$> string .escaping
  | some '\'' => .text <$> string .plain
  | some '[' => do
      literal ['[']
      match inner with
      | none => failure
      | some item => .array <$> arrayItems item ((← get).length + 1)
  | some '\x7b' => do
      literal ['\x7b']
      match inner with
      | none => failure
      | some item => .table .inline <$> inlineTable item
  | _ => scalar

def value : Nat → Reading Item
  | 0 => valueOver none
  | depth + 1 => valueOver (some (value depth))

/-! ### Lines -/

/-- The tables of a document and the header of the one that keys go to. -/
structure Document where
  root : Table := []
  header : List String := []

namespace Document

def put (document : Document) (path : List String) (name : String) (item : Item) : Option Document := do
  return { document with root := ← document.root.update (Table.insertDotted name item path) document.header }

def enter (document : Document) (start : String → Table → Option Table) (path : List String) (name : String) :
    Option Document := do
  return { root := ← document.root.update (start name) path, header := path ++ [name] }

end Document

def headerLine (document : Document) : Reading Document := do
  literal ['[']
  let several ← accept ['[']
  let (path, name) ← key
  literal (if several then [']', ']'] else [']'])
  lineEnd
  document.enter (if several then Table.openElement else Table.openTable) path name

def keyLine (document : Document) : Reading Document := do
  let ((path, name), item) ← keyValue (value (depthLimit - 1))
  lineEnd
  document.put path name item

def lines : Nat → Document → Reading Document
  | 0, document => return document
  | n + 1, document => do
      blanks
      match ← peek with
      | none => return document
      | some '#' | some '\n' | some '\r' => do
          lineEnd
          lines n document
      | some '[' => do lines n (← headerLine document)
      | some _ => do lines n (← keyLine document)

def parse? (text : String) : Option Table :=
  let body := match text.toList with
    | '\ufeff' :: rest => rest
    | all => all
  match (lines (body.length + 1) {}).run body with
  | some (document, []) => some document.root
  | _ => none

end OnePass.Toml
