import SqlPreview.Parameter.Value

namespace SqlPreview.Toml

-- How a table came about: by its own header, as a parent of one, or by a dotted key. A table may be
-- opened by one header only, and dotted keys may extend only tables that no header has opened.
inductive Origin where
  | header
  | parent
  | dotted
deriving DecidableEq, Repr

-- A complete value, a table, or a row of tables, of which the last one is open.
inductive Item where
  | leaf (value : Value)
  | table (origin : Origin) (entries : List (Text × Item))
  | row (last : List (Text × Item)) (before : List (List (Text × Item)))

abbrev Entries := Table Item

namespace Item

mutual

def toValue : Item → Value
  | leaf value => value
  | table _ entries => .record (toFields entries)
  | row last before => .list ((.record (toFields last) :: toRecords before).reverse)

def toFields : List (Text × Item) → List (Text × Value)
  | [] => []
  | (name, item) :: rest => (name, toValue item) :: toFields rest

-- The rows before the last, which come last first.
def toRecords : List (List (Text × Item)) → List Value
  | [] => []
  | entries :: rest => .record (toFields entries) :: toRecords rest

end

end Item

namespace Entries

-- Changes the table that a path leads to. A missing table on the way is made as `create` says. A
-- dotted key does not lead through a table with a header, and nothing leads through a value.
def alter (create : Origin) (change : Origin → Entries → Option Entries) :
    (path : List Text) → Origin → Entries → Option Entries
  | [], origin, entries => change origin entries
  | key :: path, _, entries =>
    let item : Option Item := match Table.get? key entries with
      | none => (alter create change path create []).map (Item.table create)
      | some (.table origin inner) =>
        if create = .dotted ∧ origin = .header then none
        else (alter create change path origin inner).map (Item.table origin)
      | some (.row last before) =>
        (alter create change path .header last).map fun last => Item.row last before
      | some (.leaf _) => none
    item.map fun item => entries.insert key item

-- Adds a value. A dotted key must end in a table of dotted keys, and a plain key must not.
def add (path : List Text) (key : Text) (value : Value) (entries : Entries) : Option Entries :=
  alter .dotted
    (fun origin entries =>
      if origin = .dotted ↔ path = [] then none
      else if (entries.get? key).isSome then none
      else some (entries.insert key (.leaf value)))
    path .header entries

-- Opens a table. It may have been a parent before.
def openTable (path : List Text) (key : Text) (entries : Entries) : Option Entries :=
  alter .parent
    (fun _ entries =>
      match entries.get? key with
      | none => some (entries.insert key (.table .header []))
      | some (.table .parent inner) => some (entries.insert key (.table .header inner))
      | _ => none)
    path .header entries

def openRow (path : List Text) (key : Text) (entries : Entries) : Option Entries :=
  alter .parent
    (fun _ entries =>
      match entries.get? key with
      | none => some (entries.insert key (.row [] []))
      | some (.row last before) => some (entries.insert key (.row [] (last :: before)))
      | _ => none)
    path .header entries

-- Changes the table that a header has opened.
def within (header : List Text) (change : Entries → Option Entries) (entries : Entries) :
    Option Entries :=
  alter .parent (fun _ entries => change entries) header .header entries

end Entries

end SqlPreview.Toml
