import Highlighter.Setting.Basic

/-!
How the statements of a TOML document make a table. A header declares a table, or appends one to an
array of tables, and what follows is put into it; a dotted key makes the tables on its way. A table
may be declared once, and not after dotted keys have made it; a key may be given a value once; and
nothing is added to a value that has been written down whole, such as an inline table.
-/

set_option autoImplicit false

namespace Highlighter.Toml

inductive Statement where
  /-- Declares a table: `[a.b]`. -/
  | declare (path : List Text)
  /-- Appends a table to an array: `[[a.b]]`. -/
  | append (path : List Text)
  /-- Gives a key its value: `a.b = value`. -/
  | assign (path : List Text) (value : Setting)

/-- How a table has come about. -/
inductive Origin where
  /-- As a part of the path of a table that was declared. -/
  | implied
  | declared
  /-- As a part of a dotted key under the header of this number. -/
  | dotted (header : Nat)
  deriving DecidableEq

inductive Tree where
  | value (v : Setting)
  | table (origin : Origin) (branches : List (Text × Tree))
  /-- An array of tables. Only the last is still added to. -/
  | array (older : List Setting) (last : List (Text × Tree))

/-- What a table holds while it is being put together. -/
abbrev Branches := Entries Text Tree

namespace Tree

mutual

def toSetting : Tree → Setting
  | value v => v
  | table _ branches => .table (toEntries branches)
  | array older last => .list (older ++ [.table (toEntries last)])

def toEntries : List (Text × Tree) → List (Text × Setting)
  | [] => []
  | (k, t) :: rest => (k, toSetting t) :: toEntries rest

end

/-- Changes what a header leads to: the tables on its way, of an array the last one, and at its end
whatever is there, if anything is. -/
def change (last : Option Tree → Option Tree) : List Text → Branches → Option Branches
  | [], _ => none
  | [k], b => (last (b.get? k)).map (b.put k)
  | k :: path, b =>
    match b.get? k with
    | none => (change last path []).map fun sub => b.put k (.table .implied sub)
    | some (.table origin sub) => (change last path sub).map fun sub => b.put k (.table origin sub)
    | some (.array older sub) => (change last path sub).map fun sub => b.put k (.array older sub)
    | some (.value _) => none

def declare : Option Tree → Option Tree
  | none => some (.table .declared [])
  | some (.table .implied sub) => some (.table .declared sub)
  | some _ => none

def append : Option Tree → Option Tree
  | none => some (.array [] [])
  | some (.array older last) => some (.array (older ++ [.table (toEntries last)]) [])
  | some _ => none

/-- Gives a key under a header its value. -/
def assign (header : Nat) (v : Setting) : List Text → Branches → Option Branches
  | [], _ => none
  | [k], b =>
    match b.get? k with
    | none => some (b.put k (.value v))
    | some _ => none
  | k :: path, b =>
    match b.get? k with
    | none => (assign header v path []).map fun sub => b.put k (.table (.dotted header) sub)
    | some (.table origin sub) =>
      if origin = .implied ∨ origin = .dotted header then
        (assign header v path sub).map fun sub => b.put k (.table (.dotted header) sub)
      else none
    | some _ => none

/-- Changes the table that a header has led to. -/
def inside (f : Branches → Option Branches) : List Text → Branches → Option Branches
  | [], b => f b
  | k :: path, b =>
    match b.get? k with
    | some (.table origin sub) => (inside f path sub).map fun sub => b.put k (.table origin sub)
    | some (.array older sub) => (inside f path sub).map fun sub => b.put k (.array older sub)
    | _ => none

/-- Carries out statements after `n` headers, of which the last had the path `path`. -/
def build (n : Nat) (path : List Text) (b : Branches) : List Statement → Option Branches
  | [] => some b
  | .declare path :: rest => do build (n + 1) path (← change declare path b) rest
  | .append path :: rest => do build (n + 1) path (← change append path b) rest
  | .assign key v :: rest => do build n path (← inside (assign n v key) path b) rest

def ofStatements (statements : List Statement) : Option Table :=
  (build 0 [] [] statements).map toEntries

end Tree

end Highlighter.Toml
