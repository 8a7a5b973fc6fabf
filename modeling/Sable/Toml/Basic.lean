import Sable.Number.Binary64
import Sable.Toml.DateTime

/-!
# TOML documents

A document is a sequence of statements. A pair gives a key its value, and a header opens the table
to which the pairs behind it belong, or adds such a table to an array. Pairs in front of the first
header belong to the document itself.

Keys may name tables on their way. A table that is not yet there comes to be so, but may be
extended by further statements only as its origin allows.

## Main definitions

* `Toml.Value`, `Toml.Table`: values, and keys with values.
* `Toml.Statement`: a header or a pair.
* `Toml.Table.addPair?`: adds what a pair says.
* `Toml.Table.addSection?`: adds what a header and its pairs say.
* `Toml.Table.ofStatements?`: the table that a sequence of statements makes.
-/
namespace Sable.Toml

/-- How a table came to be. -/
inductive Origin
  /-- By a header of its own. -/
  | header
  /-- By the header of a table inside. -/
  | parent
  /-- By the key of a pair inside. -/
  | dotted
  /-- As a value between braces. -/
  | braces
  deriving DecidableEq, Inhabited

inductive Value
  | string (s : String)
  | integer (n : Int)
  | float (x : Binary64)
  | boolean (b : Bool)
  | dateTime (d : DateTime)
  | array (items : List Value)
  | table (origin : Origin) (entries : List (String × Value))
  /-- An array of tables with headers, of which only the last may be extended. -/
  | tables (earlier : List (List (String × Value))) (last : List (String × Value))
  deriving Inhabited

/-- Keys with their values, in the order in which they are written. -/
abbrev Table := List (String × Value)

/-- A name, and the names of the tables on the way to it. -/
structure Key where
  path : List String
  name : String
  deriving DecidableEq, Inhabited

inductive Statement
  | header (key : Key)
  | arrayHeader (key : Key)
  | pair (key : Key) (value : Value)
  deriving Inhabited

namespace Table

/-- Adds a new key. -/
def insert? (t : Table) (name : String) (value : Value) : Option Table :=
  if (t.lookup name).isSome then none else some (t ++ [(name, value)])

/-- Gives a key a value in place of the one that it has. -/
def set (t : Table) (name : String) (value : Value) : Table :=
  if (t.lookup name).isSome then t.map fun e => if e.1 = name then (name, value) else e
  else t ++ [(name, value)]

/-- Adds a pair below the tables of a path. A table that has or gets a header of its own takes no
pairs from elsewhere, but the tables that it leads to may. -/
def addAlong? (name : String) (value : Value) : (path : List String) → Table → Option Table
  | [], t => t.insert? name value
  | key :: path, t =>
    match t.lookup key with
    | none => do
      return t.set key (.table .dotted (← addAlong? name value path []))
    | some (.table .dotted entries) => do
      return t.set key (.table .dotted (← addAlong? name value path entries))
    | some (.table .parent entries) => do
      if path.isEmpty then none
      else return t.set key (.table .parent (← addAlong? name value path entries))
    | some (.tables earlier last) => do
      if path.isEmpty then none
      else return t.set key (.tables earlier (← addAlong? name value path last))
    | some _ => none

def addPair? (t : Table) (key : Key) (value : Value) : Option Table :=
  addAlong? key.name value key.path t

def addPairs? (t : Table) (pairs : List (Key × Value)) : Option Table :=
  pairs.foldlM (fun (t : Table) e => t.addPair? e.1 e.2) t

/-- Opens a table and adds pairs to it. Its name is new, or that of a table that came to be by the
headers of others. -/
def openTable? (name : String) (pairs : List (Key × Value)) (t : Table) : Option Table := do
  match t.lookup name with
  | none => return t.set name (.table .header (← addPairs? [] pairs))
  | some (.table .parent entries) => return t.set name (.table .header (← addPairs? entries pairs))
  | some _ => none

/-- Adds a table with the given pairs to an array of such tables, which may be new. -/
def openItem? (name : String) (pairs : List (Key × Value)) (t : Table) : Option Table := do
  match t.lookup name with
  | none => return t.set name (.tables [] (← addPairs? [] pairs))
  | some (.tables earlier last) =>
    return t.set name (.tables (earlier ++ [last]) (← addPairs? [] pairs))
  | some _ => none

/-- Changes a table inside by `f`, coming past the tables of a path. -/
def changeAt? (f : Table → Option Table) : (path : List String) → Table → Option Table
  | [], t => f t
  | key :: path, t =>
    match t.lookup key with
    | none => do
      return t.set key (.table .parent (← changeAt? f path []))
    | some (.table .braces _) => none
    | some (.table origin entries) => do
      return t.set key (.table origin (← changeAt? f path entries))
    | some (.tables earlier last) => do
      return t.set key (.tables earlier (← changeAt? f path last))
    | some _ => none

/-- The pairs in front of the next header, and what begins with that header. -/
def splitSection : List Statement → List (Key × Value) × List Statement
  | .pair key value :: rest =>
    let (pairs, others) := splitSection rest
    ((key, value) :: pairs, others)
  | rest => ([], rest)

theorem length_splitSection_le (statements : List Statement) :
    (splitSection statements).2.length ≤ statements.length := by
  fun_induction splitSection statements with
  | case1 key value rest pairs others h ih => simp_all; omega
  | case2 rest => simp

/-- Adds the tables that the headers of a sequence open. -/
def addSections? (t : Table) : List Statement → Option Table
  | .header key :: rest => do
    let t ← changeAt? (openTable? key.name (splitSection rest).1) key.path t
    t.addSections? (splitSection rest).2
  | .arrayHeader key :: rest => do
    let t ← changeAt? (openItem? key.name (splitSection rest).1) key.path t
    t.addSections? (splitSection rest).2
  | _ => some t
termination_by statements => statements.length
decreasing_by
  all_goals
    have := length_splitSection_le rest
    simp only [List.length_cons]
    omega

def ofStatements? (statements : List Statement) : Option Table := do
  (← addPairs? [] (splitSection statements).1).addSections? (splitSection statements).2

end Table

namespace Value

/-- The table that pairs between braces make. -/
def ofPairs? (pairs : List (Key × Value)) : Option Value :=
  (Table.addPairs? [] pairs).map (.table .braces)

def string? : Value → Option String
  | .string s => some s
  | _ => none

/-- The items of an array. -/
def items? : Value → Option (List Value)
  | .array items => some items
  | .tables earlier last => some ((earlier ++ [last]).map (.table .header))
  | _ => none

/-- The items of an array of strings. -/
def strings? (value : Value) : Option (List String) := value.items?.bind (·.mapM string?)

/-- A group of settings: a table of them, or an array with the values of `names` in order. What is
missing at its end has no value, and what stands behind it is left out. A point in time is a group
that sets nothing. -/
def group? (names : List String) : Value → Option Table
  | .table _ entries => some entries
  | .dateTime _ => some []
  | value => value.items?.map names.zip

end Value

end Sable.Toml
