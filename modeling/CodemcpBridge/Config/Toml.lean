import CodemcpBridge.Numbers

/-!
# TOML values

What `tomllib` makes of a document: a table of values, in the order of their keys.
-/

namespace CodemcpBridge

inductive Toml
  | str (s : String)
  | int (n : ℤ)
  | float (x : PyFloat)
  | bool (b : Bool)
  /-- A date, a time or both, as written. -/
  | time (text : String)
  | array (items : List Toml)
  | table (entries : List (String × Toml))

namespace Toml

abbrev Table := List (String × Toml)

/-- `table.get(key)`. -/
def get (t : Table) (key : String) : Option Toml := (t.find? fun e => e.1 == key).map Prod.snd

def str? : Toml → Option String
  | str s => some s
  | _ => none

/-- A list of strings. -/
def strings? : Toml → Option (List String)
  | array items => items.mapM str?
  | _ => none

/-- The value can be a member of a Python set. -/
def hashable : Toml → Bool
  | array _ | table _ => false
  | _ => true

end Toml

end CodemcpBridge
