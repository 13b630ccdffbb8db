import CodemcpBridge.ProjectRegistry.Names
import CodemcpBridge.ProjectRegistry.Sensitive
import Mathlib.Algebra.GroupWithZero.Nat
import Mathlib.Data.List.Sort

/-!
# Search roots

`safe_search_paths` over a directory tree that does not change.  Paths are lists of names below the
root of the project.  What `str.lower` makes of a name is a parameter where names are sorted by it.
-/

namespace CodemcpBridge

namespace ProjectRegistry

/-! ## Trees -/

mutual

/-- What stands at a path. -/
inductive Node
  | file
  | dir (entries : Entries)
  /-- A directory that cannot be listed. -/
  | sealedDir
  /-- A link or reparse point and what it leads to. -/
  | link (dest : Node)
  /-- Neither a directory nor a regular file. -/
  | special
  /-- An entry whose kind cannot be told. -/
  | unknown

/-- The entries of a directory. -/
inductive Entries
  | nil
  | cons (name : String) (node : Node) (rest : Entries)

end

def Entries.toList : Entries → List (String × Node)
  | .nil => []
  | .cons name node rest => (name, node) :: rest.toList

/-- `path.is_dir()`, where it does not raise. -/
def Node.isDir : Node → Option Bool
  | .dir _ | .sealedDir => some true
  | .file | .special => some false
  | .link dest => dest.isDir
  | .unknown => none

/-- `path.is_file()`. -/
def Node.isFile : Node → Bool
  | .file => true
  | .link dest => dest.isFile
  | _ => false

def Node.isReparsePoint : Node → Bool
  | .link _ => true
  | _ => false

/-- The node that a path leads to through listed directories. -/
def Node.find : Node → List String → Option Node
  | node, [] => some node
  | .dir entries, name :: names => (entries.toList.lookup name).bind (Node.find · names)
  | _, _ => none

/-- `path.as_posix()` of a relative path. -/
def posix (names : List String) : String := "/".intercalate names

/-! ## The search -/

/-- The order of `key=lambda item: item.name.lower()`. -/
def leName (lower : String → String) (a b : String) : Prop := Text.le (lower a) (lower b) = true

instance (lower : String → String) : DecidableRel (leName lower) :=
  fun _ _ => inferInstanceAs (Decidable (_ = true))

/-- The paths that an entry adds and whether something was left out below it. -/
abbrev Visit := List (List String) × Bool

mutual

/-- `_safe_search_paths` of what stands at `path`. -/
def Node.search (lower : String → String) (path : List String) : Node → Visit
  | .dir entries =>
    let visits := (entries.visits lower path).insertionSort fun a b => leName lower a.1 b.1
    if visits.any fun v => v.2.2 then (visits.flatMap fun v => v.2.1, true) else ([path], false)
  | .link dest => dest.search lower path
  | _ => ([], true)

/-- The visits to the entries at `path`, with their names. -/
def Entries.visits (lower : String → String) (path : List String) :
    Entries → List (String × Visit)
  | .nil => []
  | .cons name node rest =>
    (name,
      -- Git never searches its own metadata directory
      if lowerName name = ".git" then ([], false)
      else if node.isReparsePoint ∨ isSensitive (posix (path ++ [name])) then ([], true)
      else match node.isDir with
        | some true => node.search lower (path ++ [name])
        | some false => if node.isFile then ([path ++ [name]], false) else ([], true)
        | none => ([], true)) :: rest.visits lower path

end

/-- `safe_search_paths`. -/
def safeSearchPaths (lower : String → String) (target : Node) (path : List String) :
    List (List String) :=
  match target.isDir with
  | none => []
  | some false => [path]
  | some true =>
    let (paths, excluded) := target.search lower path
    if excluded then paths else [path]

end ProjectRegistry

end CodemcpBridge
