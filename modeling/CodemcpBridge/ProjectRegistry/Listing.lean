import CodemcpBridge.Errors
import CodemcpBridge.ProjectRegistry.Search

/-!
# Directory listings

`safe_directory_tree` over a directory tree that does not change: a loop over a stack of the entries
that are still to be visited.  What `str.lower` makes of a name is a parameter.
-/

namespace CodemcpBridge

namespace ProjectRegistry

mutual

/-- The number of nodes. -/
def Node.size : Node → ℕ
  | .dir entries => 1 + entries.size
  | .link dest => 1 + dest.size
  | _ => 1

def Entries.size : Entries → ℕ
  | .nil => 0
  | .cons _ node rest => node.size + rest.size

end

/-- `path.iterdir()`, where it does not raise. -/
def Node.list : Node → Option (List (String × Node))
  | .dir entries => some entries.toList
  | .link dest => dest.list
  | _ => none

/-- `sorted(…, key=lambda item: item.name.lower(), reverse=True)`. -/
def sortedBackward (lower : String → String) (children : List (String × Node)) :
    List (String × Node) :=
  children.insertionSort fun a b => leName lower b.1 a.1

/-- `PurePosixPath(text).as_posix()` of a relative path. -/
def asPosix (text : String) : String :=
  if Text.parts text = [] then "." else posix (Text.parts text)

/-- An entry on the stack: its path below the root of the project and its path as a text relative to
the target. -/
structure Pending where
  path : List String
  node : Node
  relativeToTarget : String

def Pending.name (entry : Pending) : String := entry.path.getLastD ""

/-- `entry.name.startswith(".") or entry.name == "__pycache__"`. -/
def isHidden (name : String) : Bool := Text.startsWith name "." || name == "__pycache__"

/-- The entries of a listed directory as they are put on the stack. -/
def Pending.children (lower : String → String) (entry : Pending) (normalized : String)
    (children : List (String × Node)) : List Pending :=
  (sortedBackward lower children).map fun child =>
    { path := entry.path ++ [child.1], node := child.2
      relativeToTarget := posix (Text.parts normalized ++ Text.parts child.1) }

theorem Entries.size_eq (entries : Entries) :
    entries.size = (entries.toList.map fun e => e.2.size).sum := by
  match entries with
  | .nil => rfl
  | .cons name node rest => rw [Entries.size, Entries.toList, List.map_cons,
    List.sum_cons, rest.size_eq]

theorem size_pos (node : Node) : 0 < node.size := by
  unfold Node.size
  split <;> omega

theorem size_of_list {nested : List (String × Node)} : ∀ {node : Node}, node.list = some nested →
    (nested.map fun e => e.2.size).sum < node.size
  | .dir entries, h => by
    rw [Node.list] at h
    cases h
    rw [← entries.size_eq, Node.size]
    omega
  | .link dest, h => by
    rw [Node.list] at h
    have := size_of_list h
    rw [Node.size]
    omega

/-- The size of what is on the stack. -/
def stackSize (stack : List Pending) : ℕ := (stack.map fun entry => entry.node.size).sum

theorem stackSize_cons (entry : Pending) (stack : List Pending) :
    stackSize (entry :: stack) = entry.node.size + stackSize stack := by
  unfold stackSize
  rw [List.map_cons, List.sum_cons]

theorem stackSize_tail (entry : Pending) (stack : List Pending) :
    stackSize stack < stackSize (entry :: stack) := by
  have := size_pos entry.node
  rw [stackSize_cons]
  omega

theorem stackSize_children {entry : Pending} {nested : List (String × Node)}
    (lower : String → String) (stack : List Pending) (normalized : String)
    (h : entry.node.list = some nested) :
    stackSize ((entry.children lower normalized nested).reverse ++ stack) <
      stackSize (entry :: stack) := by
  have sorted : stackSize (entry.children lower normalized nested).reverse =
      (nested.map fun e => e.2.size).sum := by
    unfold stackSize Pending.children sortedBackward
    rw [List.map_reverse, List.sum_reverse, List.map_map]
    exact ((List.perm_insertionSort _ nested).map _).sum_nat
  have := size_of_list h
  rw [stackSize_cons]
  unfold stackSize at *
  rw [List.map_append, List.sum_append, sorted]
  omega

/-- The stack is given with its top first. -/
def listLoop (lower : String → String) (maxEntries : ℕ) :
    List Pending → List (String × Bool) → List (String × Bool) × Bool
  | [], entries => (entries, false)
  | entry :: stack, entries =>
    if isHidden entry.name then listLoop lower maxEntries stack entries
    else if entry.node.isReparsePoint ∨ isSensitive (posix entry.path) then
      listLoop lower maxEntries stack entries
    else match entry.node.isDir with
      | none => listLoop lower maxEntries stack entries
      | some isDirectory =>
        if !isDirectory && !entry.node.isFile then listLoop lower maxEntries stack entries
        else if maxEntries ≤ entries.length then (entries, true)
        else
          let normalized := asPosix entry.relativeToTarget
          if !isDirectory then listLoop lower maxEntries stack
            (entries ++ [(normalized, isDirectory)])
          else match _h : entry.node.list with
            | none => listLoop lower maxEntries stack (entries ++ [(normalized, isDirectory)])
            | some nested =>
              listLoop lower maxEntries ((entry.children lower normalized nested).reverse ++ stack)
                (entries ++ [(normalized, isDirectory)])
termination_by stack => stackSize stack
decreasing_by
  all_goals first
    | exact stackSize_tail ..
    | exact stackSize_children _ _ _ (by assumption)

/-- `safe_directory_tree` of what stands at `path`. -/
def safeDirectoryTree (lower : String → String) (path : List String) (target : Node)
    (maxEntries : ℕ) : Except Exn (List (String × Bool) × Bool) :=
  if maxEntries = 0 then .error .valueError
  else match target.list with
    | none => .error (.bridge { code := .backendUnavailable
                                message := "directory could not be listed"
                                details := [("path", .str (asPosix (posix path)))] })
    | some children => .ok (listLoop lower maxEntries
      ((sortedBackward lower children).map fun child =>
        { path := path ++ [child.1], node := child.2, relativeToTarget := child.1 }).reverse [])

end ProjectRegistry

end CodemcpBridge
