import CodemcpBridge.GitCommit
import CodemcpBridge.ProjectRegistry.Names

/-!
# A repository and what Git says of it

Commits, the index and the worktree as the contents of paths; which paths a status names, and the
text in which it names them.
-/

namespace CodemcpBridge

/-- What stands at each path. -/
abbrev Contents := String → Option ByteArray

structure Commit where
  id : String
  tree : Contents
  parents : List String

structure Repository where
  head : Commit
  index : Contents
  worktree : Contents

/-- What the configuration of a repository says: the paths that are ignored, by the rules that stand
in the worktree, and the paths that a pathspec selects. -/
structure GitRules where
  ignores : Contents → String → Bool
  selects : String → String → Bool

namespace Repository

variable (git : GitRules) (repo : Repository)

/-- Git looks at the path in the worktree: it is tracked or not ignored. -/
def Visible (path : String) : Prop :=
  repo.index path ≠ none ∨ git.ignores repo.worktree path = false

/-- The path is named by a status: its content in the index is not the one of `HEAD`, or the one in
the worktree not that of the index. -/
def Changed (path : String) : Prop :=
  repo.index path ≠ repo.head.tree path ∨
    (repo.worktree path ≠ repo.index path ∧ repo.Visible git path)

/-- The pathspecs of a command. -/
def pathspecs (arguments : List String) : List String :=
  (arguments.dropWhile (· ≠ "--")).drop 1

/-- The index that `git add` leaves: ignored files that are not tracked are passed over. -/
def added (specs : List String) : Contents := fun path =>
  if specs.any (git.selects · path) &&
      ((repo.index path).isSome || !git.ignores repo.worktree path) then repo.worktree path
  else repo.index path

/-- `git commit --only` takes the path from the worktree: a pathspec selects it and Git knows it. -/
def takes (specs : List String) (path : String) : Bool :=
  specs.any (git.selects · path) && ((repo.index path).isSome || (repo.head.tree path).isSome)

/-- The tree that `git commit --only` records. -/
def recorded (specs : List String) : Contents := fun path =>
  if repo.takes git specs path then repo.worktree path else repo.head.tree path

variable {git repo} {path : String}

theorem index_of_unchanged (h : ¬ repo.Changed git path) :
    repo.index path = repo.head.tree path := by
  by_contra hne
  exact h (.inl hne)

/-- What a status passes over stands as in `HEAD`, where it is visible. -/
theorem worktree_of_unchanged (h : ¬ repo.Changed git path) (visible : repo.Visible git path) :
    repo.worktree path = repo.head.tree path := by
  rw [← index_of_unchanged h]
  by_contra hne
  exact h (.inr ⟨hne, visible⟩)

theorem visible_of_tracked {content : ByteArray} (h : repo.index path = some content) :
    repo.Visible git path := .inl (by simp [h])

end Repository

/-! ## Files -/

/-- What a call of the filesystem answers and the files it leaves. -/
def quietStep : (q : Quiet) → Contents → Except Exn q.Result → Contents → Prop
  | .exists_ path, files, r, files' =>
    (∀ b, r = .ok b → (files path).isSome = true → b = true) ∧ files' = files
  | .isFile path, files, r, files' => (∀ b, r = .ok b → b = (files path).isSome) ∧ files' = files
  | .readBytes path, files, r, files' => (∀ raw, r = .ok raw → files path = some raw) ∧
    files' = files
  | .makeTemp _, files, .ok temp, files' =>
    files temp = none ∧ files' = Function.update files temp (some ByteArray.empty)
  | .writeTemp temp content, files, .ok _, files' =>
    files' = Function.update files temp (some content)
  | .writeTemp temp _, files, .error _, files' => ∃ part, files' = Function.update files temp part
  | .replace temp target, files, .ok _, files' =>
    files' = Function.update (Function.update files target (files temp)) temp none
  | .unlink path, files, .ok _, files' => files' = Function.update files path none
  | _, files, _, files' => files' = files

/-! ## The text of a status -/

/-- An entry of `git status --porcelain=v1 -z`: two letters and a path, with the path it was renamed
or copied from if one of the letters says so. -/
structure StatusEntry where
  staged : Char
  unstaged : Char
  path : String
  original : Option String
  plain : ∀ p ∈ path :: original.toList, p ≠ "" ∧ '\x00' ∉ p.toList
  letters : staged ≠ '\x00' ∧ unstaged ≠ '\x00'
  renamed : original.isSome = [staged, unstaged].any fun c => c == 'R' || c == 'C'

namespace StatusEntry

def paths (e : StatusEntry) : List String := e.path :: e.original.toList

/-- The pieces of the text, each of which ends with a NUL. -/
def pieces (e : StatusEntry) : List (List Char) :=
  (e.staged :: e.unstaged :: ' ' :: e.path.toList) :: e.original.toList.map String.toList

def text (entries : List StatusEntry) : String :=
  String.ofList ((entries.flatMap pieces).flatMap fun piece => piece ++ ['\x00'])

end StatusEntry

theorem Text.splitBy_terminated {sep : Char} :
    ∀ {pieces : List (List Char)}, (∀ p ∈ pieces, sep ∉ p) →
      Text.splitBy (· == sep) (pieces.flatMap fun piece => piece ++ [sep]) = pieces ++ [[]]
  | [], _ => rfl
  | piece :: pieces, h => by
    have free : ∀ d ∈ piece, (d == sep) = false := fun d hd =>
      beq_eq_false_iff_ne.2 fun e => h piece List.mem_cons_self (e ▸ hd)
    rw [List.flatMap_cons, List.append_assoc, List.singleton_append,
      Text.splitBy_append free (beq_self_eq_true sep),
      Text.splitBy_terminated fun p hp => h p (List.mem_cons_of_mem piece hp), List.cons_append]

namespace GitGuard

/-- The pieces of one entry are read as its paths. -/
theorem porcelainPaths_pieces (e : StatusEntry) (rest : List String) :
    porcelainPaths (e.pieces.map String.ofList ++ rest) = e.paths ++ porcelainPaths rest := by
  obtain ⟨staged, unstaged, path, original, plain, letters, renamed⟩ := e
  have long : ¬ (String.ofList (staged :: unstaged :: ' ' :: path.toList)).length < 3 := by
    rw [← String.length_toList, String.toList_ofList, List.length_cons, List.length_cons,
      List.length_cons]
    omega
  have dropped : Text.drop 3 (String.ofList (staged :: unstaged :: ' ' :: path.toList)) = path := by
    unfold Text.drop
    rw [String.toList_ofList]
    exact String.ofList_toList
  have code : (String.ofList (staged :: unstaged :: ' ' :: path.toList)).toList.take 2 =
      [staged, unstaged] := by
    rw [String.toList_ofList]
    rfl
  cases original with
  | none =>
    have plainCode : ([staged, unstaged].any fun c => c == 'R' || c == 'C') = false := renamed.symm
    simp only [StatusEntry.pieces, StatusEntry.paths, Option.toList_none, List.map_nil,
      List.map_cons, List.cons_append, List.nil_append]
    rw [porcelainPaths.eq_def]
    dsimp only
    rw [if_neg long, code, plainCode, if_neg Bool.false_ne_true, dropped]
  | some original =>
    have renameCode : ([staged, unstaged].any fun c => c == 'R' || c == 'C') = true := renamed.symm
    have ne : original ≠ "" := (plain original (by simp)).1
    simp only [StatusEntry.pieces, StatusEntry.paths, Option.toList_some, List.map_nil,
      List.map_cons, List.cons_append, List.nil_append, String.ofList_toList]
    rw [porcelainPaths.eq_def]
    dsimp only
    rw [if_neg long, code, renameCode, if_pos rfl, dropped]
    simp [ne]

/-- The paths of a status are read back. -/
theorem porcelainPaths_text (entries : List StatusEntry) :
    porcelainPaths (Text.split '\x00' (StatusEntry.text entries)) =
      entries.flatMap StatusEntry.paths := by
  have free : ∀ p ∈ entries.flatMap StatusEntry.pieces, '\x00' ∉ p := by
    intro p hp
    obtain ⟨e, -, hp⟩ := List.mem_flatMap.1 hp
    rcases List.mem_cons.1 hp with rfl | hp
    · have := (e.plain e.path List.mem_cons_self).2
      simp [this, e.letters.1.symm, e.letters.2.symm]
    · obtain ⟨o, ho, rfl⟩ := List.mem_map.1 hp
      exact (e.plain o (List.mem_cons_of_mem _ ho)).2
  unfold Text.split StatusEntry.text
  rw [String.toList_ofList, Text.splitBy_terminated free, List.map_append]
  induction entries with
  | nil => rfl
  | cons e entries ih =>
    have rest := ih fun p hp => free p (by
      rw [List.flatMap_cons]
      exact List.mem_append_right _ hp)
    rw [List.flatMap_cons, List.map_append, List.append_assoc, porcelainPaths_pieces, rest,
      List.flatMap_cons]

end GitGuard

/-- What `git status --porcelain=v1 --untracked-files=all -z` prints. -/
def Repository.Prints (git : GitRules) (repo : Repository) (output : String) : Prop :=
  ∃ entries, output = StatusEntry.text entries ∧
    ∀ path, path ∈ entries.flatMap StatusEntry.paths ↔ repo.Changed git path

theorem Repository.Prints.mem {git : GitRules} {repo : Repository} {output path : String}
    (h : repo.Prints git output) :
    path ∈ GitGuard.porcelainPaths (Text.split '\x00' output) ↔ repo.Changed git path := by
  obtain ⟨entries, rfl, hm⟩ := h
  rw [GitGuard.porcelainPaths_text]
  exact hm path

/-! ## A repository with nothing in it -/

/-- Every file that is not tracked is ignored. -/
def ignoring : GitRules where
  ignores _ _ := true
  selects spec path := spec == path

def emptyCommit : Commit where
  id := "0123456789abcdef0123456789abcdef01234567"
  tree _ := none
  parents := []

/-- Where nothing is tracked and everything ignored a status names nothing. -/
theorem Repository.prints_ignoring {repo : Repository} (head : repo.head = emptyCommit)
    (index : repo.index = fun _ => none) : repo.Prints ignoring "" := by
  refine ⟨[], rfl, fun p => iff_of_false List.not_mem_nil ?_⟩
  rintro (h | ⟨-, h | h⟩)
  · exact h (by rw [index, head]; rfl)
  · exact h (by rw [index])
  · cases h

end CodemcpBridge
