import CodemcpBridge.Encoding.Lines
import CodemcpBridge.GrepFilter
import CodemcpBridge.Properties.SearchRoots
import CodemcpBridge.Reads
import Mathlib.Data.Bool.AllAny
import Mathlib.Data.List.DropRight

/-!
# The results of a search

`codeSearchBody` against a backend that reports the files below a path that match.  Where the search
is split, a root whose own path does not match the include glob is not searched at all, and a line
is left out when its text looks sensitive; a file is lost just when one of these happens to it.
Paths are those of a POSIX host, and a root is written in one way: as the registry has it resolved.
-/

namespace CodemcpBridge

open ProjectRegistry Body
open Async.Prog (yields_pure yields_bind yields_ask yields_ite yields_true)

namespace SearchResults

variable {s : String} {ls : List String}

/-! ## Lines -/

/-- A text of one line, which is not empty. -/
def OneLine (s : String) : Prop := s ≠ "" ∧ ∀ c ∈ s.toList, Text.isLineBreak c = false

/-- Lines are read back. -/
theorem splitlines_intercalate (hne : ls ≠ []) (h : ∀ l ∈ ls, OneLine l) :
    Text.splitlines ("\n".intercalate ls) = ls := by
  unfold Text.splitlines
  rw [String.toList_intercalate]
  show (Text.linesOf [] (['\n'].intercalate (ls.map String.toList))).map String.ofList = ls
  induction ls with
  | nil => exact absurd rfl hne
  | cons l ls ih =>
    have hl := h l List.mem_cons_self
    cases ls with
    | nil =>
      rw [List.map_cons, List.map_nil, List.intercalate_singleton, Text.linesOf_end hl.2]
      · simp
      · simpa using hl.1
    | cons m ls =>
      rw [List.map_cons, List.map_cons, List.intercalate_cons_cons, List.append_assoc,
        List.singleton_append, Text.linesOf_break hl.2, List.map_cons]
      have rest := ih (List.cons_ne_nil m ls) fun x hx => h x (List.mem_cons_of_mem l hx)
      rw [List.map_cons] at rest
      rw [rest]
      simp

/-! ## The text of an answer -/

/-- The first line of an answer that names `n` files. -/
def header (n : ℕ) : String :=
  "Found " ++ toString n ++ " file" ++ (if n ≠ 1 then "s" else "")

theorem foundText_eq (hne : ls ≠ []) : foundText ls =
    "\n".intercalate (header ls.length :: ls) := by
  rw [String.intercalate_cons_of_ne_nil hne]
  rfl

/-- The answer of a backend that names some files. -/
def grepText (ls : List String) : String := if ls = [] then "No files found" else foundText ls

theorem isDigit_of_mem_toString {n : ℕ} {c : Char} (h : c ∈ (toString n).toList) :
    c.isDigit = true := by
  refine Nat.isDigit_of_mem_toDigits (b := 10) (n := n) (by decide) (by decide) ?_
  simpa using h

theorem header_toList (n : ℕ) : ∃ tail ∈ [" file".toList, " files".toList],
    (header n).toList = "Found ".toList ++ ((toString n).toList ++ tail) := by
  unfold header
  by_cases h : n ≠ 1
  · exact ⟨" files".toList, by simp, by simp [h]⟩
  · exact ⟨" file".toList, by simp, by simp [h]⟩

theorem dropWhile_of_head {p : Char → Bool} {l : List Char}
    (h : ∀ c, l.head? = some c → p c = false) :
    l.dropWhile p = l := by
  cases l with
  | nil => rfl
  | cons c l => rw [List.dropWhile_cons, h c rfl]; rfl

/-- A text that neither begins nor ends with space. -/
theorem stripBlanks_of (first : ∀ c, s.toList.head? = some c → isBlank c = false)
    (last : ∀ c, s.toList.getLast? = some c → isBlank c = false) : stripBlanks s = s := by
  unfold stripBlanks
  rw [dropWhile_of_head first, dropWhile_of_head fun c hc =>
    last c (by rwa [List.head?_reverse] at hc), List.reverse_reverse, String.ofList_toList]

theorem isLineBreak_of_isDigit {c : Char} (h : c.isDigit = true) : Text.isLineBreak c = false := by
  rw [← Bool.not_eq_true]
  intro hb
  simp only [Text.isLineBreak, Bool.or_eq_true, beq_iff_eq] at hb
  rcases hb with ((((((((rfl | rfl) | rfl) | rfl) | rfl) | rfl) | rfl) | rfl) | rfl) | rfl <;>
    exact absurd h (by decide)

theorem oneLine_header (n : ℕ) : OneLine (header n) := by
  obtain ⟨tail, ht, hl⟩ := header_toList n
  constructor
  · intro h
    rw [h] at hl
    exact absurd hl (by simp)
  · intro c hc
    rw [hl, List.mem_append, List.mem_append] at hc
    rcases hc with hc | hc | hc
    · revert c
      exact List.all_iff_forall_prop.1 (by decide)
    · exact isLineBreak_of_isDigit (isDigit_of_mem_toString hc)
    · revert c
      rcases List.mem_cons.1 ht with rfl | ht
      · exact List.all_iff_forall_prop.1 (by decide)
      · rw [List.mem_singleton] at ht
        subst ht
        exact List.all_iff_forall_prop.1 (by decide)

theorem isGrepHeader_header (n : ℕ) : isGrepHeader (stripBlanks (header n)) = true := by
  obtain ⟨tail, ht, hl⟩ := header_toList n
  have digits : ∀ c ∈ (toString n).toList, c.isDigit = true := fun c hc =>
    isDigit_of_mem_toString hc
  have ends : tail ≠ [] ∧ (tail.getLast? = some 'e' ∨ tail.getLast? = some 's') ∧
      tail.takeWhile Char.isDigit = [] ∧ tail.dropWhile Char.isDigit = tail := by
    rcases List.mem_cons.1 ht with rfl | ht
    · decide
    · rw [List.mem_singleton] at ht
      subst ht
      decide
  have strip : stripBlanks (header n) = header n := by
    refine stripBlanks_of (fun c hc => ?_) fun c hc => ?_
    · rw [hl] at hc
      cases hc
      decide
    · rw [hl, ← List.append_assoc, List.getLast?_append_of_ne_nil _ ends.1] at hc
      rcases ends.2.1 with he | he <;> cases he.symm.trans hc <;> decide
  have rest : (header n).toList.drop 6 = (toString n).toList ++ tail := by
    rw [hl]
    exact List.drop_left' (by decide)
  have start : Text.startsWith (header n) "Found " = true := by
    unfold Text.startsWith
    rw [hl]
    exact List.isPrefixOf_iff_prefix.2 (List.prefix_append _ _)
  have number : (toString n).toList ≠ [] := by
    intro h
    exact Nat.repr_ne_empty (String.toList_eq_nil_iff.1 h)
  have before : ((toString n).toList ++ tail).takeWhile Char.isDigit = (toString n).toList := by
    rw [List.takeWhile_append_of_pos digits, ends.2.2.1, List.append_nil]
  have after : ((toString n).toList ++ tail).dropWhile Char.isDigit = tail := by
    rw [List.dropWhile_append_of_pos digits, ends.2.2.2]
  have listed : [" file".toList, " files".toList].contains tail = true :=
    List.elem_eq_true_of_mem ht
  simp only [isGrepHeader, strip, rest, start, before, after, listed, number, ne_eq,
    not_false_eq_true, decide_true, Bool.and_self]

/-! ## The filter -/

variable {casefold : Casefold} {roots : List String}

/-- A text that begins with a slash keeps it. -/
theorem stripBlanks_slash {l : List Char} (h : s.toList = '/' :: l) :
    ∃ t, (stripBlanks s).toList = '/' :: t ∧ t <+: l := by
  have first : ('/' :: l).dropWhile isBlank = '/' :: l :=
    dropWhile_of_head fun c hc => by cases hc; decide
  unfold stripBlanks
  rw [h, first, String.toList_ofList]
  have kept : (('/' :: l).rdropWhile isBlank) <+: '/' :: l := List.rdropWhile_prefix _ _
  have hne : (('/' :: l).rdropWhile isBlank) ≠ [] := fun he =>
    absurd (List.rdropWhile_eq_nil_iff.1 he '/' List.mem_cons_self) (by decide)
  show ∃ t, ('/' :: l).rdropWhile isBlank = '/' :: t ∧ t <+: l
  cases hr : ('/' :: l).rdropWhile isBlank with
  | nil => exact absurd hr hne
  | cons c t =>
    rw [hr, List.cons_prefix_cons] at kept
    exact ⟨t, by rw [kept.1], kept.2⟩

theorem isSensitive_none_found (n : ℕ) : isSensitive (Text.drop n "No files found") = false := by
  have short : ∀ k : Fin 14, isSensitive (Text.drop k "No files found") = false := by
    decide +kernel
  by_cases hn : n < 14
  · exact short ⟨n, hn⟩
  · have : Text.drop n "No files found" = "" := by
      unfold Text.drop
      rw [List.drop_eq_nil_of_le (by simpa using hn)]
    rw [this]
    decide +kernel

theorem isSensitiveGrepLine_none_found :
    isSensitiveGrepLine casefold roots "No files found" = false := by
  have hc : slashed (stripBlanks "No files found") = "No files found" := by decide +kernel
  unfold isSensitiveGrepLine
  simp only [hc]
  rw [if_neg (by decide)]
  split
  · exact isSensitive_none_found _
  · exact isSensitive_none_found 0

/-- What the filter leaves of an answer: the lines that do not look sensitive. -/
theorem filter_grepText (h : ∀ l ∈ ls, OneLine l ∧ l.toList.head? = some '/') :
    filterSensitiveGrepResult casefold roots (grepText ls) =
      grepText (ls.filter fun l => !isSensitiveGrepLine casefold roots l) := by
  by_cases hne : ls = []
  · subst hne
    have lines : Text.splitlines "No files found" = ["No files found"] := by decide +kernel
    have plain : isGrepHeader (stripBlanks "No files found") = false := by decide +kernel
    unfold filterSensitiveGrepResult
    rw [grepText, if_pos rfl, lines]
    simp only [plain, Bool.false_eq_true, if_false, List.filter_cons,
      isSensitiveGrepLine_none_found, Bool.not_false, if_true, List.filter_nil]
    decide
  · have lines : Text.splitlines (foundText ls) = header ls.length :: ls := by
      rw [foundText_eq hne]
      refine splitlines_intercalate (List.cons_ne_nil _ _) fun l hl => ?_
      rcases List.mem_cons.1 hl with rfl | hl
      · exact oneLine_header _
      · exact (h l hl).1
    have same : (ls.filter fun line => decide (stripBlanks line ≠ "") &&
        !Text.startsWith (stripBlanks line) "(" && !isSensitiveGrepLine casefold roots line) =
        ls.filter fun l => !isSensitiveGrepLine casefold roots l := by
      refine List.filter_congr fun l hl => ?_
      obtain ⟨c, t, ht⟩ := List.exists_cons_of_ne_nil (l := l.toList) fun he => by
        have := (h l hl).2
        rw [he] at this
        cases this
      have hc : c = '/' := by
        have := (h l hl).2
        rw [ht] at this
        cases this
        rfl
      rw [hc] at ht
      obtain ⟨u, hu, -⟩ := stripBlanks_slash ht
      have ne : stripBlanks l ≠ "" := fun he => by
        rw [he] at hu
        cases hu
      have start : Text.startsWith (stripBlanks l) "(" = false := by
        unfold Text.startsWith
        rw [hu]
        rfl
      simp only [ne, start, ne_eq, not_false_eq_true, decide_true, Bool.not_false, Bool.true_and]
    unfold filterSensitiveGrepResult
    rw [grepText, if_neg hne, lines]
    simp only [isGrepHeader_header, if_true]
    rw [same]
    rfl

/-! ## Paths and files -/

/-- `root / names`. -/
def absolute (root : String) (names : List String) : String :=
  if names = [] then root else Paths.join root (posix names)

/-- What `relative_path` says. -/
def relativeText (names : List String) : String := if names = [] then "." else posix names

variable {root : String} {names : List String}

theorem posix_head (plain : ∀ name ∈ names, PlainName name) :
    (posix names).toList.head? ≠ some '/' := by
  cases names with
  | nil => decide
  | cons name rest =>
    obtain ⟨t, ht, -⟩ := toList_intercalate_cons name rest
    obtain ⟨hne, -, hs⟩ := plain name List.mem_cons_self
    rw [posix, ht]
    cases hn : name.toList with
    | nil => exact absurd (String.toList_eq_nil_iff.1 hn) hne
    | cons c cs =>
      intro h
      cases h
      exact hs (hn ▸ List.mem_cons_self)

theorem posix_injective {others : List String} (plain : ∀ name ∈ names, PlainName name)
    (plain' : ∀ name ∈ others, PlainName name) (h : posix names = posix others) :
    names = others := by
  have := congrArg Text.parts h
  unfold posix at this
  rwa [Text.parts_intercalate plain, Text.parts_intercalate plain'] at this

/-- The slash that stands after a root, unless it ends with one. -/
def separator (root : String) : List Char := if root.toList.getLast? = some '/' then [] else ['/']

theorem absolute_toList (plain : ∀ name ∈ names, PlainName name) (hne : names ≠ []) :
    (absolute root names).toList = root.toList ++ (separator root ++ (posix names).toList) := by
  have relative : Paths.isAbsolute (posix names) = false := by
    unfold Paths.isAbsolute
    exact beq_false_of_ne (posix_head plain)
  have dot : posix names ≠ "." := fun h => by
    have := congrArg Text.parts h
    unfold posix at this
    rw [Text.parts_intercalate plain] at this
    exact hne (this.trans (by decide))
  unfold absolute Paths.join separator
  rw [if_neg hne, relative, if_neg Bool.false_ne_true, if_neg dot]
  split_ifs <;> simp

theorem posix_ne_empty (plain : ∀ name ∈ names, PlainName name) (hne : names ≠ []) :
    posix names ≠ "" := fun h => by
  have := congrArg Text.parts h
  unfold posix at this
  rw [Text.parts_intercalate plain] at this
  exact hne (this.trans (by decide))

theorem absolute_injective {others : List String} (plain : ∀ name ∈ names, PlainName name)
    (plain' : ∀ name ∈ others, PlainName name) (h : absolute root names = absolute root others) :
    names = others := by
  have longer {l : List String} (hl : ∀ name ∈ l, PlainName name) (hne : l ≠ []) :
      absolute root l ≠ root := fun he => by
    have := congrArg String.toList he
    rw [absolute_toList hl hne] at this
    have := congrArg List.length this
    have : (posix l).toList.length ≠ 0 := fun h0 =>
      posix_ne_empty hl hne (String.toList_eq_nil_iff.1 (List.length_eq_zero_iff.1 h0))
    simp only [List.length_append] at *
    omega
  by_cases hn : names = []
  · by_cases ho : others = []
    · rw [hn, ho]
    · rw [hn, absolute, if_pos rfl] at h
      exact absurd h.symm (longer plain' ho)
  · by_cases ho : others = []
    · rw [ho] at h
      exact absurd (h.trans (if_pos rfl)) (longer plain hn)
    · have := congrArg String.toList h
      rw [absolute_toList plain hn, absolute_toList plain' ho, List.append_cancel_left_eq,
        List.append_cancel_left_eq, String.toList_inj] at this
      exact posix_injective plain plain' this

/-! ## The backend -/

/-- What a link leads to in the end. -/
def behind : Node → Node
  | .link dest => behind dest
  | node => node

/-- The node that a path leads to, through links too. -/
def walk : Node → List String → Option Node
  | node, [] => some (behind node)
  | node, name :: names => match behind node with
    | .dir entries => (entries.toList.lookup name).bind (walk · names)
    | _ => none

/-- Which files the backend's `Grep` reports for a pattern and an include glob: those whose content
and name match.  A path that it reports is one line. -/
structure Backend (root : String) where
  hits : String → Option String → List String → Bool
  oneLine : ∀ pattern include_ file, hits pattern include_ file = true →
    ∀ c ∈ (absolute root file).toList, Text.isLineBreak c = false

variable {lower : String → String} {project : ProjectSpec} {target : Node} {path file : List String}
  {backend : Backend project.root} {pattern sessionId : String} {include_ : Option String}

/-- A file below the target, which stands at `path`. -/
def Present (target : Node) (path file : List String) : Prop :=
  ∃ below, file = path ++ below ∧ walk target below = some .file

/-- One `Grep` over `searched` reports the file. -/
def Grepped (target : Node) (path : List String) (backend : Backend root) (pattern : String)
    (include_ : Option String) (searched file : List String) : Prop :=
  Present target path file ∧ searched <+: file ∧ backend.hits pattern include_ file = true

/-- A single `Grep` over the target reports the file, which is not sensitive and behind no link. -/
def Expected (target : Node) (path : List String) (backend : Backend root) (pattern : String)
    (include_ : Option String) (file : List String) : Prop :=
  Grepped target path backend pattern include_ path file ∧
    (∃ below, file = path ++ below ∧ target.find below = some .file) ∧
    isSensitive (posix file) = false

/-- What the surroundings answer `code_search`: the tree that stands at `path` below the project, a
backend that reports all matches in any order, and the service's own functions. -/
def Answers (lower : String → String) (casefold : Casefold) (project : ProjectSpec) (target : Node)
    (path : List String) (backend : Backend project.root) : (a : Act) → Except Exn a.Result → Prop
  | .quiet (.resolvePath _ _ _), .ok answer =>
    answer.1 = project ∧ answer.2.1 = absolute project.root path
  | .quiet (.safeSearchPaths _ _), .ok paths =>
    paths = (safeSearchPaths lower target path).map (absolute project.root)
  | .quiet (.relativePath _ searchPath), .ok text =>
    ∀ names, (∀ name ∈ names, PlainName name) → searchPath = absolute project.root names →
      text = relativeText names
  | .quiet (.adapterCall _ (.grep pattern searchPath include_ _)), .ok result =>
    ∀ names, (∀ name ∈ names, PlainName name) → searchPath = absolute project.root names →
      ∃ files : List (List String), (∀ file, file ∈ files ↔
          Grepped target path backend pattern include_ names file) ∧
        result = { text := grepText (files.map (absolute project.root)), isError := false,
                   truncated := false }
  | .quiet (.filterGrep _ text), .ok filtered =>
    filtered = filterSensitiveGrepResult casefold [project.root] text
  | _, _ => True

/-- A search path is searched under an include glob when it is the target or when its own path
matches. -/
def Passes (include_ : Option String) (path searched : List String) : Prop :=
  ∀ glob, include_ = some glob → glob ≠ "" →
    searched = path ∨ isIncluded (relativeText searched) glob = true

/-- The lines that the search of some paths leaves. -/
def Kept (casefold : Casefold) (target : Node) (path : List String)
    (backend : Backend project.root) (pattern : String) (include_ : Option String)
    (paths : List (List String)) (line : String) : Prop :=
  ∃ searched ∈ paths, Passes include_ path searched ∧
    ∃ file, Grepped target path backend pattern include_ searched file ∧
      line = absolute project.root file ∧
      isSensitiveGrepLine casefold [project.root] line = false

theorem absolute_head (h : root.toList.head? = some '/') (names : List String) :
    (absolute root names).toList.head? = some '/' := by
  have first {t : List Char} : (root.toList ++ t).head? = some '/' := by
    rw [List.head?_append, h]
    rfl
  unfold absolute Paths.join
  split_ifs with h1 h2 h3 h4
  · exact h
  · unfold Paths.isAbsolute at h2
    exact beq_iff_eq.1 h2
  · exact h
  · rw [String.toList_append]
    exact first
  · rw [String.toList_append, String.toList_append, List.append_assoc]
    exact first

theorem foundText_head (ls : List String) : (foundText ls).toList.head? = some 'F' := by
  unfold foundText
  simp only [String.toList_append, List.append_assoc]
  rfl

theorem grepText_dropped (ls : List String) :
    (grepText ls = "" ∨ grepText ls = "No files found") ↔ ls = [] := by
  unfold grepText
  by_cases h : ls = []
  · rw [if_pos h]
    exact iff_of_true (.inr rfl) h
  · rw [if_neg h]
    refine iff_of_false ?_ h
    rintro (he | he) <;> exact absurd (he ▸ foundText_head ls) (by decide)

/-- The lines that are left of the answer for one path. -/
theorem mem_kept_lines (casefold : Casefold) {searched : List String} {files : List (List String)}
    (hf : ∀ file, file ∈ files ↔ Grepped target path backend pattern include_ searched file)
    (line : String) :
    line ∈ (files.map (absolute project.root)).filter (fun l =>
        !isSensitiveGrepLine casefold [project.root] l) ↔
      ∃ file, Grepped target path backend pattern include_ searched file ∧
        line = absolute project.root file ∧
        isSensitiveGrepLine casefold [project.root] line = false := by
  rw [List.mem_filter, List.mem_map, Bool.not_eq_true']
  constructor
  · rintro ⟨⟨file, hm, rfl⟩, hs⟩
    exact ⟨file, (hf file).1 hm, rfl, hs⟩
  · rintro ⟨file, hg, rfl, hs⟩
    exact ⟨⟨file, (hf file).2 hg, rfl⟩, hs⟩

theorem kept_cons {searched line : _} {paths : List (List String)} :
    Kept casefold target path backend pattern include_ (searched :: paths) line ↔
      (Passes include_ path searched ∧
        ∃ file, Grepped target path backend pattern include_ searched file ∧
          line = absolute project.root file ∧
          isSensitiveGrepLine casefold [project.root] line = false) ∨
      Kept casefold target path backend pattern include_ paths line := by
  unfold Kept
  rw [List.exists_mem_cons_iff]

/-- What `searchPaths` collects. -/
def Collected (casefold : Casefold) (target : Node) (path : List String)
    (backend : Backend project.root) (pattern : String) (include_ : Option String)
    (paths : List (List String)) (results : List String) : Prop :=
  ∃ blocks : List (List String), (∀ b ∈ blocks, b ≠ []) ∧ results = blocks.map foundText ∧
    ∀ line, (∃ b ∈ blocks, line ∈ b) ↔
      Kept casefold target path backend pattern include_ paths line

/-- A root that is not searched adds nothing. -/
theorem Collected.skip {searched : List String} {paths : List (List String)} {results : List String}
    (h : Collected casefold target path backend pattern include_ paths results)
    (out : ¬ Passes include_ path searched) :
    Collected casefold target path backend pattern include_ (searched :: paths) results := by
  obtain ⟨blocks, hb, he, hl⟩ := h
  refine ⟨blocks, hb, he, fun line => ?_⟩
  rw [hl line, kept_cons, or_iff_right fun h => out h.1]

/-- A root that is searched adds the lines that are left of its answer, if there are any. -/
theorem Collected.add {searched : List String} {paths files : List (List String)}
    {results : List String} {filtered : String}
    (h : Collected casefold target path backend pattern include_ paths results)
    (pass : Passes include_ path searched)
    (hf : ∀ file, file ∈ files ↔ Grepped target path backend pattern include_ searched file)
    (text : filtered = grepText ((files.map (absolute project.root)).filter fun l =>
      !isSensitiveGrepLine casefold [project.root] l)) :
    Collected casefold target path backend pattern include_ (searched :: paths)
      (if filtered = "" ∨ filtered = "No files found" then results else filtered :: results) := by
  obtain ⟨blocks, hb, hres, hl⟩ := h
  have mem (line : String) := mem_kept_lines casefold hf line
  generalize (files.map (absolute project.root)).filter (fun l =>
    !isSensitiveGrepLine casefold [project.root] l) = left at text mem
  by_cases hleft : left = []
  · rw [if_pos (text ▸ (grepText_dropped left).2 hleft)]
    refine ⟨blocks, hb, hres, fun line => ?_⟩
    have none : ¬ ∃ file, Grepped target path backend pattern include_ searched file ∧
        line = absolute project.root file ∧
        isSensitiveGrepLine casefold [project.root] line = false := by
      rw [← mem line, hleft]
      exact List.not_mem_nil
    rw [hl line, kept_cons, or_iff_right fun h => none h.2]
  · rw [if_neg fun h => hleft ((grepText_dropped left).1 (text ▸ h))]
    refine ⟨left :: blocks, ?_, ?_, fun line => ?_⟩
    · intro b hm
      rcases List.mem_cons.1 hm with rfl | hm
      · exact hleft
      · exact hb b hm
    · rw [List.map_cons, ← hres, text, grepText, if_neg hleft]
    · rw [List.exists_mem_cons_iff, hl line, kept_cons, mem line, and_iff_right pass]

/-- The backend answers with absolute paths of one line each. -/
theorem line_of_grepped (hroot : project.root.toList.head? = some '/') {searched : List String}
    {files : List (List String)}
    (hf : ∀ file, file ∈ files ↔ Grepped target path backend pattern include_ searched file) :
    ∀ l ∈ files.map (absolute project.root), OneLine l ∧ l.toList.head? = some '/' := by
  intro l hm
  obtain ⟨file, hin, rfl⟩ := List.mem_map.1 hm
  have head := absolute_head hroot file
  refine ⟨⟨fun he => ?_, backend.oneLine _ _ _ ((hf file).1 hin).2.2⟩, head⟩
  rw [he] at head
  cases head

theorem yields_searchPaths (hroot : project.root.toList.head? = some '/')
    (plain : ∀ name ∈ path, PlainName name) (paths : List (List String))
    (plains : ∀ searched ∈ paths, ∀ name ∈ searched, PlainName name) :
    (searchPaths project sessionId pattern (absolute project.root path) include_
        (paths.map (absolute project.root))).Yields
      (Answers lower casefold project target path backend) fun r =>
        Collected casefold target path backend pattern include_ paths r.1 := by
  induction paths with
  | nil =>
    refine yields_pure ⟨[], by simp, rfl, fun line => iff_of_false (by simp) ?_⟩
    rintro ⟨_, h, -⟩
    exact absurd h List.not_mem_nil
  | cons searched paths ih =>
    have hp := plains searched List.mem_cons_self
    have rest := ih fun q hq => plains q (List.mem_cons_of_mem searched hq)
    rw [List.map_cons]
    unfold searchPaths
    extract_lets search
    have searched_or_not (skipped : Bool)
        (hs : skipped = false ↔ Passes include_ path searched) :
        (search skipped).Yields (Answers lower casefold project target path backend) fun r =>
          Collected casefold target path backend pattern include_ (searched :: paths) r.1 := by
      refine yields_ite (fun h => ?_) fun h => ?_
      · refine rest.mono fun r hr => hr.skip fun pass => ?_
        rw [hs.2 pass] at h
        exact Bool.false_ne_true h
      · have pass := hs.1 (Bool.eq_false_iff.2 h)
        refine yields_bind (yields_ask fun result hr => hr) fun result hr => ?_
        obtain ⟨files, hf, he⟩ := hr searched hp rfl
        extract_lets keep
        have kept (u : Unit) : (keep u).Yields (Answers lower casefold project target path backend)
            fun r => Collected casefold target path backend pattern include_
              (searched :: paths) r.1 := by
          refine yields_bind (yields_ask fun filtered hfil => hfil) fun filtered hfil => ?_
          refine yields_bind rest fun r hr => yields_pure (hr.add pass hf ?_)
          rw [← filter_grepText (line_of_grepped hroot hf), hfil, he]
        exact yields_ite (fun _ => yields_bind (yields_true _) fun u _ => kept u)
          fun _ => kept ()
    cases hi : include_.filter fun glob => decide (glob ≠ "") with
    | none =>
      refine searched_or_not false (iff_of_true rfl fun glob hg hne => ?_)
      rw [hg] at hi
      simp [hne] at hi
    | some glob =>
      obtain ⟨rfl, hne⟩ := Option.filter_eq_some_iff.1 hi
      rw [decide_eq_true_eq] at hne
      refine yields_ite (fun hs => ?_) fun hs => ?_
      · refine yields_bind (yields_ask fun text ht => ht) fun text ht => ?_
        refine searched_or_not _ ?_
        rw [Bool.not_eq_false', ht searched hp rfl]
        have other : searched ≠ path := fun he => hs (he ▸ rfl)
        constructor
        · intro hinc g hg _
          cases hg
          exact .inr hinc
        · intro pass
          exact (pass glob rfl hne).resolve_left other
      · rw [ne_eq, not_not] at hs
        have same : searched = path := absolute_injective hp plain hs
        exact searched_or_not false (iff_of_true rfl fun _ _ _ => .inl same)

/-! ## The metadata of Git -/

theorem plain_of_lowerChar_git {c : Char} (h : ∀ d ∈ lowerChar c, d ∈ ".git".toList) :
    isBlank c = false ∧ c ≠ '\\' := by
  by_cases hk : c = '\u212A'
  · subst hk
    decide
  · by_cases hd : c = '\u0130'
    · subst hd
      decide
    · rw [lowerChar_of hk hd] at h
      have hl := h _ List.mem_cons_self
      by_cases hc : c.toNat < 128
      · have small : ∀ n : Fin 128, (Char.ofNat n).toLower ∈ ".git".toList →
            isBlank (Char.ofNat n) = false ∧ Char.ofNat n ≠ '\\' := by
          decide +kernel
        simpa using small ⟨c.toNat, hc⟩ (by simpa using hl)
      · rw [toLower_of_not_ascii hc] at hl
        have ascii : ∀ d ∈ ".git".toList, d.toNat < 128 := List.all_iff_forall_prop.1 (by decide)
        exact absurd (ascii c hl) hc

/-- The names before and after one of a path, in its text. -/
theorem posix_around {before after : List String} {name : String} :
    ∃ l r, (posix (before ++ name :: after)).toList = l ++ (name.toList ++ r) ∧
      (∀ c, l.getLast? = some c → c = '/') ∧ ∀ c, r.head? = some c → c = '/' := by
  have tail : ∃ r, (posix (name :: after)).toList = name.toList ++ r ∧
      ∀ c, r.head? = some c → c = '/' := by
    obtain ⟨t, ht, hs⟩ := toList_intercalate_cons name after
    refine ⟨t, ht, fun c hc => ?_⟩
    have hne : t ≠ [] := fun he => by rw [he] at hc; cases hc
    exact (Option.some.inj ((hs hne).symm.trans hc)).symm
  obtain ⟨r, hr, hslash⟩ := tail
  cases before with
  | nil => exact ⟨[], r, by simpa using hr, fun c hc => by simp at hc, hslash⟩
  | cons first before =>
    refine ⟨(posix (first :: before)).toList ++ ['/'], r, ?_, fun c hc => ?_, hslash⟩
    · have : posix (first :: before ++ name :: after) =
          posix (first :: before) ++ "/" ++ posix (name :: after) :=
        String.intercalate_append_of_ne_nil (List.cons_ne_nil _ _) (List.cons_ne_nil _ _)
      rw [this, String.toList_append, String.toList_append, hr]
      simp
    · rw [List.getLast?_concat] at hc
      exact (Option.some.inj hc).symm

/-- What `slashed` does to one character. -/
def slash (c : Char) : Char := if c = '\\' then '/' else c

theorem slashed_toList (s : String) : (slashed s).toList = s.toList.map slash :=
    String.toList_ofList

/-- A root without the slashes at its end, then at least one slash. -/
theorem map_slash_root (root : String) : ∃ k, (root.toList ++ separator root).map slash =
    (trimSlashes (slashed root)).toList ++ '/' :: List.replicate k '/' := by
  have trimmed : (trimSlashes (slashed root)).toList =
      (root.toList.map slash).rdropWhile (· == '/') := by
    unfold trimSlashes
    rw [String.toList_ofList, slashed_toList]
    rfl
  have cut := List.rdropWhile_append_rtakeWhile (p := (· == '/')) (l := root.toList.map slash)
  have slashes : ∀ c ∈ (root.toList.map slash).rtakeWhile (· == '/') ++ (separator root).map slash,
      c = '/' := by
    intro c hc
    rcases List.mem_append.1 hc with hc | hc
    · have hp := List.mem_rtakeWhile_imp hc
      exact beq_iff_eq.1 hp
    · unfold separator at hc
      split_ifs at hc
      · exact absurd hc List.not_mem_nil
      · exact List.mem_singleton.1 hc
  have some_slash : (root.toList.map slash).rtakeWhile (· == '/') ++ (separator root).map slash ≠
      [] := by
    intro h
    obtain ⟨none, noSep⟩ := List.append_eq_nil_iff.1 h
    unfold separator at noSep
    split_ifs at noSep with hl
    · have hne : root.toList ≠ [] := fun he => by
        rw [he] at hl
        cases hl
      have hm : root.toList.map slash ≠ [] := by simpa using hne
      refine List.rtakeWhile_eq_nil_iff.1 none hm (beq_iff_eq.2 ?_)
      rw [List.getLast_map, Option.some.inj ((List.getLast?_eq_some_getLast hne).symm.trans hl)]
      rfl
    · exact absurd noSep (List.cons_ne_nil _ _)
  rw [List.map_append, ← cut, List.append_assoc, ← trimmed]
  generalize (root.toList.map slash).rtakeWhile (· == '/') ++ (separator root).map slash = tail
    at slashes some_slash
  obtain ⟨c, t, rfl⟩ := List.exists_cons_of_ne_nil some_slash
  refine ⟨t.length, ?_⟩
  rw [slashes c List.mem_cons_self,
    List.eq_replicate_of_mem fun d hd => slashes d (List.mem_cons_of_mem c hd),
    List.length_replicate]

/-- Blanks at the end of a text go no further than to what is not blank. -/
theorem rdropWhile_append_of {p : Char → Bool} {a b : List Char}
    (ha : ∀ c, a.getLast? = some c → p c = false) :
    ∃ b', b' <+: b ∧ (a ++ b).rdropWhile p = a ++ b' := by
  induction b using List.reverseRecOn with
  | nil =>
    refine ⟨[], List.nil_prefix, ?_⟩
    rw [List.append_nil, List.rdropWhile_eq_self_iff]
    intro hne h
    rw [ha _ (List.getLast?_eq_some_getLast hne)] at h
    exact Bool.false_ne_true h
  | append_singleton b c ih =>
    rw [← List.append_assoc, List.rdropWhile_concat]
    by_cases hc : p c = true
    · rw [if_pos hc]
      obtain ⟨b', hb, he⟩ := ih
      exact ⟨b', hb.trans (List.prefix_append b [c]), he⟩
    · rw [if_neg hc]
      exact ⟨b ++ [c], List.prefix_refl _, by rw [List.append_assoc]⟩

/-- A line that names a file in the metadata of Git looks sensitive. -/
theorem isSensitiveGrepLine_git {name : String} (hroot : root.toList.head? = some '/')
    (plain : ∀ name ∈ names, PlainName name) (hm : name ∈ names)
    (git : lowerName name = ".git") :
    isSensitiveGrepLine casefold [root] (absolute root names) = true := by
  have hne : names ≠ [] := List.ne_nil_of_mem hm
  obtain ⟨before, after, rfl⟩ := List.append_of_mem hm
  obtain ⟨l, r, around, slashL, slashR⟩ := @posix_around before after name
  have letters : ∀ c ∈ name.toList, isBlank c = false ∧ c ≠ '\\' := by
    intro c hc
    refine plain_of_lowerChar_git fun d hd => ?_
    have : d ∈ (lowerName name).toList := by
      rw [toList_lowerName]
      exact List.mem_flatMap_of_mem hc hd
    rwa [git] at this
  have text : (absolute root (before ++ name :: after)).toList =
      root.toList ++ separator root ++ l ++ name.toList ++ r := by
    rw [absolute_toList plain hne, around]
    simp only [List.append_assoc]
  have nonempty : name.toList ≠ [] := fun h =>
    (plain name hm).1 (String.toList_eq_nil_iff.1 h)
  have slashless : '/' ∉ name.toList := (plain name hm).2.2
  obtain ⟨r', hr', stripped⟩ : ∃ r', r' <+: r ∧
      (stripBlanks (absolute root (before ++ name :: after))).toList =
        root.toList ++ separator root ++ l ++ name.toList ++ r' := by
    have first : (absolute root (before ++ name :: after)).toList.dropWhile isBlank =
        (absolute root (before ++ name :: after)).toList :=
      dropWhile_of_head fun c hc => by
        rw [absolute_head hroot] at hc
        cases hc
        decide
    have last := rdropWhile_append_of (p := isBlank)
      (a := root.toList ++ separator root ++ l ++ name.toList) (b := r) fun c hc => by
        rw [List.getLast?_append_of_ne_nil _ nonempty] at hc
        exact (letters c (List.mem_of_getLast? hc)).1
    unfold stripBlanks
    rw [String.toList_ofList, first, text]
    exact last
  obtain ⟨k, rooted⟩ := map_slash_root root
  have same : name.toList.map slash = name.toList := by
    have kept : ∀ c ∈ name.toList, slash c = id c := fun c hc => if_neg (letters c hc).2
    rw [List.map_congr_left kept, List.map_id]
  have candidate : (slashed (stripBlanks (absolute root (before ++ name :: after)))).toList =
      (trimSlashes (slashed root)).toList ++ '/' :: (List.replicate k '/' ++ l.map slash ++
        (name.toList ++ r'.map slash)) := by
    rw [slashed_toList, stripped]
    simp only [List.map_append, same] at rooted ⊢
    rw [rooted]
    simp only [List.append_assoc, List.cons_append]
  unfold isSensitiveGrepLine
  generalize slashed (stripBlanks (absolute root (before ++ name :: after))) = text at candidate
  have nonblank : text ≠ "" := fun h => by
    rw [h] at candidate
    simp at candidate
  have under : ((trimSlashes (slashed root)).toList.flatMap casefold.fold ++ ['/']).isPrefixOf
      (text.toList.flatMap casefold.fold) = true := by
    rw [List.isPrefixOf_iff_prefix, candidate, List.flatMap_append, List.flatMap_cons,
      casefold.fold_slash, ← List.append_assoc]
    exact List.prefix_append _ _
  simp only [nonblank, if_false, List.map_cons, List.map_nil, List.find?_cons, under]
  have rest : (Text.drop ((trimSlashes (slashed root)).length + 1) text).toList =
      List.replicate k '/' ++ l.map slash ++ (name.toList ++ r'.map slash) := by
    unfold Text.drop
    rw [String.toList_ofList, candidate, List.append_cons]
    exact List.drop_left' (by rw [List.length_append, String.length_toList]; rfl)
  have piece : name.toList ∈ Text.splitBy (· == '/')
      (Text.drop ((trimSlashes (slashed root)).length + 1) text).toList := by
    rw [rest]
    refine Text.mem_splitBy (fun c hc => ?_) (fun c hc => ?_) fun c hc => ?_
    · exact beq_eq_false_iff_ne.2 fun h => slashless (h ▸ hc)
    · rw [List.getLast?_append] at hc
      rcases List.eq_nil_or_concat l with rfl | ⟨init, d, rfl⟩
      · have : c ∈ List.replicate k '/' := List.mem_of_getLast? (by simpa using hc)
        rw [List.eq_of_mem_replicate this]
        rfl
      · have := slashL d (by simp)
        subst this
        simp at hc
        rw [← hc]
        rfl
    · cases r' with
      | nil => cases hc
      | cons d t =>
        have := slashR d (by
          obtain ⟨u, rfl⟩ := hr'
          rfl)
        subst this
        cases hc
        rfl
  unfold isSensitive Text.parts Text.split
  refine List.any_eq_true.2 ⟨name, List.mem_filter.2 ⟨?_, ?_⟩, isSensitivePart_git git⟩
  · exact List.mem_map.2 ⟨_, piece, String.ofList_toList⟩
  · exact decide_eq_true ⟨(plain name hm).1, (plain name hm).2.1⟩

/-! ## Files below a root -/

variable {node found : Node} {below rest : List String}

theorem valid_behind (valid : node.Valid) : (behind node).Valid := by
  induction node using Node.induct with
  | link dest ih => exact ih valid
  | _ => exact valid

theorem plain_of_walk (valid : node.Valid) (h : walk node below = some found) :
    ∀ name ∈ below, PlainName name := by
  induction below generalizing node with
  | nil => exact fun _ h => absurd h List.not_mem_nil
  | cons name below ih =>
    have vb := valid_behind valid
    rw [walk] at h
    split at h
    · rename_i entries hd
      rw [hd] at vb
      obtain ⟨child, hl, hw⟩ := Option.bind_eq_some_iff.1 h
      obtain ⟨hn, vc⟩ := Entries.valid_of_mem vb.2 _ (mem_of_lookup hl)
      intro other ho
      rcases List.mem_cons.1 ho with rfl | ho
      · exact hn
      · exact ih vc hw other ho
    · cases h

/-- Where no link is on the way, a walk goes on from what is found. -/
theorem walk_append (h : node.find below = some found) (rest : List String) :
    walk node (below ++ rest) = walk found rest := by
  induction below generalizing node with
  | nil =>
    rw [Node.find] at h
    rw [List.nil_append, Option.some.inj h]
  | cons name below ih =>
    cases node with
    | dir entries =>
      rw [find_dir_cons] at h
      obtain ⟨child, hl, hf⟩ := Option.bind_eq_some_iff.1 h
      rw [List.cons_append, walk]
      show (entries.toList.lookup name).bind (walk · (below ++ rest)) = walk found rest
      rw [hl]
      exact ih hf
    | _ => simp [Node.find] at h

theorem valid_of_find (valid : node.Valid) (h : node.find below = some found) : found.Valid := by
  induction below generalizing node with
  | nil =>
    rw [Node.find] at h
    exact Option.some.inj h ▸ valid
  | cons name below ih =>
    cases node with
    | dir entries =>
      rw [find_dir_cons] at h
      obtain ⟨child, hl, hf⟩ := Option.bind_eq_some_iff.1 h
      exact ih (Entries.valid_of_mem valid.2 _ (mem_of_lookup hl)).2 hf
    | _ => simp [Node.find] at h

/-- Away from the metadata of Git, a walk below what is clean meets no link. -/
theorem find_of_clean (clean : node.Clean path) (valid : node.Valid)
    (git : ∀ name ∈ rest, lowerName name ≠ ".git") (h : walk node rest = some .file) :
    node.find rest = some .file := by
  induction rest generalizing node path with
  | nil =>
    obtain ⟨searchable, -⟩ := clean [] node (fun _ h => absurd h List.not_mem_nil)
      (by rw [Node.find])
    rcases searchable with rfl | ⟨entries, rfl⟩
    · rw [Node.find]
    · cases h
  | cons name rest ih =>
    obtain ⟨searchable, -⟩ := clean [] node (fun _ h => absurd h List.not_mem_nil)
      (by rw [Node.find])
    rcases searchable with rfl | ⟨entries, rfl⟩
    · cases h
    · rw [walk] at h
      obtain ⟨child, hl, hw⟩ := Option.bind_eq_some_iff.1 h
      rw [find_dir_cons, hl]
      have vc := (Entries.valid_of_mem valid.2 _ (mem_of_lookup hl)).2
      have below : child.Clean (path ++ [name]) := fun rel f hg hf => by
        have := clean (name :: rel) f
          (fun n hn => (List.mem_cons.1 hn).elim (fun e => e ▸ git name List.mem_cons_self) (hg n))
          (by rw [find_dir_cons, hl]; exact hf)
        simpa using this
      exact ih below vc (fun n hn => git n (List.mem_cons_of_mem name hn)) hw

/-- Each search path is what it was given or a clean node below the target. -/
theorem clean_of_searched (valid : target.Valid) (plain : ∀ name ∈ path, PlainName name)
    (hs : isSensitive (posix path) = false) (link : target.isReparsePoint = false)
    {searched : List String} (hm : searched ∈ safeSearchPaths lower target path) :
    target = .special ∨ ∃ below found, searched = path ++ below ∧ target.find below = some found ∧
      found.Clean searched := by
  have whole (clean : target.Clean path) (h : searched = path) :
      ∃ below found, searched = path ++ below ∧ target.find below = some found ∧
        found.Clean searched := by
    subst h
    exact ⟨[], target, by simp, by rw [Node.find], clean⟩
  have directory (hd : target.Directory) (isDir : target.isDir = some true) :
      ∃ below found, searched = path ++ below ∧ target.find below = some found ∧
        found.Clean searched := by
    have h : Searched target path (target.search lower path) :=
      searched_search target path valid plain hs hd
    unfold safeSearchPaths at hm
    rw [isDir] at hm
    by_cases excluded : (target.search lower path).2 = true
    · simp only [excluded, if_true] at hm
      exact h.roots.safe searched hm
    · simp only [excluded, Bool.false_eq_true, if_false, List.mem_singleton] at hm
      exact whole (h.whole (Bool.eq_false_iff.2 excluded)).2 hm
  cases target with
  | file => exact .inr (whole (clean_file hs) (List.mem_singleton.1 hm))
  | dir entries => exact .inr (directory (.inr ⟨entries, rfl⟩) rfl)
  | sealedDir => exact .inr (directory (.inl rfl) rfl)
  | link dest => cases link
  | special => exact .inl rfl
  | unknown => exact absurd hm List.not_mem_nil

theorem walk_special (h : walk .special rest = some .file) : False := by
  cases rest with
  | nil => cases h
  | cons name rest =>
    rw [walk] at h
    cases h

/-- What is reported below a search path, and does not look sensitive, is expected. -/
theorem expected_of_grepped (valid : target.Valid) (plain : ∀ name ∈ path, PlainName name)
    (hs : isSensitive (posix path) = false) (link : target.isReparsePoint = false)
    (hroot : project.root.toList.head? = some '/') {searched : List String}
    (hm : searched ∈ safeSearchPaths lower target path)
    (grepped : Grepped target path backend pattern include_ searched file)
    (unflagged : isSensitiveGrepLine casefold [project.root] (absolute project.root file) = false) :
    Expected target path backend pattern include_ file := by
  obtain ⟨⟨below, rfl, hw⟩, hp, hit⟩ := grepped
  have plains : ∀ name ∈ path ++ below, PlainName name := fun name hn =>
    (List.mem_append.1 hn).elim (plain name) (plain_of_walk valid hw name)
  have git : ∀ name ∈ path ++ below, lowerName name ≠ ".git" := fun name hn hg => by
    have flagged : isSensitiveGrepLine casefold [project.root]
        (absolute project.root (path ++ below)) = true :=
      isSensitiveGrepLine_git hroot plains hn hg
    exact Bool.noConfusion (flagged.symm.trans unflagged)
  rcases clean_of_searched valid plain hs link hm with rfl | ⟨root, found, rfl, hf, clean⟩
  · exact absurd hw walk_special
  · obtain ⟨rest, rfl⟩ := (List.prefix_append_right_inj path).1 hp
    rw [walk_append hf] at hw
    have gitRest : ∀ name ∈ rest, lowerName name ≠ ".git" := fun name hn =>
      git name (List.mem_append_right path (List.mem_append_right root hn))
    have inRest := find_of_clean clean (valid_of_find valid hf) gitRest hw
    have inside : target.find (root ++ rest) = some .file := by rw [find_append hf, inRest]
    refine ⟨⟨⟨root ++ rest, rfl, ?_⟩, List.prefix_append _ _, hit⟩, ⟨root ++ rest, rfl, inside⟩, ?_⟩
    · rw [walk_append hf, hw]
    · have := (clean rest .file gitRest inRest).2
      rwa [List.append_assoc] at this

/-! ## The text of the outcome -/

theorem mem_splitlines_blocks {blocks : List (List String)} (hb : ∀ b ∈ blocks, b ≠ [])
    (h : ∀ b ∈ blocks, ∀ l ∈ b, OneLine l) (hne : blocks ≠ []) :
    Text.splitlines ("\n".intercalate (blocks.map foundText)) =
      blocks.flatMap fun b => header b.length :: b := by
  have joined : "\n".intercalate (blocks.map foundText) =
      "\n".intercalate (blocks.flatMap fun b => header b.length :: b) := by
    clear h
    induction blocks with
    | nil => rfl
    | cons b blocks ih =>
      rw [List.map_cons, List.flatMap_cons, foundText_eq (hb b List.mem_cons_self)]
      by_cases hl : blocks = []
      · subst hl
        simp
      · rw [String.intercalate_cons_of_ne_nil (by simpa using hl),
          String.intercalate_append_of_ne_nil (List.cons_ne_nil _ _) ?_,
          ih (fun c hc => hb c (List.mem_cons_of_mem b hc)) hl]
        obtain ⟨c, rest, rfl⟩ := List.exists_cons_of_ne_nil hl
        exact List.cons_ne_nil _ _
  rw [joined]
  refine splitlines_intercalate ?_ fun l hl => ?_
  · obtain ⟨c, rest, rfl⟩ := List.exists_cons_of_ne_nil hne
    exact List.cons_ne_nil _ _
  · obtain ⟨b, hm, hl⟩ := List.mem_flatMap.1 hl
    rcases List.mem_cons.1 hl with rfl | hl
    · exact oneLine_header _
    · exact h b hm l hl

/-- An answer of `code_search` reports a file. -/
def Reported (root : String) (outcome : Outcome) (file : List String) : Prop :=
  ∃ text, ("text", Json.str text) ∈ outcome.data ∧ absolute root file ∈ Text.splitlines text

theorem oneLine_of_kept (hroot : project.root.toList.head? = some '/') {paths : List (List String)}
    {line : String} (h : Kept casefold target path backend pattern include_ paths line) :
    OneLine line ∧ line.toList.head? = some '/' := by
  obtain ⟨searched, -, -, file, grepped, rfl, -⟩ := h
  have head := absolute_head hroot file
  refine ⟨⟨fun he => ?_, backend.oneLine _ _ _ grepped.2.2⟩, head⟩
  rw [he] at head
  cases head

theorem header_head (n : ℕ) : (header n).toList.head? = some 'F' := by
  obtain ⟨tail, -, ht⟩ := header_toList n
  rw [ht]
  rfl

theorem reported_iff_kept (hroot : project.root.toList.head? = some '/')
    {paths : List (List String)} {results : List String} {outcome : Outcome} {relative : String}
    (collected : Collected casefold target path backend pattern include_ paths results)
    (data : outcome.data = [("path", .str relative), ("text", .str (if results.isEmpty then
      "No files found" else "\n".intercalate results))]) :
    Reported project.root outcome file ↔
      Kept casefold target path backend pattern include_ paths (absolute project.root file) := by
  obtain ⟨blocks, nonempty, rfl, lines⟩ := collected
  have head := absolute_head hroot file
  have stated (text : String) : ("text", Json.str text) ∈ outcome.data ↔
      text = if (blocks.map foundText).isEmpty then "No files found"
        else "\n".intercalate (blocks.map foundText) := by
    rw [data]
    simp
  unfold Reported
  simp only [stated, exists_eq_left]
  rw [← lines]
  by_cases hne : blocks = []
  · subst hne
    have none : Text.splitlines "No files found" = ["No files found"] := by decide +kernel
    simp only [List.map_nil, List.isEmpty_nil, if_true, none, List.mem_singleton, List.not_mem_nil,
      false_and, exists_false, iff_false]
    intro he
    rw [he] at head
    exact absurd head (by decide)
  · have full : (blocks.map foundText).isEmpty = false := by simpa using hne
    rw [full, if_neg Bool.false_ne_true, mem_splitlines_blocks nonempty ?_ hne, List.mem_flatMap]
    · refine exists_congr fun b => and_congr_right fun _ => ?_
      rw [List.mem_cons, or_iff_right]
      intro he
      rw [he, header_head] at head
      cases head
    · intro b hb l hl
      exact (oneLine_of_kept hroot ((lines l).1 ⟨b, hb, hl⟩)).1

/-! ## Exactly the expected files -/

/-- No file is lost: it lies below a search path that is searched under the include glob, and its
line does not look sensitive. -/
def NoneLost (lower : String → String) (casefold : Casefold) (target : Node) (path : List String)
    (backend : Backend project.root) (pattern : String) (include_ : Option String) : Prop :=
  ∀ file, Expected target path backend pattern include_ file →
    (∃ searched ∈ safeSearchPaths lower target path, searched <+: file ∧
      Passes include_ path searched) ∧
      isSensitiveGrepLine casefold [project.root] (absolute project.root file) = false

theorem plain_of_present (valid : target.Valid) (plain : ∀ name ∈ path, PlainName name)
    (h : Present target path file) : ∀ name ∈ file, PlainName name := by
  obtain ⟨below, rfl, hw⟩ := h
  exact fun name hn => (List.mem_append.1 hn).elim (plain name) (plain_of_walk valid hw name)

theorem kept_iff_expected (hroot : project.root.toList.head? = some '/') (valid : target.Valid)
    (plain : ∀ name ∈ path, PlainName name) (hs : isSensitive (posix path) = false)
    (link : target.isReparsePoint = false) :
    (∀ file, (∀ name ∈ file, PlainName name) →
      (Kept casefold target path backend pattern include_ (safeSearchPaths lower target path)
        (absolute project.root file) ↔ Expected target path backend pattern include_ file)) ↔
      NoneLost lower casefold target path backend pattern include_ := by
  constructor
  · intro same file expected
    have plainFile := plain_of_present valid plain expected.1.1
    obtain ⟨searched, hm, pass, other, grepped, he, unflagged⟩ := (same file plainFile).2 expected
    have := absolute_injective plainFile (plain_of_present valid plain grepped.1) he
    subst this
    exact ⟨⟨searched, hm, grepped.2.1, pass⟩, unflagged⟩
  · intro kept file plainFile
    constructor
    · rintro ⟨searched, hm, -, other, grepped, he, unflagged⟩
      have := absolute_injective plainFile (plain_of_present valid plain grepped.1) he
      subst this
      exact expected_of_grepped valid plain hs link hroot hm grepped unflagged
    · intro expected
      obtain ⟨⟨searched, hm, below, pass⟩, unflagged⟩ := kept file expected
      exact ⟨searched, hm, pass, file, ⟨expected.1.1, below, expected.1.2.2⟩, rfl, unflagged⟩

/-- On a POSIX host, a search below a root that is written in one way reports exactly the expected
files when none of them is lost. -/
theorem codeSearch_exact_iff (env : Env) (projectId sessionId pattern : String)
    (argument include_ : Option String) (lower : String → String) (casefold : Casefold)
    (project : ProjectSpec) (target : Node) (path : List String) (backend : Backend project.root)
    (hroot : project.root.toList.head? = some '/') (valid : target.Valid)
    (link : target.isReparsePoint = false) (plain : ∀ name ∈ path, PlainName name)
    (hs : isSensitive (posix path) = false) :
    (codeSearchBody env projectId sessionId pattern argument include_).Yields
      (Answers lower casefold project target path backend) fun outcome =>
        ((∀ file, (∀ name ∈ file, PlainName name) →
          (Reported project.root outcome file ↔
            Expected target path backend pattern include_ file)) ↔
          NoneLost lower casefold target path backend pattern include_) := by
  refine yields_bind (yields_true _) fun _ _ => yields_bind (yields_true _) fun _ _ => ?_
  refine yields_bind (yields_ask fun answer ha => ha) fun answer ha => ?_
  obtain ⟨answered, located, rest⟩ := answer
  obtain ⟨rfl, rfl⟩ : answered = project ∧ located = absolute project.root path := ha
  refine yields_bind (yields_ask fun paths hp => hp) fun paths hp => ?_
  have plains : ∀ searched ∈ safeSearchPaths lower target path, ∀ name ∈ searched,
      PlainName name := by
    intro searched hm
    rcases clean_of_searched valid plain hs link hm with rfl | ⟨below, found, rfl, hf, -⟩
    · rwa [List.mem_singleton.1 hm]
    · exact fun name hn => (List.mem_append.1 hn).elim (plain name) (plain_of_find valid hf name)
  subst hp
  refine yields_bind (yields_searchPaths hroot plain _ plains) fun found collected => ?_
  refine yields_bind (yields_true _) fun relative _ => yields_pure ?_
  rw [← kept_iff_expected hroot valid plain hs link]
  refine forall_congr' fun file => imp_congr_right fun _ => iff_congr ?_ Iff.rfl
  exact reported_iff_kept hroot collected rfl

/-! ## A search with a glob -/

def treeProject : ProjectSpec where
  projectId := "demo"
  root := "/srv/demo"
  allowedBranches := []
  requireCleanWorkspace := true
  codemcpConfig := "codemcp.toml"
  commands := []

/-- A pattern that stands in one file of the sample tree. -/
def introBackend : Backend treeProject.root where
  hits _ _ file := file == ["Docs", "intro.md"]
  oneLine _ _ file h := by
    rw [eq_of_beq h]
    exact List.all_iff_forall_prop.1 (by decide +kernel)

/-- `str.casefold` on ASCII. -/
def asciiFold : Casefold := ⟨fun c => [c.toLower], by decide⟩

/-- Nothing is lost of a search without a glob. -/
theorem codeSearch_sampleTree :
    (codeSearchBody {} "demo" "s" "intro" none none).Yields
      (Answers lowerName asciiFold treeProject sampleTree [] introBackend)
      fun outcome =>
        ((∀ file, (∀ name ∈ file, PlainName name) →
          (Reported treeProject.root outcome file ↔
            Expected sampleTree [] introBackend "intro" none file)) ↔
          NoneLost lowerName asciiFold sampleTree [] introBackend "intro" none) := by
  have valid : sampleTree.Valid := by
    refine ⟨by decide, ?_⟩
    simp only [Entries.Valid, Node.Valid, Entries.toList, PlainName]
    decide
  exact codeSearch_exact_iff {} "demo" "s" "intro" none none lowerName asciiFold
    treeProject sampleTree []
    introBackend (by decide) valid rfl (by simp) (by decide)

/-- The project of the sample tree, with a session in it. -/
def treeAnswer : (a : Act) → Except Exn a.Result
  | .quiet .refreshIfChanged => .ok none
  | .quiet .snapshot => .ok [("demo", treeProject)]
  | .quiet (.store (.getSession _)) =>
    .ok (some { sessionId := "s", projectId := "demo", ownerId := Database.localOwnerId
                status := .active, createdAt := 0, updatedAt := 0 })
  | .quiet (.store (.getSessionAuthContext _)) => .ok none
  | .quiet (.resolvePath ..) => .ok (treeProject, absolute treeProject.root [], ".")
  | .quiet (.safeSearchPaths ..) =>
    .ok ((safeSearchPaths lowerName sampleTree []).map (absolute treeProject.root))
  | .quiet (.relativePath _ path) =>
    match [[], ["Docs"], ["src", "main.py"]].find? fun names =>
        absolute treeProject.root names = path with
    | some names => .ok (relativeText names)
    | none => .error .other
  | _ => .error .other

theorem answers_treeAnswer (casefold : Casefold) (a : Act) :
    Answers lowerName casefold treeProject sampleTree [] introBackend a (treeAnswer a) := by
  cases a with
  | git | command => trivial
  | quiet q => cases q with
    | resolvePath => exact ⟨rfl, rfl⟩
    | safeSearchPaths => exact rfl
    | store c => cases c <;> trivial
    | adapterCall _ subtool => cases subtool <;> trivial
    | relativePath _ path =>
      unfold treeAnswer
      dsimp only
      split
      · rename_i names hf
        intro others plain he
        have same := of_decide_eq_true (List.find?_some (p := fun names : List String =>
          decide (absolute treeProject.root names = path)) hf)
        have plainNames : ∀ l ∈ [[], ["Docs"], ["src", "main.py"]], ∀ name ∈ l, PlainName name := by
          simp [PlainName]
        rw [absolute_injective (plainNames names (List.mem_of_find?_eq_some hf)) plain
          (same.trans he)]
      · trivial
    | _ => trivial

/-- A safe directory whose own name does not match the glob is not searched, and the file in it that
does is lost. -/
theorem intro_not_reported :
    ¬ (codeSearchBody {} "demo" "s" "intro" none (some "*.md")).Yields
      (Answers lowerName asciiFold treeProject sampleTree [] introBackend) fun outcome =>
        ∀ file, (∀ name ∈ file, PlainName name) → (Reported treeProject.root outcome file ↔
          Expected sampleTree [] introBackend "intro" (some "*.md") file) := by
  intro h
  have hr : ((codeSearchBody {} "demo" "s" "intro" none (some "*.md")).run
      (fun a (_ : Unit) => treeAnswer a) fun _ => ()).1 =
        .ok { data := [("path", .str "."), ("text", .str "No files found")]
              changedFiles := [] } := by
    decide +kernel
  have stands : Present sampleTree [] ["Docs", "intro.md"] := ⟨_, rfl, rfl⟩
  have same := h.run (fun a _ => answers_treeAnswer asciiFold a) hr
  have expected : Expected sampleTree [] introBackend "intro" (some "*.md") ["Docs", "intro.md"] :=
    ⟨⟨stands, List.nil_prefix, by decide⟩, ⟨_, rfl, rfl⟩, by decide +kernel⟩
  obtain ⟨text, ht, hl⟩ := (same ["Docs", "intro.md"] (by simp [PlainName])).2 expected
  have none : text = "No files found" := by simpa using ht
  rw [none] at hl
  exact absurd hl (by decide +kernel)

end SearchResults

end CodemcpBridge
