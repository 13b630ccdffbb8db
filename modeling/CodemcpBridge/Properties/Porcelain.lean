import CodemcpBridge.Async.Oracle
import CodemcpBridge.Encoding.Utf8
import CodemcpBridge.GitGuard
import CodemcpBridge.ProjectRegistry.Names

/-!
# What Git lists

Git ends every field of a listing with a NUL.  The paths of a status and the blobs of a tree are
read back from such a listing as they were written, whatever characters a path is made of.
-/

namespace CodemcpBridge

/-! ## Fields -/

/-- Fields, each ended by a NUL. -/
def terminated (fields : List (List Char)) : String :=
  String.ofList (fields.flatMap fun field => field ++ ['\x00'])

theorem split_terminated {fields : List (List Char)} (h : ∀ field ∈ fields, '\x00' ∉ field) :
    Text.split '\x00' (terminated fields) = fields.map String.ofList ++ [""] := by
  have pieces : Text.splitBy (· == '\x00') (fields.flatMap fun field => field ++ ['\x00']) =
      fields ++ [[]] := by
    induction fields with
    | nil => rfl
    | cons field fields ih =>
      have plain : ∀ c ∈ field, (c == '\x00') = false := fun c hc =>
        beq_eq_false_iff_ne.2 fun he => h field List.mem_cons_self (he ▸ hc)
      rw [List.flatMap_cons, List.append_assoc, List.singleton_append,
        Text.splitBy_append plain rfl, ih fun f hf => h f (List.mem_cons_of_mem field hf)]
      rfl
  unfold Text.split terminated
  rw [String.toList_ofList, pieces, List.map_append]
  rfl

namespace GitGuard

/-! ## A status -/

/-- The letters of a rename and of a copy. -/
def isMove (c : Char) : Bool := c == 'R' || c == 'C'

/-- An entry of `status --porcelain=v1 -z`. -/
structure PorcelainRecord where
  index : Char
  worktree : Char
  path : String
  original : Option String
  status_ok : index ≠ '\x00' ∧ worktree ≠ '\x00'
  named : ∀ name ∈ path :: original.toList, name ≠ "" ∧ '\x00' ∉ name.toList
  moved : original.isSome = true ↔ isMove index = true ∨ isMove worktree = true

namespace PorcelainRecord

variable (r : PorcelainRecord)

def paths : List String := r.path :: r.original.toList

/-- The field of the status and the path, and that of the original path if there is one. -/
def fields : List (List Char) :=
  (r.index :: r.worktree :: ' ' :: r.path.toList) :: r.original.toList.map String.toList

theorem nul_notMem : ∀ field ∈ r.fields, '\x00' ∉ field := by
  intro field hf hm
  rcases List.mem_cons.1 hf with rfl | hf
  · simp only [List.mem_cons] at hm
    rcases hm with hm | hm | hm | hm
    · exact r.status_ok.1 hm.symm
    · exact r.status_ok.2 hm.symm
    · exact absurd hm (by decide)
    · exact (r.named r.path List.mem_cons_self).2 hm
  · obtain ⟨name, hn, rfl⟩ := List.mem_map.1 hf
    exact (r.named name (List.mem_cons_of_mem r.path hn)).2 hm

/-- One entry is read back, and nothing of what follows it. -/
theorem porcelainPaths_fields (rest : List String) :
    porcelainPaths (r.fields.map String.ofList ++ rest) = r.paths ++ porcelainPaths rest := by
  have long : ¬ (String.ofList (r.index :: r.worktree :: ' ' :: r.path.toList)).length < 3 := by
    rw [String.length_ofList]
    simp only [List.length_cons]
    omega
  have path :
      Text.drop 3 (String.ofList (r.index :: r.worktree :: ' ' :: r.path.toList)) = r.path := by
    unfold Text.drop
    rw [String.toList_ofList]
    exact String.ofList_toList
  have letters : ((String.ofList (r.index :: r.worktree :: ' ' :: r.path.toList)).toList.take 2).any
      (fun c => c == 'R' || c == 'C') = (isMove r.index || isMove r.worktree) := by
    rw [String.toList_ofList]
    simp [isMove]
  cases ho : r.original with
  | none =>
    have still : (isMove r.index || isMove r.worktree) = false := by
      rw [← Bool.not_eq_true, Bool.or_eq_true, ← r.moved, ho]
      exact Bool.false_ne_true
    unfold fields paths
    rw [ho]
    show porcelainPaths (_ :: rest) = _
    rw [porcelainPaths.eq_def]
    dsimp only
    rw [if_neg long, letters, still, path]
    rfl
  | some original =>
    have moves : (isMove r.index || isMove r.worktree) = true := by
      rw [Bool.or_eq_true, ← r.moved, ho]
      rfl
    have ne : original ≠ "" := (r.named original (by rw [ho]; simp)).1
    unfold fields paths
    rw [ho]
    show porcelainPaths (_ :: String.ofList original.toList :: rest) = _
    rw [porcelainPaths.eq_def]
    dsimp only
    rw [if_neg long, letters, moves, path, String.ofList_toList, if_pos rfl, if_neg ne]
    rfl

end PorcelainRecord

/-- The output of `status --porcelain=v1 -z` for these entries. -/
def porcelain (records : List PorcelainRecord) : String :=
  terminated (records.flatMap PorcelainRecord.fields)

theorem porcelainPaths_porcelain (records : List PorcelainRecord) :
    porcelainPaths (Text.split '\x00' (porcelain records)) =
      records.flatMap PorcelainRecord.paths := by
  have plain : ∀ field ∈ records.flatMap PorcelainRecord.fields, '\x00' ∉ field := by
    intro field hf
    obtain ⟨r, -, hr⟩ := List.mem_flatMap.1 hf
    exact r.nul_notMem field hr
  unfold porcelain
  rw [split_terminated plain]
  clear plain
  induction records with
  | nil => rfl
  | cons r records ih =>
    rw [List.flatMap_cons, List.flatMap_cons, List.map_append, List.append_assoc,
      r.porcelainPaths_fields, ih]

/-- The entry of a file that was renamed. -/
def renamed : PorcelainRecord where
  index := 'R'
  worktree := ' '
  path := "new"
  original := some "old"
  status_ok := by decide +kernel
  named := by decide +kernel
  moved := by decide +kernel

/-- The entry of a file that Git does not track. -/
def untracked (path : String) (h : path ≠ "" ∧ '\x00' ∉ path.toList) : PorcelainRecord where
  index := '?'
  worktree := '?'
  path
  original := none
  status_ok := by decide +kernel
  named name hn := List.mem_singleton.1 hn ▸ h
  moved := by decide +kernel

example : porcelain [renamed, untracked "a b" (by decide +kernel)] =
    "R  new\x00old\x00?? a b\x00" := by
  decide +kernel

/-! ## A tree -/

/-- An entry of `ls-tree -r -z`. -/
structure TreeEntry where
  mode : String
  type : String
  objectId : String
  path : String
  tokens : ∀ token ∈ [mode, type, objectId],
    token ≠ "" ∧ ∀ c ∈ token.toList, Text.isSpace c = false ∧ c ≠ '\x00'
  path_ok : '\x00' ∉ path.toList

namespace TreeEntry

variable (e : TreeEntry)

def isBlob : Bool := e.type == "blob"

def header : List Char := e.mode.toList ++ ' ' :: (e.type.toList ++ ' ' :: e.objectId.toList)

def line : List Char := e.header ++ '\t' :: e.path.toList

theorem token_spaceless {token : String} (h : token ∈ [e.mode, e.type, e.objectId]) :
    ∀ c ∈ token.toList, Text.isSpace c = false :=
  fun c hc => ((e.tokens token h).2 c hc).1

theorem forall_mem_header {P : Char → Prop} (space : P ' ')
    (h : ∀ token ∈ [e.mode, e.type, e.objectId], ∀ c ∈ token.toList, P c) :
    ∀ c ∈ e.header, P c := by
  intro c hc
  unfold header at hc
  simp only [List.mem_append, List.mem_cons] at hc
  rcases hc with hc | rfl | hc | rfl | hc
  · exact h e.mode (by simp) c hc
  · exact space
  · exact h e.type (by simp) c hc
  · exact space
  · exact h e.objectId (by simp) c hc

theorem nul_notMem_line : '\x00' ∉ e.line := by
  intro hm
  rcases List.mem_append.1 hm with hm | hm
  · exact e.forall_mem_header (P := (· ≠ '\x00')) (by decide)
      (fun token ht c hc => ((e.tokens token ht).2 c hc).2) _ hm rfl
  · rcases List.mem_cons.1 hm with hm | hm
    · exact absurd hm (by decide)
    · exact e.path_ok hm

theorem words_header : Text.words (String.ofList e.header) = [e.mode, e.type, e.objectId] := by
  have ne {token : String} (h : token ∈ [e.mode, e.type, e.objectId]) : token.toList ≠ [] := by
    intro he
    exact (e.tokens token h).1 (String.toList_eq_nil_iff.1 he)
  unfold Text.words header
  rw [String.toList_ofList, Text.splitBy_append (e.token_spaceless (by simp)) (by decide),
    Text.splitBy_append (e.token_spaceless (by simp)) (by decide),
    Text.splitBy_of_forall (e.token_spaceless (by simp))]
  simp [ne]

/-- The path of an entry is read back, whatever tabs are in it. -/
theorem treeBlob_line : treeBlob (String.ofList e.line) =
    if e.isBlob then some (e.path, e.objectId) else none := by
  have untabbed : ∀ c ∈ e.header, (c == '\t') = false :=
    e.forall_mem_header (P := fun c => (c == '\t') = false) (by decide) fun token ht c hc => by
      refine beq_eq_false_iff_ne.2 fun he => ?_
      have := e.token_spaceless ht c hc
      rw [he] at this
      exact absurd this (by decide)
  obtain ⟨p, ps, hp⟩ := List.exists_cons_of_ne_nil
    (Text.splitBy_ne_nil (· == '\t') e.path.toList)
  have path : "\t".intercalate (String.ofList p :: ps.map String.ofList) = e.path := by
    rw [← String.toList_inj, String.toList_intercalate, ← List.map_cons, List.map_map, ← hp]
    simp only [String.toList_comp_ofList, List.map_id]
    exact Text.intercalate_splitBy '\t' e.path.toList
  unfold treeBlob Text.split line
  rw [String.toList_ofList, Text.splitBy_append untabbed rfl, hp]
  simp only [List.map_cons]
  rw [e.words_header, path]
  unfold isBlob
  by_cases hb : e.type = "blob"
  · rw [hb]
    rfl
  · rw [if_neg (by simpa using hb)]
    split
    · rename_i he
      simp only [List.cons.injEq] at he
      exact absurd he.2.1 hb
    · rfl

end TreeEntry

/-- The output of `ls-tree -r -z` for these entries. -/
def tree (entries : List TreeEntry) : String := terminated (entries.map TreeEntry.line)

/-- The last blob of a path. -/
def blobAt (entries : List TreeEntry) (path : String) : Option TreeEntry :=
  entries.reverse.find? fun e => e.isBlob && e.path == path

variable {d : Dict} {key : String} {value : Json}

theorem get?_set (key' : String) :
    (d.set key value).get? key' = if key = key' then some value else d.get? key' := by
  unfold Dict.set Dict.get?
  by_cases hk : d.any fun f => f.1 == key
  · rw [if_pos hk, List.find?_map]
    have same : ((fun f : String × Json => f.1 == key') ∘
        fun f => if f.1 == key then (key, value) else f) = fun f => f.1 == key' := by
      funext f
      show ((if f.1 == key then (key, value) else f).1 == key') = (f.1 == key')
      by_cases hf : f.1 = key
      · rw [if_pos (beq_iff_eq.2 hf), hf]
      · rw [if_neg (by simpa using hf)]
    rw [same]
    by_cases hkey : key = key'
    · rw [if_pos hkey, ← hkey]
      obtain ⟨f, hf, hfk⟩ := List.any_eq_true.1 hk
      cases hd : d.find? fun f => f.1 == key with
      | none => exact absurd hfk (List.find?_eq_none.1 hd f hf)
      | some g =>
        have found : g.1 == key := List.find?_some (p := fun f : String × Json => f.1 == key) hd
        rw [Option.map_some, Option.map_some, if_pos found]
    · rw [if_neg hkey]
      cases hd : d.find? fun f => f.1 == key' with
      | none => rfl
      | some g =>
        have found : g.1 = key' :=
          beq_iff_eq.1 (List.find?_some (p := fun f : String × Json => f.1 == key') hd)
        rw [Option.map_some, Option.map_some, Option.map_some,
          if_neg (by simpa [found] using Ne.symm hkey)]
  · rw [if_neg hk, List.find?_append]
    cases hd : d.find? fun f => f.1 == key' with
    | none => by_cases hkey : key = key' <;> simp [hkey]
    | some g =>
      have found : g.1 = key' :=
        beq_iff_eq.1 (List.find?_some (p := fun f : String × Json => f.1 == key') hd)
      rw [if_neg fun hkey => hk (List.any_eq_true.2
        ⟨g, List.mem_of_find?_eq_some hd, beq_iff_eq.2 (found.trans hkey.symm)⟩)]
      rfl

theorem keys_set_nodup (h : (d.map Prod.fst).Nodup) : ((d.set key value).map Prod.fst).Nodup := by
  unfold Dict.set
  by_cases hk : d.any fun f => f.1 == key
  · rw [if_pos hk, List.map_map]
    have same : ∀ f ∈ d, (Prod.fst ∘ fun f : String × Json =>
      if f.1 == key then (key, value) else f) f
        = f.1 := by
      intro f _
      show (if f.1 == key then (key, value) else f).1 = f.1
      by_cases hf : f.1 = key
      · rw [if_pos (beq_iff_eq.2 hf), hf]
      · rw [if_neg (by simpa using hf)]
    rwa [List.map_congr_left same]
  · rw [if_neg hk, List.map_append]
    refine List.nodup_append.2 ⟨h, List.nodup_singleton _, ?_⟩
    rintro a ha b hb rfl
    obtain ⟨f, hf, rfl⟩ := List.mem_map.1 ha
    refine hk (List.any_eq_true.2 ⟨f, hf, beq_iff_eq.2 ?_⟩)
    simpa using hb

/-- Values that are set one after another: the last one of a key stays. -/
theorem get?_foldl_set (blobs : List (String × String)) (d : Dict) (path : String) :
    Dict.get? (blobs.foldl (fun fileHashes blob =>
      Dict.set fileHashes blob.1 (.str blob.2)) d) path =
      match blobs.reverse.find? fun blob => blob.1 == path with
      | some blob => some (.str blob.2)
      | none => Dict.get? d path := by
  induction blobs generalizing d with
  | nil => rfl
  | cons blob blobs ih =>
    rw [List.foldl_cons, ih, List.reverse_cons, List.find?_append]
    cases (blobs.reverse.find? fun blob => blob.1 == path) with
    | some last => rfl
    | none =>
      rw [get?_set]
      by_cases hp : blob.1 = path
      · simp [hp]
      · simp [hp]

theorem keys_foldl_nodup (blobs : List (String × String)) {d : Dict} (h : (d.map Prod.fst).Nodup) :
    ((blobs.foldl (fun fileHashes blob => Dict.set fileHashes blob.1 (.str blob.2)) d).map
      Prod.fst).Nodup := by
  induction blobs generalizing d with
  | nil => exact h
  | cons blob blobs ih => exact ih (keys_set_nodup h)

/-- The blobs of a listing, by path, and no other entries. -/
theorem treeHashes_tree (entries : List TreeEntry) :
    ((treeHashes (Text.split '\x00' (tree entries))).map Prod.fst).Nodup ∧
      ∀ path, (treeHashes (Text.split '\x00' (tree entries))).get? path =
        (blobAt entries path).map fun e => .str e.objectId := by
  have lines : ∀ line ∈ entries.map TreeEntry.line, '\x00' ∉ line := by
    intro line hl
    obtain ⟨e, -, rfl⟩ := List.mem_map.1 hl
    exact e.nul_notMem_line
  have blobs : (Text.split '\x00' (tree entries)).filterMap treeBlob =
      (entries.filter TreeEntry.isBlob).map fun e => (e.path, e.objectId) := by
    unfold tree
    rw [split_terminated lines, List.map_map, List.filterMap_append, List.filterMap_map]
    have empty : [""].filterMap treeBlob = [] := by decide
    rw [empty, List.append_nil]
    clear lines
    induction entries with
    | nil => rfl
    | cons e entries ih =>
      rw [List.filterMap_cons, ih]
      simp only [Function.comp_apply, e.treeBlob_line]
      by_cases hb : e.isBlob
      · rw [if_pos hb, List.filter_cons_of_pos hb]
        rfl
      · rw [if_neg hb, List.filter_cons_of_neg hb]
  unfold treeHashes
  rw [blobs]
  refine ⟨keys_foldl_nodup _ List.nodup_nil, fun path => ?_⟩
  rw [get?_foldl_set, ← List.map_reverse, ← List.filter_reverse, List.find?_map]
  unfold blobAt
  rw [List.find?_filter]
  simp only [Function.comp_apply, Bool.decide_and, Bool.decide_eq_true]
  cases entries.reverse.find? fun e => e.isBlob && e.path == path <;> rfl

theorem tokens_of_all {tokens : List String} (h : (tokens.all fun token => token != "" &&
      token.toList.all fun c => !Text.isSpace c && c != '\x00') = true) :
    ∀ token ∈ tokens, token ≠ "" ∧ ∀ c ∈ token.toList, Text.isSpace c = false ∧ c ≠ '\x00' := by
  intro token ht
  obtain ⟨ne, plain⟩ := Bool.and_eq_true_iff.1 (List.all_eq_true.1 h token ht)
  refine ⟨bne_iff_ne.1 ne, fun c hc => ?_⟩
  obtain ⟨space, nul⟩ := Bool.and_eq_true_iff.1 (List.all_eq_true.1 plain c hc)
  exact ⟨(Bool.not_eq_true' _).mp space, bne_iff_ne.1 nul⟩

/-- A blob whose path has a tab in it. -/
def tabbed : TreeEntry where
  mode := "100644"
  type := "blob"
  objectId := "9f"
  path := "a\tb"
  tokens := tokens_of_all (by decide +kernel)
  path_ok := by decide +kernel

/-- The commit of a submodule. -/
def submodule : TreeEntry where
  mode := "160000"
  type := "commit"
  objectId := "3c"
  path := "vendor"
  tokens := tokens_of_all (by decide +kernel)
  path_ok := by decide +kernel

example : treeHashes (Text.split '\x00' (tree [tabbed, submodule])) = [("a\tb", .str "9f")] := by
  decide +kernel

/-! ## What an inspection returns -/

/-- What Git prints for the commands of an inspection. -/
def printed (branch head : String) (records : List PorcelainRecord) (entries : List TreeEntry)
    (arguments : List String) : String :=
  if arguments = ["rev-parse", "--abbrev-ref", "HEAD"] then branch
  else if arguments = ["rev-parse", "HEAD"] then head
  else if arguments = ["status", "--porcelain=v1", "--untracked-files=all", "-z"] then
    porcelain records
  else if arguments = ["ls-tree", "-r", "-z", "--full-tree", "HEAD"] then tree entries
  else ""

/-- Git answers with the bytes of what it prints, as `_run` decodes them. -/
def answer (print : List String → String) : (a : Act) → Unit → Except Exn a.Result
  | .git _ arguments, _ => .ok (Text.decodeReplace (print arguments).toUTF8)
  | .quiet _, _ | .command .., _ => .error .timeoutError

/-- What an inspection returns when Git prints this. -/
def inspect {α : Type} (print : List String → String) (x : Body α) : Except Exn α :=
  (Async.Prog.run (answer print) x fun _ => ()).1

/-- What an inspection reads, in terms of what Git prints. -/
theorem inspect_status (root : String) (print : List String → String) :
    inspect print (status root) = .ok
      { branch := Text.strip (print ["rev-parse", "--abbrev-ref", "HEAD"])
        head := Text.strip (print ["rev-parse", "HEAD"])
        dirty := !(porcelainPaths (Text.split '\x00' (print
          ["status", "--porcelain=v1", "--untracked-files=all", "-z"]))).isEmpty
        changedFiles := porcelainPaths (Text.split '\x00' (print
          ["status", "--porcelain=v1", "--untracked-files=all", "-z"])) } := by
  conv_rhs =>
    rw [← Text.decodeReplace_toUTF8 (print ["rev-parse", "--abbrev-ref", "HEAD"]),
      ← Text.decodeReplace_toUTF8 (print ["rev-parse", "HEAD"]),
      ← Text.decodeReplace_toUTF8 (print
        ["status", "--porcelain=v1", "--untracked-files=all", "-z"])]
  rfl

theorem inspect_snapshot {root : String} {print : List String → String} {s : GitStatus}
    (h : inspect print (status root) = .ok s) :
    inspect print (snapshot root) = .ok
      { branch := s.branch, head := s.head, dirty := s.dirty, changedFiles := s.changedFiles
        fileHashes := treeHashes (Text.split '\x00' (print
          ["ls-tree", "-r", "-z", "--full-tree", "HEAD"])) } := by
  rw [inspect_status] at h
  cases h
  conv_rhs =>
    rw [← Text.decodeReplace_toUTF8 (print ["rev-parse", "--abbrev-ref", "HEAD"]),
      ← Text.decodeReplace_toUTF8 (print ["rev-parse", "HEAD"]),
      ← Text.decodeReplace_toUTF8 (print
        ["status", "--porcelain=v1", "--untracked-files=all", "-z"]),
      ← Text.decodeReplace_toUTF8 (print ["ls-tree", "-r", "-z", "--full-tree", "HEAD"])]
  rfl

/-- An inspection returns every path and every blob that Git lists. -/
theorem inspection_lossless (root branch head : String) (records : List PorcelainRecord)
    (entries : List TreeEntry) :
    inspect (printed branch head records entries) (status root) =
        .ok { branch := Text.strip branch, head := Text.strip head
              dirty := decide (records ≠ []), changedFiles :=
                records.flatMap PorcelainRecord.paths } ∧
      ∃ fileHashes : Dict, inspect (printed branch head records entries) (snapshot root) =
          .ok { branch := Text.strip branch, head := Text.strip head
                dirty := decide (records ≠ [])
                changedFiles := records.flatMap PorcelainRecord.paths, fileHashes } ∧
        (fileHashes.map Prod.fst).Nodup ∧
        ∀ path, fileHashes.get? path = (blobAt entries path).map fun e => .str e.objectId := by
  have dirty : (!(records.flatMap PorcelainRecord.paths).isEmpty) = decide (records ≠ []) := by
    cases records with
    | nil => rfl
    | cons r records => rfl
  have read : inspect (printed branch head records entries) (status root) = .ok
      { branch := Text.strip branch, head := Text.strip head
        dirty := decide (records ≠ []), changedFiles :=
          records.flatMap PorcelainRecord.paths } := by
    rw [← dirty, ← porcelainPaths_porcelain]
    exact inspect_status root (printed branch head records entries)
  exact ⟨read, _, inspect_snapshot read, treeHashes_tree entries⟩

end GitGuard

end CodemcpBridge
