import CodemcpBridge.Idle
import CodemcpBridge.Repository

/-!
# No external update is lost

`file_write` and `file_edit` read the file, compute its new content and replace it after one more
look at Git.  Nothing but this look stands between the bytes that were read and those that are
replaced: they are the same just when Git has found the file changed or the file holds them when the
look is over.
-/

namespace CodemcpBridge

open Async (Prog)
open Body
open Async.Prog (wpOk_bind wpOk_mono wpOk_pure wpOk_raise wpOk_handle wpOk_lift)

namespace LostUpdate

/-! ## A file among other writers -/

/-- A call at work on one file. -/
structure Desk where
  head : Commit
  index : Contents
  /-- All files, by their absolute paths. -/
  files : Contents
  /-- What the call has read of the file, newest first. -/
  read : List ByteArray := []
  /-- The call has replaced the file. -/
  replaced : Bool := false
  /-- When the call last looked at Git, what others had done to the file since it was read was seen.
  -/
  noticed : Prop := True

def Desk.repo (root : String) (w : Desk) : Repository where
  head := w.head
  index := w.index
  worktree path := w.files (Text.join root path)

/-- Others do whatever they like with the repository and its files. -/
def Others (w w' : Desk) : Prop := ∃ head index files, w' = { w with head, index, files }

/-- The arguments of the command that looks at the worktree. -/
def looking : List String := ["status", "--porcelain=v1", "--untracked-files=all", "-z"]

/-- What is read of the target. -/
def opened (target : String) : (q : Quiet) → Except Exn q.Result → List ByteArray
  | .readBytes path, .ok raw => if path = target then [raw] else []
  | _, _ => []

def replaces (target : String) : (q : Quiet) → Except Exn q.Result → Bool
  | .replace _ path, .ok _ => path == target
  | _, _ => false

section Rules

variable (git : GitRules) (root path : String)

/-- A call among others, who write between any two acts that it awaits. -/
def rules (legal : Act → Desk → Prop) :
    Async.Rules Act (fun a => Except Exn a.Result) Desk where
  asked _ _ := True
  before
    | .quiet (.acquire _), w, w₁ => Others w w₁
    | .quiet _, w, w₁ => w₁ = w
    | _, w, w₁ => Others w w₁
  legal := legal
  answer
    | .quiet (.resolvePath ..), w, r, w' =>
      (∀ v, r = .ok v → v.1.root = root ∧ v.2.1 = Text.join root path ∧ v.2.2 = path) ∧ w' = w
    | .quiet q, w, r, w' => ∃ files, quietStep q w.files r files ∧ w' = { w with
        files
        read := opened (Text.join root path) q r ++ w.read
        replaced := replaces (Text.join root path) q r || w.replaced }
    | .git _ arguments, w, r, w' => ∃ head index files,
      (arguments = looking → ∀ output, r = .ok output → (w.repo root).Prints git output) ∧
      w' = { w with
        head, index, files
        noticed := if arguments = looking then
            ∀ raw, w.read = [raw] →
              (w.repo root).Changed git path ∨ files (Text.join root path) = some raw
          else w.noticed }
    | .command .., w, _, w' => Others w w'

end Rules

/-- What a call demands when it writes: a file in the place of the target only by a replacement with
what was computed from the bytes that it read first, and then `kept` of whether the target holds
them. -/
def Replaces (target : String) (computed : ByteArray → ByteArray → Prop)
    (kept : Prop → Desk → Prop) : Act → Desk → Prop
  | .quiet (.writeTemp temp _), _ => temp ≠ target
  | .quiet (.unlink path), _ => path ≠ target
  | .quiet (.replace temp path), w => temp ≠ target ∧ (path = target → ∃ raw new,
      w.read.getLast? = some raw ∧ w.files temp = some new ∧ computed raw new ∧
        kept (w.files target = some raw) w)
  | _, _ => True

/-- The file has been replaced, or it was found to hold the new content already. -/
def Done (computed : ByteArray → ByteArray → Prop) (w : Desk) : Prop :=
  w.replaced = true ∨ ∃ raw new, w.read = [new, raw] ∧ computed raw new

/-- What `file_write` computes from the bytes that it has read. -/
def writes (expected : HashText) (path content : String) (raw new : ByteArray) : Prop :=
  Json.sha256Bytes raw = expected.normalized ∧ encodeExistingText raw path content = pure new

/-- What `file_edit` computes from the bytes that it has read. -/
def edits (path oldString newString : String) (raw new : ByteArray) : Prop :=
  replaceExactText raw path oldString newString = pure new

/-- In every run of both calls a replacement has `kept` of whether the bytes that it replaces are
those that were read, and a call that succeeds has replaced the file or found its new content. -/
def Updates (kept : Prop → Desk → Prop) (git : GitRules) (root path : String) (env : Env)
    (projectId sessionId requested description operationId : String) (head : Commit)
    (index files : Contents) : Prop :=
  (∀ content expected, (fileWriteBody env projectId sessionId requested content expected description
    operationId).wpOk (rules git root path
      (Replaces (Text.join root path) (writes expected path content) kept))
      (fun _ => Done (writes expected path content)) { head, index, files }) ∧
  (∀ oldString newString, (fileEditBody env projectId sessionId requested oldString newString
    description operationId).wpOk (rules git root path
      (Replaces (Text.join root path) (edits path oldString newString) kept))
      (fun _ => Done (edits path oldString newString)) { head, index, files })

/-- The bytes are those that were read just when what others had done was noticed. -/
def whenNoticed (kept : Prop) (w : Desk) : Prop := kept ↔ w.noticed

variable {git : GitRules} {root path : String} {computed : ByteArray → ByteArray → Prop}
  {kept : Prop → Desk → Prop} {α β : Type} {w w' : Desk}

/-! ## Acts beside the file -/

/-- The act neither reads a file nor writes one. -/
def Aside : Act → Prop
  | .quiet q => q.plain = true
  | _ => True

theorem aside_of_idle {x : Body α} (h : x.Asks Act.Idle) : x.Asks Aside :=
  h.mono fun a ha => by
    cases a with
    | quiet q => exact ha
    | git root arguments => trivial
    | command p c => trivial

theorem legal_of_aside {a : Act} (ha : Aside a) :
    Replaces (Text.join root path) computed kept a w := by
  cases a with
  | quiet q => cases q <;> trivial
  | _ => trivial

/-- What a call has done to the file. -/
def At (read : List ByteArray) (replaced : Bool) (w : Desk) : Prop :=
  w.read = read ∧ w.replaced = replaced

theorem at_of_others {read : List ByteArray} {replaced : Bool} (hw : At read replaced w)
    (h : Others w w') : At read replaced w' := by
  obtain ⟨head, index, files, rfl⟩ := h
  exact hw

theorem opened_of_plain {q : Quiet} {target : String} {r : Except Exn q.Result}
    (h : q.plain = true) : opened target q r = [] := by
  cases q <;> first | rfl | cases h

theorem replaces_of_plain {q : Quiet} {target : String} {r : Except Exn q.Result}
    (h : q.plain = true) : replaces target q r = false := by
  cases q <;> first | rfl | cases h

/-- Acts beside the file leave what the call has done to it. -/
theorem wp_aside {x : Body α} {read : List ByteArray} {replaced : Bool} (hx : x.Asks Aside)
    (hw : At read replaced w) :
    x.wp (rules git root path (Replaces (Text.join root path) computed kept))
      (fun _ => At read replaced) w := by
  refine Prog.Asks.wp (fun _ _ => trivial)
    (fun {a v v₁} ha hv hb => ⟨legal_of_aside ha, fun r v' hr => ?_⟩) hx hw
  have early : At read replaced v₁ := by
    cases a with
    | quiet q =>
      cases q with
      | acquire p => exact at_of_others hv hb
      | _ => exact hb ▸ hv
    | _ => exact at_of_others hv hb
  cases a with
  | quiet q =>
    cases q with
    | resolvePath p path allowRoot => exact hr.2 ▸ early
    | _ =>
      obtain ⟨files, -, rfl⟩ := hr
      refine ⟨?_, ?_⟩
      · dsimp only
        rw [opened_of_plain ha]
        exact early.1
      · dsimp only
        rw [replaces_of_plain ha]
        exact early.2
  | git root arguments =>
    obtain ⟨head, index, files, -, rfl⟩ := hr
    exact early
  | command p c => exact at_of_others early hr

theorem wpOk_aside {x : Body α} {read : List ByteArray} {replaced : Bool} {T : α → Desk → Prop}
    (hx : x.Asks Aside) (hw : At read replaced w) (h : ∀ a w', At read replaced w' → T a w') :
    x.wpOk (rules git root path (Replaces (Text.join root path) computed kept)) T w :=
  Prog.wp_mono (fun _ w' hat a _ => h a w' hat) (wp_aside hx hw)

theorem wpOk_idle {x : Body α} {read : List ByteArray} {replaced : Bool} {T : α → Desk → Prop}
    (hx : x.Asks Act.Idle) (hw : At read replaced w) (h : ∀ a w', At read replaced w' → T a w') :
    x.wpOk (rules git root path (Replaces (Text.join root path) computed kept)) T w :=
  wpOk_aside (aside_of_idle hx) hw h

/-! ## From the first read to the replacement -/

variable {raw cur content : ByteArray}

/-- The file has been read, and the last look at Git has found nothing changed. -/
def Looked (root path : String) (raw : ByteArray) (w : Desk) : Prop :=
  At [raw] false w ∧ (w.files (Text.join root path) = some raw ↔ w.noticed)

/-- A quiet act that returns. -/
theorem wpOk_quiet {q : Quiet} {T : q.Result → Desk → Prop} (ha : ∀ p, q ≠ .acquire p)
    (hr : ∀ p path b, q ≠ .resolvePath p path b)
    (legal : Replaces (Text.join root path) computed kept (.quiet q) w)
    (h : ∀ v files, quietStep q w.files (.ok v) files → T v { w with
      files
      read := opened (Text.join root path) q (.ok v) ++ w.read
      replaced := replaces (Text.join root path) q (.ok v) || w.replaced }) :
    (quiet q).wpOk (rules git root path (Replaces (Text.join root path) computed kept)) T w := by
  refine (Prog.wp_ask _ _).2 ⟨trivial, fun w₁ hb => ?_⟩
  have same : w₁ = w := by
    cases q with
    | acquire p => exact absurd rfl (ha p)
    | _ => exact hb
  subst same
  refine ⟨legal, fun r w' hs => ?_⟩
  rintro v rfl
  cases q with
  | resolvePath p path b => exact absurd rfl (hr p path b)
  | _ =>
    obtain ⟨files, hs, rfl⟩ := hs
    exact h v files hs

theorem wpOk_orReject {x : Body α} {T : α → Desk → Prop} {legal : Act → Desk → Prop}
    {code : ErrorCode} {message : String} {details : Dict} {status : Status} {retryable : Bool}
    (hx : x.wpOk (rules git root path legal) T w) :
    (x.orReject code message details status retryable).wpOk (rules git root path legal) T w := by
  refine wpOk_handle hx fun e y w' he => ?_
  split_ifs at he
  cases he
  exact wpOk_raise

theorem wpOk_read {T : ByteArray → Desk → Prop} {read : List ByteArray} (hw : At read false w)
    (h : ∀ raw w', At (raw :: read) false w' → w'.files = w.files → w'.noticed = w.noticed →
      w.files (Text.join root path) = some raw → T raw w') :
    (quiet (.readBytes (Text.join root path))).wpOk
      (rules git root path (Replaces (Text.join root path) computed kept)) T w := by
  refine wpOk_quiet nofun nofun trivial fun raw files hs => ?_
  obtain ⟨hraw, rfl⟩ := hs
  refine h raw _ ⟨?_, hw.2⟩ rfl rfl (hraw raw rfl)
  dsimp only [opened]
  rw [if_pos rfl, hw.1]
  rfl

/-- A look at the worktree that finds nothing changed. -/
theorem wpOk_looking {T : String → Desk → Prop} (hw : At [raw] false w)
    (h : ∀ porcelain w', At [raw] false w' →
      (GitGuard.porcelainPaths (Text.split '\x00' porcelain) = [] → Looked root path raw w') →
      T porcelain w') :
    (GitGuard.run root looking).wpOk
      (rules git root path (Replaces (Text.join root path) computed kept)) T w := by
  refine (Prog.wp_ask _ _).2 ⟨trivial, fun w₁ hb => ⟨trivial, fun r w' hr => ?_⟩⟩
  have h₁ : At [raw] false w₁ := at_of_others hw hb
  rintro porcelain rfl
  obtain ⟨head, index, files, prints, rfl⟩ := hr
  refine h _ _ h₁ fun nil => ⟨h₁, ?_⟩
  have none (p : String) : ¬ (w₁.repo root).Changed git p := by
    rw [← (prints rfl porcelain rfl).mem, nil]
    exact List.not_mem_nil
  dsimp only
  rw [if_pos rfl, h₁.1]
  constructor
  · rintro holds _ ⟨⟩
    exact .inr holds
  · intro seen
    exact (seen raw rfl).resolve_left (none path)

theorem wpOk_status {T : GitStatus → Desk → Prop} (hw : At [raw] false w)
    (h : ∀ status w', At [raw] false w' → (status.dirty = false → Looked root path raw w') →
      T status w') :
    (GitGuard.status root).wpOk
      (rules git root path (Replaces (Text.join root path) computed kept)) T w := by
  have run (arguments : List String) : (GitGuard.run root arguments).Asks Aside :=
    Prog.asks_ask trivial
  unfold GitGuard.status
  refine wpOk_bind (wpOk_aside (run _) hw fun branch w₁ h₁ => ?_)
  refine wpOk_bind (wpOk_aside (run _) h₁ fun hash w₂ h₂ => ?_)
  refine wpOk_bind (wpOk_looking h₂ fun porcelain w₃ h₃ clean => ?_)
  exact wpOk_pure (h _ _ h₃ fun dirty => clean (by simpa using dirty))

/-- The baseline of the commit: nothing is changed when Git looks. -/
theorem wpOk_requireBaseline {head moved dirty : String} {T : GitStatus → Desk → Prop}
    (hw : At [raw] false w) (h : ∀ before w', Looked root path raw w' → T before w') :
    (GitGuard.requireBaseline root head moved dirty).wpOk
      (rules git root path (Replaces (Text.join root path) computed kept)) T w := by
  refine wpOk_bind (wpOk_status hw fun before w' _ clean => ?_)
  dsimp only
  by_cases moved : Text.lower before.head ≠ Text.lower head
  · rw [if_pos moved]
    exact wpOk_raise
  · rw [if_neg moved]
    by_cases hd : before.dirty = true
    · rw [if_pos hd]
      exact wpOk_raise
    · rw [if_neg hd]
      exact wpOk_pure (h _ _ (clean (Bool.eq_false_iff.2 hd)))

/-- The target has been compared with the new content. -/
structure Compared (root path : String) (raw cur : ByteArray) (w : Desk) : Prop where
  at_ : At [cur, raw] false w
  current : w.files (Text.join root path) = some cur
  noticed : w.files (Text.join root path) = some raw ↔ w.noticed

/-- A look at the filesystem leaves everything as it is. -/
theorem wpOk_isFile {T : Bool → Desk → Prop}
    (h : T (w.files (Text.join root path)).isSome w) :
    (quiet (.isFile (Text.join root path))).wpOk
      (rules git root path (Replaces (Text.join root path) computed kept)) T w := by
  refine wpOk_quiet nofun nofun trivial fun b files hs => ?_
  obtain ⟨hb, rfl⟩ := hs
  rw [hb b rfl]
  exact h

theorem wpOk_exists {T : Bool → Desk → Prop} (there : (w.files (Text.join root path)).isSome = true)
    (h : T true w) : (quiet (.exists_ (Text.join root path))).wpOk
      (rules git root path (Replaces (Text.join root path) computed kept)) T w := by
  refine wpOk_quiet nofun nofun trivial fun b files hs => ?_
  obtain ⟨hb, rfl⟩ := hs
  rw [hb b rfl there]
  exact h

theorem wpOk_checkTarget {T : Bool → Desk → Prop} (hw : Looked root path raw w)
    (h : ∀ cur w', Compared root path raw cur w' → T (decide (cur = content)) w') :
    (GitGuard.checkTarget (Text.join root path) path content (some true)).wpOk
      (rules git root path (Replaces (Text.join root path) computed kept)) T w := by
  unfold GitGuard.checkTarget
  rw [if_pos rfl]
  refine wpOk_bind (wpOk_isFile ?_)
  by_cases there : (w.files (Text.join root path)).isSome = true
  · rw [there]
    refine wpOk_bind (wpOk_exists there ?_)
    rw [if_pos rfl]
    refine wpOk_bind (wpOk_isFile ?_)
    rw [there]
    refine wpOk_bind (wpOk_exists there ?_)
    rw [if_pos rfl]
    refine wpOk_bind (wpOk_orReject (wpOk_read hw.1 fun cur w' hat hfiles hnoticed hcur => ?_))
    refine wpOk_pure (h cur w' ⟨hat, hfiles ▸ hcur, ?_⟩)
    rw [hfiles, hnoticed]
    exact hw.2
  · rw [Bool.eq_false_iff.2 there]
    exact wpOk_bind wpOk_raise

theorem wpOk_writeFile {T : Unit → Desk → Prop} (hw : Compared root path raw cur w)
    (hc : computed raw content) (h : ∀ w', At [cur, raw] true w' → T () w') :
    (GitGuard.writeFile (Text.join root path) path content).wpOk
      (rules git root path (Replaces (Text.join root path) computed whenNoticed)) T w := by
  unfold GitGuard.writeFile
  refine wpOk_bind (wpOk_orReject (wpOk_quiet nofun nofun trivial fun temp files hs => ?_))
  obtain ⟨free, rfl⟩ := hs
  have apart : temp ≠ Text.join root path := by
    rintro rfl
    exact absurd (free.symm.trans hw.current) nofun
  refine wpOk_handle (wpOk_bind (wpOk_quiet nofun nofun apart fun _ files hs => ?_)) ?_
  · obtain rfl : files = _ := hs
    refine wpOk_quiet nofun nofun ⟨apart, fun _ => ⟨raw, content, ?_, ?_, hc, ?_⟩⟩ ?_
    · exact congrArg List.getLast? hw.at_.1
    · exact Function.update_self ..
    · dsimp only [whenNoticed]
      rw [Function.update_of_ne apart.symm, Function.update_of_ne apart.symm]
      exact hw.noticed
    · refine fun _ files _ => h _ ⟨hw.at_.1, ?_⟩
      exact Bool.or_eq_true_iff.2 (.inl (beq_self_eq_true _))
  · intro e y w' he
    split_ifs at he
    cases he
    refine wpOk_bind (wpOk_handle (wpOk_quiet nofun nofun apart fun _ _ _ => wpOk_raise) ?_)
    intro e y w' he
    split_ifs at he
    cases he
    exact wpOk_pure wpOk_raise

theorem wpOk_commitFileBytes {head description sessionId : String} {commitMode : CommitMode}
    {expectedBranch : Option String} (hw : At [raw] false w) (hc : computed raw content) :
    (GitGuard.commitFileBytes root path content head description true commitMode sessionId
      expectedBranch).wpOk (rules git root path
        (Replaces (Text.join root path) computed whenNoticed)) (fun _ => Done computed) w := by
  rw [GitGuard.commitFileBytes_eq]
  refine wpOk_bind (wpOk_aside GitGuard.asks_requireHead hw fun _ w₁ h₁ => ?_)
  refine wpOk_bind (wpOk_aside GitGuard.asks_fileCommitArguments h₁ fun arguments w₂ h₂ => ?_)
  refine wpOk_bind (wpOk_requireBaseline h₂ fun before w₃ h₃ => ?_)
  refine wpOk_bind (wpOk_checkTarget h₃ fun cur w₄ h₄ => ?_)
  by_cases same : cur = content
  · rw [if_pos (decide_eq_true same)]
    refine wpOk_pure (.inr ⟨raw, content, ?_, hc⟩)
    rw [h₄.at_.1, same]
  · rw [if_neg (by simpa using same)]
    refine wpOk_bind (wpOk_writeFile h₄ hc fun w₅ h₅ => ?_)
    have aside : (GitGuard.status root).Asks Aside := aside_of_idle idle_status
    refine wpOk_aside (asks_exceptBridge ?_ fun _ => asks_reject) h₅ fun _ w₆ h₆ => .inl h₆.2
    exact GitGuard.asks_finishFile aside (GitGuard.asks_verifyAmendTarget aside fun _ => trivial)
      trivial trivial

/-! ## The calls -/

variable {env : Env} {p : String} {read : List ByteArray} {replaced : Bool}

theorem done_of_at (hw : At read replaced w) (h : Done computed w) (hw' : At read replaced w') :
    Done computed w' := by
  unfold Done at *
  rwa [hw'.1, hw'.2, ← hw.1, ← hw.2]

/-- What is done stays done beside the file. -/
theorem wp_done {x : Body α} (hx : x.Asks Aside) (hw : Done computed w) :
    x.wp (rules git root path (Replaces (Text.join root path) computed kept))
      (fun _ => Done computed) w :=
  Prog.wp_mono (fun _ _ h => done_of_at ⟨rfl, rfl⟩ hw h) (wp_aside hx ⟨rfl, rfl⟩)

theorem wpOk_withLock {x : Body α} {T : α → Desk → Prop} (hw : At read replaced w)
    (hx : ∀ w', At read replaced w' → x.wpOk
      (rules git root path (Replaces (Text.join root path) computed kept))
      (fun _ => Done computed) w')
    (h : ∀ a w', Done computed w' → T a w') : (withLock p x).wpOk
      (rules git root path (Replaces (Text.join root path) computed kept)) T w := by
  refine wpOk_bind (wpOk_idle (idle_quiet (by rfl)) hw fun _ w₁ h₁ => ?_)
  refine Prog.wpOk_ensuring (hx w₁ h₁) (fun r w₂ h₂ => ?_) fun a w' ha => h a w' (ha a rfl)
  by_cases hr : ∃ a, r = .ok a
  · obtain ⟨a, rfl⟩ := hr
    exact Prog.wp_mono (fun _ _ h _ _ => h) (wp_done
      (aside_of_idle (idle_quiet (by rfl))) (h₂ a rfl))
  · exact Prog.wp_mono (fun _ _ _ a ha => absurd ⟨a, ha⟩ hr)
      (wp_aside (aside_of_idle (idle_quiet (by rfl))) ⟨rfl, rfl⟩)

theorem wpOk_resolvePath {requested : Option String} {allowRoot : Bool}
    {T : ProjectSpec × String × String → Desk → Prop} (hw : At read replaced w)
    (h : ∀ project w', At read replaced w' → project.root = root →
      T (project, Text.join root path, path) w') :
    (quiet (.resolvePath p requested allowRoot)).wpOk
      (rules git root path (Replaces (Text.join root path) computed kept)) T w := by
  refine (Prog.wp_ask _ _).2 ⟨trivial, fun w₁ hb => ⟨trivial, fun r w' hr => ?_⟩⟩
  obtain rfl : w₁ = w := hb
  rintro ⟨project, target, normalized⟩ rfl
  obtain ⟨hv, rfl⟩ := hr
  obtain ⟨hroot, htarget, hnormalized⟩ := hv _ rfl
  dsimp only at hroot htarget hnormalized
  rw [htarget, hnormalized]
  exact h project w' hw hroot

theorem wpOk_readFile {T : ByteArray → Desk → Prop} (hw : At [] false w)
    (h : ∀ raw w', At [raw] false w' → T raw w') : (readFile (Text.join root path)).wpOk
      (rules git root path (Replaces (Text.join root path) computed kept)) T w :=
  wpOk_orReject (wpOk_read hw fun raw w' hat _ _ _ => h raw w' hat)

/-- A value that a program returns without asking for anything. -/
theorem wpOk_cases {x : Body β} {T : β → Desk → Prop} {legal : Act → Desk → Prop}
    (hx : (∃ b, x = pure b) ∨ ∃ e, x = Prog.raise e) (h : ∀ b, x = pure b → T b w) :
    x.wpOk (rules git root path legal) T w := by
  rcases hx with ⟨b, hb⟩ | ⟨e, he⟩
  · exact hb ▸ wpOk_pure (h b hb)
  · exact he ▸ wpOk_raise

theorem decodeText_cases (raw : ByteArray) (path : String) :
    (∃ text, decodeText raw path = pure text) ∨ ∃ e, decodeText raw path = Prog.raise e := by
  unfold decodeText
  split
  · exact .inl ⟨_, rfl⟩
  · exact .inr ⟨_, rfl⟩

theorem encodeExistingText_cases (raw : ByteArray) (path content : String) :
    (∃ new, encodeExistingText raw path content = pure new) ∨
      ∃ e, encodeExistingText raw path content = Prog.raise e := by
  unfold encodeExistingText
  rcases decodeText_cases raw path with ⟨text, h⟩ | ⟨e, h⟩
  all_goals rw [h]
  · exact .inl ⟨_, rfl⟩
  · exact .inr ⟨_, rfl⟩

theorem replaceExactText_cases (raw : ByteArray) (path oldString newString : String) :
    (∃ new, replaceExactText raw path oldString newString = pure new) ∨
      ∃ e, replaceExactText raw path oldString newString = Prog.raise e := by
  unfold replaceExactText
  rcases decodeText_cases raw path with ⟨text, h⟩ | ⟨e, h⟩
  all_goals rw [h]
  · by_cases none : Text.countFrom (matchLineEndings raw oldString) 0 text.toList = 0
    · exact .inr ⟨_, if_pos none⟩
    · by_cases many : Text.countFrom (matchLineEndings raw oldString) 0 text.toList > 1
      · exact .inr ⟨_, (if_neg none).trans (if_pos many)⟩
      · exact .inl ⟨_, (if_neg none).trans (if_neg many)⟩
  · exact .inr ⟨_, rfl⟩

/-- The commit of what was computed, and what follows it. -/
theorem wpOk_change {project : ProjectSpec} {checkpoint : CheckpointRecord}
    {description sessionId : String} {commitMode : CommitMode} (hw : At [raw] false w)
    (hroot : project.root = root) (hc : computed raw content) :
    (do
      let newHead ← GitGuard.commitFileBytes project.root path content checkpoint.head description
        true commitMode sessionId checkpoint.branch
      let checkpointData ← finishMutation env project checkpoint newHead
      pure (newHead, checkpointData) : Body (String × Dict)).wpOk
        (rules git root path (Replaces (Text.join root path) computed whenNoticed))
        (fun _ => Done computed) w := by
  rw [hroot]
  refine wpOk_bind (wpOk_mono (fun newHead w₁ h₁ => ?_) (wpOk_commitFileBytes hw hc))
  refine wpOk_bind (Prog.wp_mono (fun _ _ h _ _ => wpOk_pure h) (wp_done ?_ h₁))
  exact aside_of_idle idle_finishMutation

/-- **An update is lost just when it was not noticed.** -/
theorem updates_whenNoticed (git : GitRules) (root path : String) (env : Env)
    (projectId sessionId requested description operationId : String) (head : Commit)
    (index files : Contents) :
    Updates whenNoticed git root path env projectId sessionId requested description operationId head
      index files := by
  have start : At [] false { head, index, files } := ⟨rfl, rfl⟩
  have describe : (requireDescription description).Asks Act.Idle :=
    Prog.asks_ite asks_reject (Prog.asks_pure _)
  have size (name value : String) : (requireSize env.settings name value).Asks Act.Idle :=
    Prog.asks_ite asks_reject (Prog.asks_pure _)
  constructor
  · intro content expected
    have nul : (requireNoNul content).Asks Act.Idle := Prog.asks_ite asks_reject (Prog.asks_pure _)
    refine wpOk_bind (wpOk_idle (idle_of_passive passive_requireSession) start fun _ w₁ h₁ => ?_)
    refine wpOk_bind (wpOk_idle describe h₁ fun _ w₂ h₂ => ?_)
    cases expected with
    | malformed text => exact wpOk_bind wpOk_raise
    | hex digest =>
      refine wpOk_bind (wpOk_idle (size _ _) h₂ fun _ w₃ h₃ => ?_)
      refine wpOk_bind (wpOk_idle nul h₃ fun _ w₄ h₄ => ?_)
      refine wpOk_bind (wpOk_resolvePath h₄ fun project w₅ h₅ hroot => ?_)
      refine wpOk_bind (wpOk_idle idle_requireReadable h₅ fun _ w₆ h₆ => ?_)
      refine wpOk_bind (wpOk_withLock h₆ (fun w₇ h₇ => ?_) fun _ _ h => wpOk_pure h)
      refine wpOk_bind (wpOk_idle idle_beginMutation h₇ fun mutation w₈ h₈ => ?_)
      refine wpOk_bind (wpOk_idle idle_requireReadable h₈ fun _ w₉ h₉ => ?_)
      refine wpOk_bind (wpOk_readFile h₉ fun raw w h => ?_)
      dsimp only
      split_ifs with differs
      · exact wpOk_bind wpOk_raise
      refine wpOk_bind (wpOk_cases (encodeExistingText_cases ..) fun new encoded => ?_)
      split_ifs with large
      · exact wpOk_bind wpOk_raise
      · exact wpOk_change h hroot ⟨not_not.1 differs, encoded⟩
  · intro oldString newString
    refine wpOk_bind (wpOk_idle (idle_of_passive passive_requireSession) start fun _ w₁ h₁ => ?_)
    refine wpOk_bind (wpOk_idle describe h₁ fun _ w₂ h₂ => ?_)
    refine wpOk_bind (wpOk_idle (size _ _) h₂ fun _ w₃ h₃ => ?_)
    refine wpOk_bind (wpOk_idle (size _ _) h₃ fun _ w₄ h₄ => ?_)
    refine wpOk_bind (wpOk_resolvePath h₄ fun project w₅ h₅ hroot => ?_)
    refine wpOk_bind (wpOk_idle idle_requireReadable h₅ fun _ w₆ h₆ => ?_)
    refine wpOk_bind (wpOk_withLock h₆ (fun w₇ h₇ => ?_) fun _ _ h => wpOk_pure h)
    refine wpOk_bind (wpOk_idle idle_beginMutation h₇ fun mutation w₈ h₈ => ?_)
    refine wpOk_bind (wpOk_idle idle_requireReadable h₈ fun _ w₉ h₉ => ?_)
    refine wpOk_bind (wpOk_readFile h₉ fun raw w h => ?_)
    refine wpOk_bind (wpOk_cases (replaceExactText_cases ..) fun new replaced => ?_)
    dsimp only
    split_ifs with large
    · exact wpOk_bind wpOk_raise
    · exact wpOk_change h hroot replaced

/-! ## A write to an ignored file -/

def notesProject : ProjectSpec :=
  { projectId := "p", root := "/p", allowedBranches := ["*"], requireCleanWorkspace := true
    codemcpConfig := "codemcp.toml", commands := [] }

def notesSession : SessionRecord :=
  { sessionId := "s", projectId := "p", ownerId := Database.localOwnerId, status := .active
    createdAt := 0, updatedAt := 0 }

/-- What Git prints of a repository with nothing in it. -/
def printed (w : Desk) (root : String) (arguments : List String) : String :=
  if arguments = ["rev-parse", "--abbrev-ref", "HEAD"] then "main"
  else if arguments = ["rev-parse", "HEAD"] then w.head.id
  else if arguments = ["rev-parse", "--show-toplevel"] then root
  else ""

/-- The ignored file is written by somebody else while the call that has read it runs Git. -/
def overtaken (a : Act) (w : Desk) : Except Exn a.Result × Desk :=
  match a with
  | .git root arguments =>
    let files := if w.read.length = 1 then Function.update w.files "/p/notes.txt"
      (some "theirs".toUTF8)
      else w.files
    (.ok (printed w root arguments), { w with
      files
      noticed := if arguments = looking then
          ∀ raw, w.read = [raw] → (w.repo "/p").Changed ignoring "notes.txt" ∨
            files (Text.join "/p" "notes.txt") = some raw
        else w.noticed })
  | .quiet .snapshot => (.ok [("p", notesProject)], w)
  | .quiet .refreshIfChanged => (.ok none, w)
  | .quiet (.store (.getSession _)) => (.ok (some notesSession), w)
  | .quiet (.store (.getSessionAuthContext _)) => (.ok none, w)
  | .quiet (.store (.findSessionWipCheckpoint ..)) => (.ok none, w)
  | .quiet (.store (.createCheckpoint c p s o owner kind branch head refName before)) =>
    (.ok { checkpointId := c, projectId := p, sessionId := s, operationId := o, ownerId := owner
           kind, branch, head, refName, before := .value before
           createdAt := 0, updatedAt := 0 }, w)
  | .quiet (.resolvePath ..) => (.ok (notesProject, "/p/notes.txt", "notes.txt"), w)
  | .quiet (.exists_ path) => (.ok (w.files path).isSome, w)
  | .quiet (.isFile path) => (.ok (w.files path).isSome, w)
  | .quiet (.isDir _) => (.ok true, w)
  | .quiet (.resolved path) => (.ok path, w)
  | .quiet (.fileSize _) => (.ok 3, w)
  | .quiet (.readHead _) => (.ok "old".toUTF8, w)
  | .quiet (.readBytes path) => match w.files path with
    | some raw =>
      (.ok raw, { w with
        read := opened (Text.join "/p" "notes.txt") (.readBytes path) (.ok raw) ++ w.read })
    | none => (.error .other, w)
  | .quiet .uuid => (.ok "00000000000000000000000000000001", w)
  | .quiet (.acquire _) | .quiet (.release _) => (.ok (), w)
  | .quiet (.makeTemp _) =>
    if w.files "/p/.temp" = none then
      (.ok "/p/.temp",
        { w with files := Function.update w.files "/p/.temp" (some ByteArray.empty) })
    else (.error .other, w)
  | .quiet (.writeTemp temp content) =>
    (.ok (), { w with files := Function.update w.files temp (some content) })
  | .quiet _ => (.error .other, w)
  | .command .. => (.error .other, w)

/-- The ignored file as the call finds it. -/
def notesDesk : Desk where
  head := emptyCommit
  index _ := none
  files path := if path = "/p/notes.txt" then some "old".toUTF8 else none

/-- The call after `n` answers. -/
def overtakenWrite (n : ℕ) : Async.Task Act (fun a => Except Exn a.Result)
    (Except Exn Outcome) × Desk :=
  Async.Task.follow overtaken n (fileWriteBody {} "p" "s" "notes.txt" "mine"
    (.hex (Json.sha256Bytes "old".toUTF8)) "write" "o").task notesDesk

/-- Nothing is tracked. -/
def Untracked (w : Desk) : Prop := w.head = emptyCommit ∧ w.index = fun _ => none

variable {legal : Act → Desk → Prop}

theorem overtaken_git {arguments : List String} (hw : Untracked w) :
    (∃ w₁, (rules ignoring "/p" "notes.txt" legal).before (.git root arguments) w w₁ ∧
      (rules ignoring "/p" "notes.txt" legal).answer (.git root arguments) w₁
        (overtaken (.git root arguments) w).1 (overtaken (.git root arguments) w).2) ∧
      Untracked (overtaken (.git root arguments) w).2 := by
  refine ⟨⟨w, ⟨_, _, _, rfl⟩, _, _, _, ?_, rfl⟩, hw⟩
  rintro rfl output hout
  have silent : printed w root looking = "" := by
    unfold printed
    rw [if_neg (by decide), if_neg (by decide), if_neg (by decide)]
  obtain rfl : printed w root looking = output := Except.ok.inj hout
  rw [silent]
  exact Repository.prints_ignoring hw.1 hw.2

theorem overtaken_quiet (q : Quiet) (hw : Untracked w) :
    (rules ignoring "/p" "notes.txt" legal).answer (.quiet q) w
        (overtaken (.quiet q) w).1 (overtaken (.quiet q) w).2 ∧
      Untracked (overtaken (.quiet q) w).2 := by
  cases q with
  | store c => cases c <;> exact ⟨⟨_, rfl, rfl⟩, hw⟩
  | resolvePath p path b =>
    refine ⟨⟨fun v hv => ?_, rfl⟩, hw⟩
    cases hv
    exact ⟨rfl, by decide, rfl⟩
  | exists_ path =>
    refine ⟨⟨_, ⟨fun b hb there => ?_, rfl⟩, rfl⟩, hw⟩
    cases hb
    exact there
  | isFile path =>
    refine ⟨⟨_, ⟨fun b hb => ?_, rfl⟩, rfl⟩, hw⟩
    cases hb
    rfl
  | readBytes path =>
    cases there : w.files path with
    | some raw =>
      have answer : overtaken (.quiet (.readBytes path)) w = (.ok raw, { w with
          read := opened (Text.join "/p" "notes.txt") (.readBytes path) (.ok raw) ++ w.read }) := by
        simp only [overtaken, there]
      rw [answer]
      refine ⟨⟨_, ⟨fun b hb => ?_, rfl⟩, rfl⟩, hw⟩
      cases hb
      exact there
    | none =>
      have answer : overtaken (.quiet (.readBytes path)) w = (.error .other, w) := by
        simp only [overtaken, there]
      rw [answer]
      exact ⟨⟨_, ⟨(fun _ h => nomatch h), rfl⟩, rfl⟩, hw⟩
  | makeTemp directory =>
    by_cases free : w.files "/p/.temp" = none
    · have answer : overtaken (.quiet (.makeTemp directory)) w = (.ok "/p/.temp",
          { w with files := Function.update w.files "/p/.temp" (some ByteArray.empty) }) :=
        if_pos free
      rw [answer]
      exact ⟨⟨_, ⟨free, rfl⟩, rfl⟩, hw⟩
    · have answer : overtaken (.quiet (.makeTemp directory)) w = (.error .other, w) := if_neg free
      rw [answer]
      exact ⟨⟨_, rfl, rfl⟩, hw⟩
  | _ => exact ⟨⟨_, rfl, rfl⟩, hw⟩

theorem overtaken_possible (a : Act) (w : Desk) (hw : Untracked w) :
    (∃ w₁, (rules ignoring "/p" "notes.txt" legal).before a w w₁ ∧
      (rules ignoring "/p" "notes.txt" legal).answer a w₁ (overtaken a w).1
        (overtaken a w).2) ∧ Untracked (overtaken a w).2 := by
  cases a with
  | quiet q =>
    have answered : (rules ignoring "/p" "notes.txt" legal).answer (.quiet q) w
        (overtaken (.quiet q) w).1 (overtaken (.quiet q) w).2 ∧ _ := overtaken_quiet q hw
    refine ⟨⟨w, ?_, answered.1⟩, answered.2⟩
    cases q with
    | acquire p => exact ⟨_, _, _, rfl⟩
    | _ => rfl
  | git root arguments => exact overtaken_git hw
  | command p c => exact ⟨⟨w, ⟨_, _, _, rfl⟩, _, _, _, rfl⟩, hw⟩

theorem leads_overtakenWrite (n : ℕ) : (fileWriteBody {} "p" "s" "notes.txt" "mine"
    (.hex (Json.sha256Bytes "old".toUTF8)) "write" "o").task.Leads
      (rules ignoring "/p" "notes.txt" legal) notesDesk (overtakenWrite n).1 (overtakenWrite n).2 :=
  (Async.Task.leads_follow_of overtaken_possible n _ _ ⟨rfl, rfl⟩).1

def replacing : Act → Bool
  | .quiet (.replace _ path) => path == "/p/notes.txt"
  | _ => false

/-- The bytes that somebody else has written are replaced. -/
theorem ignored_write_lost : ¬ ∀ git root path env projectId sessionId requested description
    operationId head index files, Updates (fun kept _ => kept) git root path env projectId sessionId
      requested description operationId head index files := by
  intro h
  have whole := (h ignoring "/p" "notes.txt" {} "p" "s" "notes.txt" "write" "o" emptyCommit
    (fun _ => none) notesDesk.files).1 "mine" (.hex (Json.sha256Bytes "old".toUTF8))
  have rest := Prog.wpOk_leads whole (leads_overtakenWrite 47)
  have run : ((overtakenWrite 47).1.asking?.any replacing &&
      (decide ((overtakenWrite 47).2.read.getLast? = some "old".toUTF8) &&
        decide ((overtakenWrite 47).2.files "/p/notes.txt" = some "theirs".toUTF8))) = true := by
    decide +kernel
  generalize overtakenWrite 47 = reached at rest run
  obtain ⟨asks, found⟩ := Bool.and_eq_true_iff.1 run
  obtain ⟨first, theirs⟩ := Bool.and_eq_true_iff.1 found
  obtain ⟨a, ha, hreplacing⟩ := (Option.any_eq_true _ _).1 asks
  cases a with
  | quiet q =>
    cases q with
    | replace temp path =>
      obtain ⟨-, replaced⟩ := Async.Task.legal_of_asking rest ha rfl
      have same : Text.join "/p" "notes.txt" = "/p/notes.txt" := by decide
      rw [same] at replaced
      obtain ⟨raw, new, hraw, -, -, holds⟩ := replaced (beq_iff_eq.1 hreplacing)
      have differ : some "theirs".toUTF8 ≠ some "old".toUTF8 := by decide +kernel
      exact differ (calc
        some "theirs".toUTF8 = some raw := (of_decide_eq_true theirs).symm.trans holds
        _ = some "old".toUTF8 := hraw.symm.trans (of_decide_eq_true first))
    | _ => cases hreplacing
  | _ => cases hreplacing

end LostUpdate

end CodemcpBridge
