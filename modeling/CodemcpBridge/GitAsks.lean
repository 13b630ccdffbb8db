import CodemcpBridge.GitCommit
import CodemcpBridge.Async.Asks

/-!
# What the methods of `GitGuard` ask

Each part of a mutation asks only a few kinds of questions, whatever the answers are.
-/

namespace CodemcpBridge

open Async (Prog)
open Body

section Rejects

variable {α : Type} {P : Act → Prop} {x : Body α} {code : ErrorCode} {message : String}
  {details : Dict} {status : Status} {retryable : Bool}

theorem asks_reject : (reject code message details status retryable : Body α).Asks P := ⟨trivial⟩

theorem asks_exceptBridge {h : BridgeError → Body α} (hx : x.Asks P) (hh : ∀ e, (h e).Asks P) :
    (x.exceptBridge h).Asks P :=
  .handle hx fun e y he => by
    cases e <;> cases he
    exact hh _

theorem asks_orReject (hx : x.Asks P) :
    (x.orReject code message details status retryable).Asks P :=
  .handle hx fun e y he => by
    split_ifs at he
    cases he
    exact asks_reject

/-- A check that rejects, or lets the program go on. -/
theorem asks_check {c : Prop} [Decidable c] {f : Unit → Body α} (hf : ∀ u, (f u).Asks P) :
    (if c then reject code message details status retryable >>= f else f ()).Asks P := by
  by_cases h : c
  · rw [if_pos h]
    exact .bind asks_reject hf
  · rw [if_neg h]
    exact hf ()

end Rejects

namespace GitGuard

variable {P : Act → Prop} {root path head message target : String} {paths : List String}
  {content : ByteArray}

/-- What is asked once a ref has been found to be the Bridge's own. -/
theorem asks_requireCheckpointRef_bind {α : Type} {ref : String} {f : Unit → Body α}
    (hf : isCheckpointRef ref = true → (f ()).Asks P) :
    (requireCheckpointRef ref >>= f).Asks P := by
  unfold requireCheckpointRef
  by_cases h : isCheckpointRef ref = true
  · rw [if_pos h]
    exact hf h
  · rw [if_neg h]
    exact ⟨trivial⟩

theorem asks_requireHead : (requireHead head).Asks P := by
  unfold requireHead
  split_ifs <;> exact ⟨trivial⟩

theorem asks_commitArguments {commitMode : CommitMode} {description sessionId : String} :
    (commitArguments paths commitMode description sessionId).Asks P := by
  rcases commitArguments_cases paths commitMode description sessionId with ⟨_, he⟩ | ⟨_, he⟩
  all_goals
    rw [he]
    exact ⟨trivial⟩

theorem asks_commitArgumentsOf {commitMode : CommitMode} {description sessionId : Option String} :
    (commitArgumentsOf paths commitMode description sessionId).Asks P := by
  rcases commitArgumentsOf_cases paths commitMode description sessionId with ⟨_, he⟩ | ⟨_, he⟩
  all_goals
    rw [he]
    exact ⟨trivial⟩

theorem asks_fileCommitArguments {description : String} {commitMode : Option CommitMode}
    {sessionId : Option String} :
    (fileCommitArguments path description commitMode sessionId).Asks P := by
  rcases fileCommitArguments_eq path description commitMode sessionId with he | ⟨_, he⟩
  all_goals
    rw [he]
    exact ⟨trivial⟩

theorem asks_requireIsolated {after : GitStatus} :
    (requireIsolated after head paths message).Asks P := by
  unfold requireIsolated
  split_ifs <;> exact ⟨trivial⟩

theorem asks_sharedRefs {currentRef : Option String} : ∀ refs, (sharedRefs currentRef refs).Asks P
  | [] => ⟨trivial⟩
  | ref :: refs => by
    unfold sharedRefs
    by_cases hc : Text.startsWith ref checkpointRefPrefix = true
    · rw [if_pos hc]
      exact asks_sharedRefs refs
    · rw [if_neg hc]
      by_cases hr : ["refs/heads/", "refs/remotes/", "refs/tags/"].any (Text.startsWith ref) = true
      · rw [if_pos hr]
        exact .bind (asks_sharedRefs refs) fun _ => ⟨trivial⟩
      · rw [if_neg hr]
        exact ⟨trivial⟩

theorem asks_sharedRefsContainingHead {branch : String}
    (h : P (.git root ["for-each-ref", "--format=%(refname)", "--contains", head, "refs/heads",
      "refs/remotes", "refs/tags"])) : (sharedRefsContainingHead root head branch).Asks P := by
  unfold sharedRefsContainingHead
  refine .bind asks_requireHead fun _ => ?_
  by_cases invalid : branch = "" ∨
      (branch.toList.any fun c => c == '\x00' || c == '\r' || c == '\n') = true
  · rw [if_pos invalid]
    exact ⟨trivial⟩
  · rw [if_neg invalid]
    exact .bind (Prog.asks_ask h) fun _ => asks_sharedRefs _

/-- The checks of a target look at it and read it. -/
theorem asks_checkTarget {requireExists : Option Bool} (exists_ : P (.quiet (.exists_ target)))
    (isFile : P (.quiet (.isFile target))) (readBytes : P (.quiet (.readBytes target))) :
    (checkTarget target path content requireExists).Asks P := by
  have read : (do
      if ← quiet (.exists_ target) then
        let raw ← (quiet (.readBytes target)).orReject .backendUnavailable
          "target file could not be read before mutation" [("path", .str path)] .failed true
        pure (decide (raw = content))
      else pure false : Body Bool).Asks P := by
    refine .bind (Prog.asks_ask exists_) fun there => ?_
    split_ifs
    · refine .bind (.handle (Prog.asks_ask readBytes) fun e y he => ?_) fun _ => ⟨trivial⟩
      split_ifs at he
      cases he
      exact ⟨trivial⟩
    · exact ⟨trivial⟩
  have regular : (do
      if ← quiet (.exists_ target) then
        if !(← quiet (.isFile target)) then
          reject .conflict "target path is not a regular file" [("path", .str path)]
      if ← quiet (.exists_ target) then
        let raw ← (quiet (.readBytes target)).orReject .backendUnavailable
          "target file could not be read before mutation" [("path", .str path)] .failed true
        pure (decide (raw = content))
      else pure false : Body Bool).Asks P := by
    refine .bind (Prog.asks_ask exists_) fun there => ?_
    split_ifs
    · refine .bind (Prog.asks_ask isFile) fun regular => ?_
      split_ifs
      · exact ⟨trivial⟩
      · exact read
    · exact read
  rcases requireExists with _ | _ | _
  · exact regular
  · exact .bind (Prog.asks_ask exists_) fun there => asks_check fun _ => regular
  · exact .bind (Prog.asks_ask isFile) fun there => asks_check fun _ => regular

theorem asks_writeFile (h : ∀ q, P (.quiet q)) : (writeFile target path content).Asks P := by
  unfold writeFile
  refine .bind (.handle (Prog.asks_ask (h _)) fun e y he => ?_) fun temp => .handle ?_
    fun e y he => ?_
  · split_ifs at he
    cases he
    exact ⟨trivial⟩
  · exact .bind (Prog.asks_ask (h _)) fun _ => Prog.asks_ask (h _)
  · split_ifs at he
    cases he
    refine .bind (.handle (Prog.asks_ask (h _)) fun e y he => ?_) fun _ => ⟨trivial⟩
    split_ifs at he
    cases he
    exact ⟨trivial⟩

theorem asks_status (branch : P (.git root ["rev-parse", "--abbrev-ref", "HEAD"]))
    (head : P (.git root ["rev-parse", "HEAD"]))
    (changes : P (.git root ["status", "--porcelain=v1", "--untracked-files=all", "-z"])) :
    (status root).Asks P :=
  .bind (Prog.asks_ask branch) fun _ => .bind (Prog.asks_ask head) fun _ =>
    .bind (Prog.asks_ask changes) fun _ => ⟨trivial⟩

theorem asks_requireBaseline {dirty : String} (hs : (status root).Asks P) :
    (requireBaseline root head message dirty).Asks P := by
  refine .bind hs fun before => ?_
  dsimp only
  split_ifs <;> exact ⟨trivial⟩

theorem asks_verifyAmendTarget {expectedBranch : Option String} (hs : (status root).Asks P)
    (refs : ∀ hash, P (.git root ["for-each-ref", "--format=%(refname)", "--contains", hash,
      "refs/heads", "refs/remotes", "refs/tags"])) :
    (verifyAmendTarget root head expectedBranch).Asks P := by
  refine .bind hs fun current => ?_
  dsimp only
  split_ifs
  · exact ⟨trivial⟩
  all_goals
    refine .bind (asks_sharedRefsContainingHead (refs _)) fun _ => ?_
    split_ifs <;> exact ⟨trivial⟩

theorem asks_commitAndVerify {arguments : List String} {commitMode : CommitMode}
    {expectedBranch : Option String} (hs : (status root).Asks P)
    (verify : (verifyAmendTarget root head expectedBranch).Asks P)
    (commit : P (.git root arguments)) :
    (commitAndVerify root arguments commitMode head expectedBranch message).Asks P := by
  have rest : ∀ _ : Unit, (do
      let _ ← run root arguments
      let final ← status root
      if final.dirty ∨ Text.lower final.head = Text.lower head then
        reject .conflict message
          [("expected_previous_head", .str head), ("actual_head", .str final.head),
            ("changed_files", .ofStrings final.changedFiles)]
      pure final.head : Body String).Asks P := fun _ =>
    .bind (Prog.asks_ask commit) fun _ => .bind hs fun _ => asks_check fun _ => Prog.asks_pure _
  exact Prog.asks_ite (.bind verify rest) (rest ())

theorem asks_finishFile {path : String} {arguments : List String} {commitMode : Option CommitMode}
    {expectedBranch : Option String} (hs : (status root).Asks P)
    (verify : (verifyAmendTarget root head expectedBranch).Asks P)
    (add : P (.git root ["add", "--", path])) (commit : P (.git root arguments)) :
    (finishFile root path arguments head commitMode expectedBranch).Asks P :=
  .bind hs fun _ => .bind asks_requireIsolated fun _ => Prog.asks_ite (Prog.asks_pure _)
    (asks_check fun _ => .bind (Prog.asks_ask add) fun _ => asks_commitAndVerify hs verify commit)

end GitGuard

end CodemcpBridge
