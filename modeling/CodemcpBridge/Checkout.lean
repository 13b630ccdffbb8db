import CodemcpBridge.Async.Asks
import CodemcpBridge.Db.Onward
import CodemcpBridge.Mutations

/-!
# A body in a checkout that others change too

What the bodies do between two acts is theirs alone; what happens to the project and to the store is
not.  A `Scene` is a body at work: the store, what Git shows of the project, what the body has seen
of it so far, and whether it has done anything that may change it.  Others may write to the store
and change the checkout before every answer.
-/

namespace CodemcpBridge

/-- What Git shows of a project. -/
structure Checkout where
  branch : String
  head : String
  changedFiles : List String := []
  /-- The local branches, remote-tracking refs and tags that contain a commit. -/
  containing : String → List String := fun _ => []

/-- Something that a Git command has shown. -/
inductive Sight
  | branch (name : String)
  | head (hash : String)
  | changes (files : List String)
  | message (hash text : String)
  | refs (hash : String) (names : List String)
  deriving DecidableEq

/-- What a command shows of the checkout, by its arguments and its output. -/
def sightOf (arguments : List String) (output : String) : Option Sight :=
  if arguments = ["rev-parse", "--abbrev-ref", "HEAD"] then some (.branch (Text.strip output))
  else if arguments = ["rev-parse", "HEAD"] then some (.head (Text.strip output))
  else if arguments = ["status", "--porcelain=v1", "--untracked-files=all", "-z"] then
    some (.changes (GitGuard.porcelainPaths (Text.split '\x00' output)))
  else if arguments.head? = some "show" then some (.message (arguments.getLastD "") output)
  else if arguments.take 3 = ["for-each-ref", "--format=%(refname)", "--contains"] then
    some (.refs (arguments.getD 3 "")
      (((Text.splitlines output).map Text.strip).filter (· ≠ "")))
  else none

/-- The Git commands that only show something. -/
def gitShows : List String := ["rev-parse", "status", "show", "for-each-ref", "ls-tree", "diff"]

/-- The command sets or deletes the ref of a checkpoint. -/
def movesCheckpointRef (arguments : List String) : Bool :=
  arguments.take 2 == ["update-ref", "--no-deref"] &&
    (GitGuard.isCheckpointRef (arguments.getD 2 "") ||
      (arguments.getD 2 "" == "-d" && GitGuard.isCheckpointRef (arguments.getD 3 "")))

/-- A Git command that may change the branch, `HEAD`, the index or the worktree: any but those that
show something and those that move a checkpoint's ref. -/
def gitChanges (arguments : List String) : Bool :=
  !(arguments.head?.any gitShows.contains || movesCheckpointRef arguments)

def Quiet.changes : Quiet → Bool
  | makeTemp _ | writeTemp .. | replace .. | unlink _ | mkdir _ | rmdir _ => true
  | _ => false

/-- The act may change the checkout. -/
def Act.changes : Act → Bool
  | quiet q => q.changes
  | git _ arguments => gitChanges arguments
  | command .. => true

theorem gitChanges_of_head {arguments : List String} {word : String}
    (h : arguments.head? = some word) (hw : word ∉ "update-ref" :: gitShows) :
    gitChanges arguments = true := by
  obtain ⟨hu, hs⟩ := not_or.1 (List.mem_cons.not.1 hw)
  obtain ⟨rest, rfl⟩ : ∃ rest, arguments = word :: rest := by
    cases arguments with
    | nil => cases h
    | cons a rest => exact ⟨rest, by rw [Option.some.inj h]⟩
  simp [gitChanges, movesCheckpointRef, hs, hu]

/-- The act neither changes the checkout nor shows anything of it. -/
def Act.blind : Act → Bool
  | git _ arguments => !gitChanges arguments && (sightOf arguments "").isNone
  | a => !a.changes

structure Scene where
  db : Database := {}
  checkout : Checkout
  /-- The messages of the commits, which nobody can change. -/
  message : String → String := fun _ => ""
  /-- Newest first. -/
  seen : List Sight := []
  /-- The body has run an act that may change the checkout. -/
  changed : Bool := false

namespace Scene

def Shows (w : Scene) : Sight → Prop
  | .branch name => name = w.checkout.branch
  | .head hash => hash = w.checkout.head
  | .changes files => files = w.checkout.changedFiles
  | .message hash text => text = w.message hash
  | .refs hash names => names = w.checkout.containing hash

/-- The answer of a store method: what it comes to, or an SQLite error. -/
def stored (c : StoreCall) (w : Scene) (r : Except Exn c.Result) (w' : Scene) : Prop :=
  (r = .error .other ∧ w' = w) ∨ ∃ st, match c.run w.db st with
    | .ok (v, db) => r = .ok v ∧ w' = { w with db }
    | .error e => r = .error e ∧ w' = w

/-- The possible answers to an act, and the scenes they leave. -/
def answer : (a : Act) → Scene → Except Exn a.Result → Scene → Prop
  | .quiet (.store c), w, r, w' => stored c w r w'
  | .quiet q, w, _, w' =>
    if q.changes then ∃ checkout, w' = { w with checkout, changed := true } else w' = w
  | .git _ arguments, w, r, w' =>
    let sight := r.toOption.bind (sightOf arguments)
    (∀ s ∈ sight, w.Shows s) ∧
      if gitChanges arguments then ∃ checkout, w' = { w with checkout, changed := true }
      else w' = { w with seen := sight.toList ++ w.seen }
  | .command .., w, _, w' => ∃ checkout, w' = { w with checkout, changed := true }

/-- What others may do between two acts, where `steady` says when they leave `HEAD` alone. -/
structure Others (steady : Scene → Prop) (w w' : Scene) : Prop where
  seen : w'.seen = w.seen
  changed : w'.changed = w.changed
  message : w'.message = w.message
  written : Written w.db w'.db
  branch : steady w → w'.checkout.branch = w.checkout.branch
  head : steady w → w'.checkout.head = w.checkout.head

/-- A body among others, where `legal` says what each act demands of the scene. -/
def rules (steady : Scene → Prop) (legal : Act → Scene → Prop) :
    Async.Rules Act (fun a => Except Exn a.Result) Scene where
  asked _ _ := True
  before _ w w' := Others steady w w'
  legal := legal
  answer a w r w' := answer a w r w'

variable {steady : Scene → Prop} {legal : Act → Scene → Prop} {w w' : Scene}

theorem Others.refl (w : Scene) : Others steady w w :=
  ⟨rfl, rfl, rfl, .refl, fun _ => rfl, fun _ => rfl⟩

theorem others_of_stored {c : StoreCall} {r : Except Exn c.Result} (h : stored c w r w') :
    Others steady w w' := by
  rcases h with ⟨-, rfl⟩ | ⟨st, h⟩
  · exact .refl w'
  · split at h
    · rename_i hrun
      obtain ⟨-, rfl⟩ := h
      exact ⟨rfl, rfl, rfl, Written.refl.other hrun, fun _ => rfl, fun _ => rfl⟩
    · obtain ⟨-, rfl⟩ := h
      exact .refl w'

/-- To the scene a blind act is no more than what others do. -/
theorem others_of_blind {a : Act} {r : Except Exn a.Result} (ha : a.blind = true)
    (h : answer a w r w') : Others steady w w' := by
  cases a with
  | quiet q =>
    by_cases hq : ∃ c, q = .store c
    · obtain ⟨c, rfl⟩ := hq
      exact others_of_stored h
    · have hc : q.changes = false := by simpa [Act.blind, Act.changes] using ha
      have hw : w' = w := by
        cases q with
        | store c => exact absurd ⟨c, rfl⟩ hq
        | _ => simpa [answer, hc] using h
      rw [hw]
      exact .refl w
  | git root arguments =>
    simp only [Act.blind, Bool.and_eq_true, Bool.not_eq_true', Option.isNone_iff_eq_none] at ha
    have hnone : ∀ output, sightOf arguments output = none := fun output => by
      have := ha.2
      unfold sightOf at this ⊢
      split_ifs at this ⊢
      rfl
    have hsight : r.toOption.bind (sightOf arguments) = none := by
      cases r.toOption <;> simp [hnone]
    obtain ⟨-, h⟩ := h
    rw [if_neg (by simp [ha.1]), hsight] at h
    rw [h]
    exact .refl w
  | command project command => simp [Act.blind, Act.changes] at ha

/-! ## What blind programs keep -/

/-- What others cannot take away. -/
def Kept (steady : Scene → Prop) (J : Scene → Prop) : Prop :=
  ∀ {w w'}, J w → Others steady w w' → J w'

/-- A blind program keeps whatever others cannot take away. -/
theorem wp_blind {α : Type} {x : Body α} {J : Scene → Prop} (hx : x.Asks (·.blind))
    (hJ : Kept steady J) (hlegal : ∀ {a w}, a.blind = true → J w → legal a w) (hw : J w) :
    x.wp (rules steady legal) (fun _ => J) w :=
  Async.Prog.Asks.wp (fun _ _ => trivial)
    (fun ha hj hb => ⟨hlegal ha (hJ hj hb), fun _ _ h =>
      hJ (hJ hj hb) (others_of_blind ha h)⟩) hx hw

end Scene

/-! ## Scenes that are played -/

namespace Scene

/-- The scene after an act other than a store method, where the act leaves the checkout as it is. -/
def next (w : Scene) : (a : Act) → Except Exn a.Result → Scene
  | .quiet q, _ => if q.changes then { w with changed := true } else w
  | .git _ arguments, r =>
    if gitChanges arguments then { w with changed := true }
    else { w with seen := (r.toOption.bind (sightOf arguments)).toList ++ w.seen }
  | .command .., _ => { w with changed := true }

/-- An answer and the scene it leaves, where `outside` says what others do before it and `reply`
what the project then answers; the store answers for itself. -/
def play (outside : Scene → Scene) (reply : Scene → (a : Act) → Except Exn a.Result) (a : Act)
    (w : Scene) : Except Exn a.Result × Scene :=
  let w := outside w
  match a with
  | .quiet (.store c) => match c.run w.db { now := fun _ => 0, eventId := fun _ => "" } with
    | .ok (v, db) => (.ok v, { w with db })
    | .error e => (.error e, w)
  | a => (reply w a, w.next a (reply w a))

/-- What is played is possible, if Git shows what there is. -/
theorem play_possible {outside : Scene → Scene} {reply : Scene → (a : Act) → Except Exn a.Result}
    (hothers : ∀ w, Others (fun _ => False) w (outside w))
    (hshows : ∀ w root arguments s,
      (reply (outside w) (.git root arguments)).toOption.bind (sightOf arguments) = some s →
        (outside w).Shows s) (a : Act) (w : Scene) :
    ∃ w₁, Others (fun _ => False) w w₁ ∧
      answer a w₁ (play outside reply a w).1 (play outside reply a w).2 := by
  refine ⟨outside w, hothers w, ?_⟩
  cases a with
  | quiet q =>
    cases q with
    | store c =>
      refine .inr ⟨{ now := fun _ => 0, eventId := fun _ => "" }, ?_⟩
      unfold play
      dsimp only
      split <;> exact ⟨rfl, rfl⟩
    | makeTemp _ | writeTemp _ _ | replace _ _ | unlink _ | mkdir _ | rmdir _ => exact ⟨_, rfl⟩
    | _ => rfl
  | git root arguments =>
    refine ⟨fun s hs => hshows w root arguments s hs, ?_⟩
    simp only [play, next]
    split_ifs
    · exact ⟨_, rfl⟩
    · rfl
  | command project command => exact ⟨_, rfl⟩

/-- What Git prints of a clean worktree, where every checkpoint's ref stands at `commit`. -/
def printed (commit : String) (w : Scene) (root : String) (arguments : List String) : String :=
  if arguments = ["rev-parse", "--abbrev-ref", "HEAD"] then w.checkout.branch
  else if arguments = ["rev-parse", "HEAD"] then w.checkout.head
  else if arguments = ["rev-parse", "--show-toplevel"] then root
  else if arguments.head? = some "rev-parse" then commit
  else if arguments.head? = some "show" then w.message (arguments.getLastD "")
  else if arguments.head? = some "for-each-ref" then
    "\n".intercalate (w.checkout.containing (arguments.getD 3 ""))
  else ""

theorem printed_shows {w : Scene} {commit root : String} {arguments : List String} {s : Sight}
    (hbranch : Text.strip w.checkout.branch = w.checkout.branch)
    (hhead : Text.strip w.checkout.head = w.checkout.head) (hclean : w.checkout.changedFiles = [])
    (hrefs : ∀ h, ((Text.splitlines ("\n".intercalate (w.checkout.containing h))).map
      Text.strip).filter (· ≠ "") = w.checkout.containing h)
    (h : sightOf arguments (printed commit w root arguments) = some s) : w.Shows s := by
  unfold sightOf at h
  split_ifs at h with h₁ h₂ h₃ h₄ h₅
  · cases h
    simpa [Shows, printed, h₁] using hbranch
  · cases h
    simpa [Shows, printed, h₂] using hhead
  · cases h
    subst h₃
    show GitGuard.porcelainPaths (Text.split '\x00' "") = w.checkout.changedFiles
    rw [hclean]
    decide
  · cases h
    have hne : arguments.head? ≠ some "rev-parse" := by rw [h₄]; decide
    have : arguments ≠ ["rev-parse", "--show-toplevel"] := fun he => hne (by rw [he]; rfl)
    simp [Shows, printed, h₁, h₂, h₄, this]
  · cases h
    obtain ⟨rest, rfl⟩ : ∃ rest,
        arguments = "for-each-ref" :: "--format=%(refname)" :: "--contains" :: rest :=
      ⟨arguments.drop 3, by rw [← List.take_append_drop 3 arguments, h₅]; rfl⟩
    simpa [Shows, printed] using hrefs _

end Scene

end CodemcpBridge
