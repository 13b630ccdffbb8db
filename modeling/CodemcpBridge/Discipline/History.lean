import CodemcpBridge.Methods
import CodemcpBridge.World

/-!
# The log of a run

What an entry of the log says, and `History`: what the log says of the store that it led to.  The
log is newest first, so an entry is read together with the entries that are older.
-/

namespace CodemcpBridge

open Database (Sound Later SameOperations)

/-- The operation that an event is about; a recovery is about all. -/
def Event.subject : Event → Option String
  | .done (.create o ..) | .done (.transition o ..) | .done (.recordAuthContext o _)
  | .done (.consumeApproval o ..) | .done (.cancelApproval o _) => some o
  | .done (.createApproval _ r ..) => some r.operationId
  | .done .recoverAfterRestart => none
  | .mark (.judged o _ _) | .mark (.enter o) | .mark (.dropped o) => some o

namespace Entry

/-- The entry is the creation of a new operation. -/
def Creates (e : Entry) (o : String) : Prop :=
  (∃ p s w k n kind m i, e.event = .done (.create o p s w k n kind m i)) ∧
    e.before.operation? o = none

/-- The entry takes an operation into execution. -/
def Dispatches (e : Entry) (o : String) : Prop :=
  ∃ s x r d, e.event = .done (.transition o s x r d) ∧ (s = .dispatched ∨ s = .running)

/-- The entry's call is responsible for the operation. -/
def Touches (e : Entry) (o : String) : Prop := e.Creates o ∨ e.Dispatches o

def Judges (e : Entry) (o : String) (needsApproval : Bool) : Prop :=
  ∃ resolved, e.event = .mark (.judged o needsApproval resolved)

/-- The approval check of the operation has resolved the command. -/
def Resolves (e : Entry) (o : String) (command : CommandSpec) : Prop :=
  ∃ needsApproval, e.event = .mark (.judged o needsApproval (some command))

def Enters (e : Entry) (o : String) : Prop := e.event = .mark (.enter o)

def Consumes (e : Entry) (o : String) : Prop :=
  ∃ k now, e.event = .done (.consumeApproval o k now)

def Cancels (e : Entry) (o : String) : Prop := ∃ r, e.event = .done (.cancelApproval o r)

def Recovers (e : Entry) : Prop := e.event = .done .recoverAfterRestart

/-- The payload that the entry stores with an operation. -/
def payload? (o : String) (e : Entry) : Option Payload :=
  match e.event with
  | .done (.transition o' _ _ r _) => if o' = o then r else none
  | _ => none

theorem Touches.subject {e : Entry} {o : String} (h : e.Touches o) : e.event.subject = some o := by
  rcases h with ⟨⟨p, s, w, k, n, kind, m, i, h⟩, -⟩ | ⟨s, x, r, d, h, -⟩ <;> simp [h, Event.subject]

theorem Judges.subject {e : Entry} {o : String} {b : Bool} (h : e.Judges o b) :
    e.event.subject = some o := by
  obtain ⟨resolved, h⟩ := h
  simp [h, Event.subject]

theorem Resolves.judges {e : Entry} {o : String} {command : CommandSpec}
    (h : e.Resolves o command) : ∃ b, e.Judges o b := by
  obtain ⟨b, h⟩ := h
  exact ⟨b, _, h⟩

theorem Resolves.unique {e : Entry} {o : String} {command command' : CommandSpec}
    (h : e.Resolves o command) (h' : e.Resolves o command') : command = command' := by
  obtain ⟨b, h⟩ := h
  obtain ⟨b', h'⟩ := h'
  cases h.symm.trans h'
  rfl

theorem Enters.subject {e : Entry} {o : String} (h : e.Enters o) : e.event.subject = some o := by
  rw [Enters] at h
  simp [h, Event.subject]

theorem payload?_of_subject {e : Entry} {o : String} (h : e.event.subject ≠ some o) :
    e.payload? o = none := by
  unfold payload?
  split
  · rename_i o' s x r d he
    have : o' ≠ o := fun hh => h (by simp [he, Event.subject, hh])
    simp [this]
  · rfl

end Entry

/-- The payload that was stored last with an operation. -/
def settled? (o : String) : List Entry → Option Payload
  | [] => none
  | e :: older => (e.payload? o).or (settled? o older)

theorem settled?_of_subject {o : String} {log : List Entry}
    (h : ∀ e ∈ log, e.event.subject ≠ some o) : settled? o log = none := by
  induction log with
  | nil => rfl
  | cons e older ih =>
    have he := Entry.payload?_of_subject (h e List.mem_cons_self)
    simp [settled?, he, ih fun e he => h e (List.mem_cons_of_mem _ he)]

/-! ## One entry -/

/-- How an approval was consumed: in time, with its own token, while the operation awaited it, by a
call from the operation's own active session. -/
structure Consumption (calls : List (ℕ × Call)) (e : Entry) (o : String) (k : TokenHash)
    (now : ℕ) : Prop where
  approval : ∃ a, e.before.approval? o = some a ∧ a.status = .pending ∧ a.tokenHash = k ∧
    now < a.expiresAt
  awaiting : ∃ r, e.before.operation? o = some r ∧ r.state = .awaitingApproval
  call : ∃ r s caller token key session, e.before.operation? o = some r ∧ r.sessionId = some s ∧
    (e.task, (caller, ToolCall.approvalConfirm o s token key)) ∈ calls ∧ k = ⟨token⟩ ∧
    e.before.session? s = some session ∧ session.projectId = r.projectId ∧
    session.ownerId = Database.localOwnerId ∧ session.status = .active

/-- What an entry says, given the older ones. -/
structure EntryOk (calls : List (ℕ × Call)) (older : List Entry) (e : Entry) : Prop where
  past : ∀ e' ∈ older, e'.after.Later e.before
  forward : e.before.Later e.after
  sound : e.before.Sound ∧ e.after.Sound
  judged : ∀ o b, e.Judges o b → (∃ r, e.before.operation? o = some r ∧ r.state = .validated) ∧
    ∀ e' ∈ older, ∀ b', ¬ e'.Judges o b'
  consume : ∀ o k now, e.event = .done (.consumeApproval o k now) →
    Consumption calls e o k now ∧ ∀ e' ∈ older, ¬ e'.Consumes o ∧ ¬ e'.Cancels o
  enter : ∀ o, e.Enters o → (∃ r, e.before.operation? o = some r ∧ r.state = .running) ∧
    (∀ e' ∈ older, ¬ e'.Enters o ∧ ¬ e'.Cancels o) ∧
    ((∃ e' ∈ older, e'.Judges o true) → ∃ e' ∈ older, e'.Consumes o)

theorem Consumption.mono {calls calls' : List (ℕ × Call)} {e : Entry} {o : String} {k : TokenHash}
    {now : ℕ} (h : Consumption calls e o k now) (hc : ∀ c ∈ calls, c ∈ calls') :
    Consumption calls' e o k now := by
  obtain ⟨r, s, caller, token, key, session, hr, hs, hm, hrest⟩ := h.call
  exact ⟨h.approval, h.awaiting, r, s, caller, token, key, session, hr, hs, hc _ hm, hrest⟩

theorem EntryOk.mono {calls calls' : List (ℕ × Call)} {older : List Entry} {e : Entry}
    (h : EntryOk calls older e) (hc : ∀ c ∈ calls, c ∈ calls') : EntryOk calls' older e :=
  { h with
    consume := fun o k now he => ⟨(h.consume o k now he).1.mono hc, (h.consume o k now he).2⟩ }

/-- Every entry is as its event says. -/
def Lawful (calls : List (ℕ × Call)) : List Entry → Prop
  | [] => True
  | e :: older => EntryOk calls older e ∧ Lawful calls older

theorem Lawful.mono {calls calls' : List (ℕ × Call)} (hc : ∀ c ∈ calls, c ∈ calls') :
    ∀ {log : List Entry}, Lawful calls log → Lawful calls' log
  | [], _ => trivial
  | _ :: _, h => ⟨h.1.mono hc, Lawful.mono hc h.2⟩

/-- An entry in the middle of the log. -/
theorem Lawful.split {calls : List (ℕ × Call)} {e : Entry} {older : List Entry} :
    ∀ {newer : List Entry}, Lawful calls (newer ++ e :: older) → EntryOk calls older e
  | [], h => h.1
  | _ :: _, h => Lawful.split h.2

/-- An operation is judged once at most. -/
theorem Lawful.judged_once {calls : List (ℕ × Call)} {log : List Entry} (h : Lawful calls log)
    {e e' : Entry} {o : String} {b b' : Bool} (he : e ∈ log) (he' : e' ∈ log)
    (hj : e.Judges o b) (hj' : e'.Judges o b') : e = e' := by
  induction log with
  | nil => cases he
  | cons x older ih =>
    rcases List.mem_cons.1 he with rfl | hold <;> rcases List.mem_cons.1 he' with rfl | hold'
    · rfl
    · exact absurd hj' ((h.1.judged o b hj).2 e' hold' b')
    · exact absurd hj ((h.1.judged o b' hj').2 e hold b)
    · exact ih h.2 hold hold'

theorem Lawful.of_mem {calls : List (ℕ × Call)} {log : List Entry} (h : Lawful calls log)
    {e : Entry} (he : e ∈ log) : ∃ newer older, log = newer ++ e :: older ∧
      EntryOk calls older e := by
  obtain ⟨newer, older, rfl⟩ := List.append_of_mem he
  exact ⟨newer, older, rfl, h.split⟩

/-! ## The log and the store it led to -/

structure History (calls : List (ℕ × Call)) (db : Database) (log : List Entry) : Prop where
  lawful : Lawful calls log
  past : ∀ e ∈ log, e.after.Later db
  subjects : ∀ e ∈ log, ∀ o, e.event.subject = some o → (db.operation? o).isSome
  issued : ∀ a ∈ db.approvals, ∃ e ∈ log, e.Judges a.operationId true
  consumed : ∀ e ∈ log, ∀ o, e.Consumes o → ∃ a, db.approval? o = some a ∧ a.status = .consumed
  cancelled : ∀ e ∈ log, ∀ o, e.Cancels o → ∃ a, db.approval? o = some a ∧ a.status = .cancelled
  results : ∀ r ∈ db.operations, r.result = settled? r.operationId log

namespace History

variable {calls : List (ℕ × Call)} {db db' : Database} {log : List Entry}

theorem mono {calls' : List (ℕ × Call)} (h : History calls db log)
    (hc : ∀ c ∈ calls, c ∈ calls') : History calls' db log :=
  { h with lawful := h.lawful.mono hc }

theorem same (h : History calls db log) (hs : db.SameOperations db') : History calls db' log where
  lawful := h.lawful
  past e he := (h.past e he).trans hs.later
  subjects e he o ho := by
    rw [hs.operation?]
    exact h.subjects e he o ho
  issued a ha := h.issued a (hs.approvals ▸ ha)
  consumed e he o ho := by
    rw [hs.approval?]
    exact h.consumed e he o ho
  cancelled e he o ho := by
    rw [hs.approval?]
    exact h.cancelled e he o ho
  results r hr := h.results r (hs.operations ▸ hr)

/-- No entry is about an operation that is not there. -/
theorem subject_ne (h : History calls db log) {o : String} (ho : db.operation? o = none) {e : Entry}
    (he : e ∈ log) : e.event.subject ≠ some o := fun hs => by
  simpa [ho] using h.subjects e he o hs

/-- The older entries and a new one, which left the store `db'`. -/
theorem cons (h : History calls db log) (hl : db.Later db') (hs : db.Sound) (hs' : db'.Sound)
    {t : ℕ} {event : Event}
    (subject : ∀ o, event.subject = some o → (db'.operation? o).isSome)
    (issued : ∀ a ∈ db'.approvals, (∃ b ∈ db.approvals, b.operationId = a.operationId) ∨
      ∃ e ∈ log, e.Judges a.operationId true)
    (judged : ∀ o b S, event = .mark (.judged o b S) →
      (∃ r, db.operation? o = some r ∧ r.state = .validated) ∧ ∀ e ∈ log, ∀ b', ¬ e.Judges o b')
    (consume : ∀ o k now, event = .done (.consumeApproval o k now) →
      Consumption calls ⟨t, event, db, db'⟩ o k now ∧
        ∃ a, db'.approval? o = some a ∧ a.status = .consumed)
    (cancel : ∀ o r, event = .done (.cancelApproval o r) →
      ∃ a, db'.approval? o = some a ∧ a.status = .cancelled)
    (enter : ∀ o, event = .mark (.enter o) →
      (∃ r, db.operation? o = some r ∧ r.state = .running) ∧ (∀ e ∈ log, ¬ e.Enters o) ∧
      ((∃ e ∈ log, e.Judges o true) → ∃ e ∈ log, e.Consumes o))
    (results : ∀ r ∈ db'.operations,
      r.result = settled? r.operationId (⟨t, event, db, db'⟩ :: log)) :
    History calls db' (⟨t, event, db, db'⟩ :: log) := by
  have settled : ∀ {o a s}, db.approval? o = some a → a.status = s → s ≠ .pending →
      ∃ a, db'.approval? o = some a ∧ a.status = s := fun {o a s} ha hst hne => by
    obtain ⟨a', ha', hb⟩ := hl.approval? hs' ha
    exact ⟨a', ha', hb.settled (hst ▸ hne) ▸ hst⟩
  refine ⟨⟨⟨h.past, hl, ⟨hs, hs'⟩, fun o b ⟨S, he⟩ => judged o b S he, ?_, ?_⟩, h.lawful⟩, ?_, ?_,
    ?_, ?_, ?_, results⟩
  · intro o k now he
    obtain ⟨a, ha, hp, -⟩ := (consume o k now he).1.approval
    refine ⟨(consume o k now he).1, fun e' he' => ⟨fun hc => ?_, fun hc => ?_⟩⟩
    · obtain ⟨a', ha', hst⟩ := h.consumed e' he' o hc
      cases ha.symm.trans ha'
      rw [hp] at hst
      cases hst
    · obtain ⟨a', ha', hst⟩ := h.cancelled e' he' o hc
      cases ha.symm.trans ha'
      rw [hp] at hst
      cases hst
  · intro o he
    obtain ⟨hrun, hnone, hcons⟩ := enter o he
    refine ⟨hrun, fun e' he' => ⟨hnone e' he', fun hc => ?_⟩, hcons⟩
    obtain ⟨a, ha, hst⟩ := h.cancelled e' he' o hc
    obtain ⟨hm, hid⟩ := Database.approval?_some ha
    obtain ⟨e₁, he₁, hcon⟩ := hcons (hid ▸ h.issued a hm)
    obtain ⟨a', ha', hst'⟩ := h.consumed e₁ he₁ o hcon
    cases ha.symm.trans ha'
    rw [hst] at hst'
    cases hst'
  · intro e he
    rcases List.mem_cons.1 he with rfl | he
    · exact .refl _
    · exact (h.past e he).trans hl
  · intro e he o ho
    rcases List.mem_cons.1 he with rfl | he
    · exact subject o ho
    · obtain ⟨r, hr⟩ := Option.isSome_iff_exists.1 (h.subjects e he o ho)
      obtain ⟨r', hr', -⟩ := hl.operation? hs' hr
      simp [hr']
  · intro a ha
    rcases issued a ha with ⟨b, hb, hid⟩ | ⟨e, he, hj⟩
    · obtain ⟨e, he, hj⟩ := h.issued b hb
      exact ⟨e, List.mem_cons_of_mem _ he, hid ▸ hj⟩
    · exact ⟨e, List.mem_cons_of_mem _ he, hj⟩
  · intro e he o hc
    rcases List.mem_cons.1 he with rfl | he
    · obtain ⟨k, now, hev⟩ := hc
      exact (consume o k now hev).2
    · obtain ⟨a, ha, hst⟩ := h.consumed e he o hc
      exact settled ha hst (by decide)
  · intro e he o hc
    rcases List.mem_cons.1 he with rfl | he
    · obtain ⟨r, hev⟩ := hc
      exact cancel o r hev
    · obtain ⟨a, ha, hst⟩ := h.cancelled e he o hc
      exact settled ha hst (by decide)

end History

end CodemcpBridge
