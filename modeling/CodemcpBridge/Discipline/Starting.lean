import CodemcpBridge.Discipline.Bodies

/-!
# Starting an operation under the discipline

What a task knows of an operation that it has in hand, what its own transitions do to it, and what
`startOperation` ends in: a replay, an error that leaves no trace, or a new operation in hand.
-/

namespace CodemcpBridge

open Database (Sound Later SameOperations)
open Async (Prog)

variable {settings : PolicySettings} {d : Discretion} {t : ℕ} {o : String} {w w' w'' : World}

/-! ## An operation in hand -/

/-- The steps between two worlds are the task's own and about one operation. -/
structure Own (t : ℕ) (o : String) (w w' : World) : Prop where
  started : w'.started = w.started
  current : w'.current = w.current
  calls : w'.calls = w.calls
  processes : w'.processes = w.processes
  later : w.db.Later w'.db
  log : ∃ new, w'.log = new ++ w.log ∧ ∀ e ∈ new, e.task = t ∧ e.event.subject = some o
  others : ∀ x, x ≠ o → w'.owner x = w.owner x ∧ w'.db.operation? x = w.db.operation? x ∧
    w'.db.approval? x = w.db.approval? x

namespace Own

theorem refl (t : ℕ) (o : String) (w : World) : Own t o w w :=
  ⟨rfl, rfl, rfl, rfl, .refl _, ⟨[], rfl, by simp⟩, fun _ _ => ⟨rfl, rfl, rfl⟩⟩

theorem trans (h : Own t o w w') (h' : Own t o w' w'') : Own t o w w'' := by
  refine ⟨h'.started.trans h.started, h'.current.trans h.current, h'.calls.trans h.calls,
    h'.processes.trans h.processes, h.later.trans h'.later, ?_, fun x hx => ?_⟩
  case refine_2 =>
    obtain ⟨hown, hop, hap⟩ := h.others x hx
    obtain ⟨hown', hop', hap'⟩ := h'.others x hx
    exact ⟨hown'.trans hown, hop'.trans hop, hap'.trans hap⟩
  obtain ⟨new, hnew, hown⟩ := h.log
  obtain ⟨new', hnew', hown'⟩ := h'.log
  refine ⟨new' ++ new, by rw [hnew', hnew, List.append_assoc], fun e he => ?_⟩
  rcases List.mem_append.1 he with he | he
  · exact hown' e he
  · exact hown e he

theorem live (h : Own t o w w') (hl : Live d t w) (hi : Inv d w') : Live d t w' := by
  refine ⟨hi, h.started.trans hl.started, h.calls ▸ hl.called, ?_⟩
  have := hl.noProcess
  rwa [World.noProcess, ← h.processes] at this

theorem touched (h : Own t o w w') {x : String} (hx : w'.touched t x) :
    w.touched t x ∨ x = o := by
  obtain ⟨new, hnew, hown⟩ := h.log
  obtain ⟨e, he, ht, hto⟩ := hx
  rw [hnew] at he
  rcases List.mem_append.1 he with he | he
  · have := hto.subject.symm.trans (hown e he).2
    exact .inr (Option.some.inj this)
  · exact .inl ⟨e, he, ht, hto⟩

/-- A method that succeeds and leaves the ghosts of the tasks alone. -/
theorem method {c : OperationCall} {st : Stamp} {a : c.Result} {db' : Database} (hi : Inv d w)
    (h : c.run w.db st = .ok (a, db')) (hs : (Event.done c).subject = some o) :
    Own t o w ((w.note t (.done c) db').claim t (c.claims a)) := by
  refine ⟨by simp, by simp, by simp, by simp, ?_, ⟨[⟨t, .done c, w.db, db'⟩], by simp, ?_⟩,
    fun x hx => ?_⟩
  · simpa using (OperationCall.run_sound hi.rows.sound h).2
  · simpa using hs
  · have hne : (Event.done c).subject ≠ some x := fun h => hx (Option.some.inj (h.symm.trans hs))
    have hc : c ≠ .recoverAfterRestart := by
      rintro rfl
      cases hs
    obtain ⟨hop, hap⟩ := OperationCall.run_of_ne hi.rows.sound h hc hne
    refine ⟨?_, by simpa using hop, by simpa using hap⟩
    rw [World.claim_owner, if_neg fun hcl => hne (OperationCall.claims_subject hcl)]
    rfl

end Own

/-- The task has the operation in hand, and its row is `r`. -/
structure Holds (d : Discretion) (t : ℕ) (o : String) (r : OperationRecord) (w : World) : Prop
    extends Live d t w where
  owner : w.owner o = some t
  row : w.db.operation? o = some r
  rank : r.state.rank ≤ 4
  approval : ∀ a, w.db.approval? o = some a → a.status ≠ .pending

namespace Holds

variable {r : OperationRecord}

theorem inHand (h : Holds d t o r w) : w.inHand t o := ⟨h.owner, ⟨r, h.row, h.rank⟩, h.approval⟩

theorem rely (h : Holds d t o r w) (hr : Rely t w w') (hi : Inv d w') : Holds d t o r w' := by
  obtain ⟨hown, hop, hap⟩ := hr.hand o h.inHand
  exact ⟨h.toLive.rely hr hi, hown, hop.trans h.row, h.rank, fun a ha => h.approval a (hap ▸ ha)⟩

/-- What the task does about another operation leaves the one in hand as it is. -/
theorem own (h : Holds d t o r w) {x : String} (ho : Own t x w w') (hi : Inv d w') (hx : x ≠ o) :
    Holds d t o r w' := by
  obtain ⟨hown, hop, hap⟩ := ho.others o hx.symm
  exact ⟨ho.live h.toLive hi, hown.trans h.owner, hop.trans h.row, h.rank,
    fun a ha => h.approval a (hap ▸ ha)⟩

end Holds

/-- The operation has not been judged and its body has not been entered. -/
def World.unmarked (w : World) (o : String) : Prop :=
  ∀ e ∈ w.log, (∀ b, ¬ e.Judges o b) ∧ ¬ e.Enters o

/-- The operation has not been judged to need an approval, and its body has not been entered. -/
def World.clear (w : World) (o : String) : Prop :=
  ∀ e ∈ w.log, ¬ e.Judges o true ∧ ¬ e.Enters o

/-- Nobody else marks an operation in hand. -/
theorem Rely.unmarked (h : Rely t w w') (ho : w.inHand t o) (hu : w.unmarked o) :
    w'.unmarked o := by
  obtain ⟨new, hnew, hother⟩ := h.log
  intro e he
  rw [hnew] at he
  rcases List.mem_append.1 he with he | he
  · exact ⟨fun b hj => (hother e he).2 o ho hj.subject, fun hj => (hother e he).2 o ho hj.subject⟩
  · exact hu e he

/-! ## Own transitions -/

/-- What a transition of its own leaves to the task. -/
structure Moves (d : Discretion) (t : ℕ) (r row : OperationRecord) (s : OperationState)
    (w w' : World) : Prop where
  inv : Inv d w'
  own : Own t r.operationId w w'
  owner : w'.owner = w.owner
  found : w'.db.operation? r.operationId = some row
  becomes : r.Becomes row
  state : row.state = s
  approval : ∀ o, w'.db.approval? o = w.db.approval? o
  calm : Calm d w → Calm d w'
  marks : ∀ e ∈ w'.log, ∀ m, e.event = .mark m → e ∈ w.log

/-- A permitted transition of an operation that the task owns. -/
theorem wp_transition {r : OperationRecord} {s : OperationState} {x : Option OperationState}
    {p : Option Payload} {e : Option ErrorData} (hl : Live d t w) (hr : w.db.operation? o = some r)
    (hown : w.owner o = some t) (hs : s = .validated ∨ s = .awaitingApproval ∨
      ∀ a, w.db.approval? o = some a → a.status ≠ .pending)
    (hx : ∀ s', x = some s' → r.state = s') (hm : r.state.mayBecome s = true)
    {P : Except Exn OperationRecord → World → Prop}
    (h : ∀ row w', Moves d t r row s w w' → P (.ok row) w') :
    (Service.operation (.transition o s x p e)).wp (rules settings d t) P w := by
  have hlegal : Legal t (.operation (.transition o s x p e)) w := by
    refine ⟨hl.called, .inr hl.started, fun r' hr' => ?_⟩
    exact .inr ⟨hown, hs, fun _ => hl.noProcess⟩
  refine wp_operation hlegal (fun st e' he' => ?_) fun st row db' hok hi => ?_
  · obtain ⟨db', hdb'⟩ := hl.inv.rows.sound.transitionOperation st hr hx hm
      (r := p) (x := e)
    cases hdb'.symm.trans he'
  · obtain ⟨current, hcid, -, -, hrow, hmv⟩ := Database.transitionOperation_ok hok
    have hcur : current = r := by
      have := hmv.found
      rw [hcid, hr] at this
      exact (Option.some.inj this).symm
    subst hcur
    have hops := hmv.same.operations
    refine h row _ ⟨hi, .method hl.inv hok (by simp [Event.subject, hcid]), ?_, ?_, hmv.forward,
      by rw [hrow]; rfl, fun o => ?_, fun hc => ?_, fun en hen m hm => ?_⟩
    · funext x
      simp [World.claim_owner, OperationCall.claims]
    · simpa using hmv.operation?_self
    · rw [World.claim_db, World.note_db]
      exact hmv.same.approval? o
    · refine hc.of_rows db' (fun r' hr' => ?_) (fun _ he => ?_) (by simp)
      · rw [hops] at hr'
        rcases Table.of_mem_update hr' with ⟨hr', -⟩ | ⟨y, hy, hyid, rfl⟩
        · exact ⟨r', hr', .refl r'⟩
        · exact ⟨current, (Database.operation?_some hmv.found).1, hmv.forward⟩
      · rw [hmv.same.authEvents]
        exact he
    · rw [World.claim_log, World.note_log] at hen
      rcases List.mem_cons.1 hen with rfl | hen
      · cases hm
      · exact hen

/-! ## Looking for the row of a request -/

theorem wp_legacyRecord (ht : t ∈ w.calls.map Prod.fst) : ∀ l : List OperationRecord,
    (legacyRecord l).wp (rules settings d t) (fun r w' => w' = w ∧
      ∀ row, r = .ok (some row) → row ∈ l) w
  | [] => ⟨rfl, fun row h => by cases h⟩
  | candidate :: rest => by
      have later := wp_legacyRecord ht rest
      refine Prog.wp_bind (wp_read (fun _ _ => rfl) ht ⟨?_, by simp⟩ ⟨by simp, ?_⟩)
      · rintro _ ⟨⟩
        have tail : (legacyRecord rest).wp (rules settings d t) (fun r w' => w' = w ∧
            ∀ row, r = .ok (some row) → row ∈ candidate :: rest) w :=
          Prog.wp_mono (fun _ _ hr =>
            ⟨hr.1, fun row h => List.mem_cons_of_mem _ (hr.2 row h)⟩) later
        split
        · exact ⟨rfl, fun row h => by cases h; exact List.mem_cons_self⟩
        · split_ifs
          · exact ⟨rfl, fun row h => by cases h; exact List.mem_cons_self⟩
          · exact tail
      · exact fun e _ => ⟨rfl, fun row h => by cases h⟩

/-- What may answer to a request: the row under its key, or else a legacy one. -/
def Answers (db : Database) (principal : Option AuthContext) (r : StartRequest) :
    Option OperationRecord → Prop
  | some row => db.operationIn? r.projectId r.sessionId (r.key principal) = some row ∨
      (db.operationIn? r.projectId r.sessionId (r.key principal) = none ∧
        row ∈ db.operationsByClientRequestId r.projectId r.sessionId r.clientRequestId)
  | none => db.operationIn? r.projectId r.sessionId (r.key principal) = none

theorem wp_findExisting (principal : Option AuthContext) (r : StartRequest)
    (ht : t ∈ w.calls.map Prod.fst) (hc : Calm d w) :
    (findExisting principal r).wp (rules settings d t) (fun res w' => w' = w ∧
      ∀ found, res = .ok found → Answers w.db principal r found) w := by
  unfold findExisting
  refine Prog.wp_bind (wp_read (fun _ _ => rfl) ht ⟨?_, by simp⟩ ⟨by simp, ?_⟩ fun _ => hc)
  · rintro found hfound
    simp only [Except.ok.injEq] at hfound
    split
    · refine ⟨rfl, fun found h => ?_⟩
      cases h
      exact .inl hfound
    · split_ifs
      · refine Prog.wp_bind (wp_read (fun _ _ => rfl) ht ⟨?_, by simp⟩ ⟨by simp, ?_⟩)
        · rintro _ ⟨⟩
          refine Prog.wp_mono (fun res w' hr => ⟨hr.1, fun found h => ?_⟩)
            (wp_legacyRecord ht _)
          cases found with
          | none => exact hfound
          | some row => exact .inr ⟨hfound, hr.2 row h⟩
        · exact fun e _ => ⟨rfl, fun row h => by cases h⟩
      · refine ⟨rfl, fun found h => ?_⟩
        cases h
        exact hfound
  · exact fun e _ => ⟨rfl, fun row h => by cases h⟩

/-! ## A new operation -/

/-- A task has created a new operation and has it in hand. -/
structure NewRow (d : Discretion) (t : ℕ) (principal : Option AuthContext) (r : StartRequest)
    (w : World) (row : OperationRecord) (w' : World) : Prop where
  own : Own t r.operationId w w'
  holds : Holds d t r.operationId row w'
  state : row.state = .received
  mutation : row.mutation = r.mutation
  key : row.replayKey = r.key principal
  approval : w'.db.approval? r.operationId = none
  marks : w'.unmarked r.operationId
  rows : ∀ r' ∈ w'.db.operations, r' ∈ w.db.operations ∨ r' = row
  authEvents : ∀ e ∈ w.db.authEvents, e ∈ w'.db.authEvents

theorem NewRow.id {principal : Option AuthContext} {r : StartRequest} {row : OperationRecord}
    (h : NewRow d t principal r w row w') : row.operationId = r.operationId :=
  (Database.operation?_some h.holds.row).2

theorem wp_createRow {principal : Option AuthContext} {r : StartRequest} (hl : Live d t w)
    (hnone : w.db.operationIn? r.projectId r.sessionId (r.key principal) = none)
    {P : Except Exn (OperationRecord × Bool) → World → Prop} (herr : ∀ e, P (.error e) w)
    (hok : ∀ row w', NewRow d t principal r w row w' → P (.ok (row, false)) w') :
    (createRow principal r).wp (rules settings d t) P w := by
  have hlegal : Legal t (.operation (.create r.operationId r.projectId r.sessionId
      Database.localOwnerId (r.key principal) r.digest r.kind r.mutation r.input)) w :=
    ⟨hl.called, .inr hl.started, rfl, hnone⟩
  refine Prog.wp_handle (wp_operation hlegal (fun st e _ => ⟨by simp, ?_⟩)
    fun st a db' hrun hi => ⟨?_, by simp⟩)
  · rintro e' ⟨⟩
    cases e <;> exact herr _
  · rintro _ ⟨⟩
    obtain ⟨row, existing⟩ := a
    rcases Database.createOperation_ok hrun with ⟨-, -, hin⟩ | ⟨rfl, ⟨now, hrow⟩, hcr⟩
    · simp [hnone] at hin
    · have hid : row.operationId = r.operationId := by rw [hrow]
      have hfresh : w.db.operation? r.operationId = none :=
        hid ▸ Table.row?_none.2 hcr.id
      have happ : w.db.approval? r.operationId = none := by
        refine Table.row?_none.2 fun a ha haid => ?_
        obtain ⟨x, hx⟩ := hl.inv.rows.sound.operation_of_approval ha
        rw [haid, hfresh] at hx
        cases hx
      have hown := Own.method (o := r.operationId) hl.inv hrun rfl (t := t)
      have happ' : db'.approval? r.operationId = none := by
        rw [hcr.same.approval?]
        exact happ
      have hops : db'.operations = w.db.operations ++ [row] := hcr.same.operations
      refine hok row _ ⟨hown, ⟨hown.live hl hi, ?_, ?_, ?_, fun a ha => ?_⟩, by rw [hrow],
        by rw [hrow], by rw [hrow], by simpa using happ', fun e he => ?_, fun r' hr' => ?_,
        fun e he => ?_⟩
      · simp [World.claim_owner, OperationCall.claims]
      · simpa [hid] using hcr.operation?_self
      · rw [hrow]
        exact Nat.zero_le 4
      · rw [World.claim_db, World.note_db, happ'] at ha
        cases ha
      · rw [World.claim_log, World.note_log] at he
        rcases List.mem_cons.1 he with rfl | he
        · exact ⟨fun b hj => hj.elim fun _ hj => (by cases hj), fun hj => (by cases hj)⟩
        · have hne := hl.inv.history.subject_ne hfresh he
          exact ⟨fun b hj => hne hj.subject, fun hj => hne hj.subject⟩
      · simpa [hops] using hr'
      · rw [World.claim_db, World.note_db, hcr.same.authEvents]
        exact he

/-- Recording the caller of an operation in hand. -/
theorem wp_recordAuthContext {row : OperationRecord} {c : AuthContext} (h : Holds d t o row w)
    (hn : row.replayKey.namespace_ = some c.replayNamespace)
    {P : Except Exn Unit → World → Prop}
    (hok : ∀ w', Own t o w w' → Holds d t o row w' → w'.db.operations = w.db.operations →
      (∀ e ∈ w.db.authEvents, e ∈ w'.db.authEvents) →
      (∃ e ∈ w'.db.authEvents, e.operationId = some o) →
      (∀ o, w'.db.approval? o = w.db.approval? o) → (w.unmarked o → w'.unmarked o) →
      P (.ok ()) w') :
    (Service.operation (.recordAuthContext o (authAuditDetails c))).wp
      (rules settings d t) P w := by
  have hlegal : Legal t (.operation (.recordAuthContext o (authAuditDetails c))) w :=
    ⟨h.called, .inr h.started, h.owner, row, c, h.row, rfl, hn⟩
  refine wp_operation hlegal (fun st e herr => ?_) fun st a db' hrun hi => ?_
  · simp [OperationCall.run, Database.recordOperationAuthContext, h.row, Except.map] at herr
  · have hown := Own.method (o := o) h.inv hrun rfl (t := t)
    obtain ⟨row', hrow', rfl⟩ := Database.recordOperationAuthContext_ok (ok_of_map hrun)
    cases h.row.symm.trans hrow'
    have hid := (Database.operation?_some h.row).2
    refine hok _ hown ⟨hown.live h.toLive hi, ?_, ?_, h.rank, ?_⟩ ?_ (fun e he => ?_) ?_
      (fun o => by rw [World.claim_db]; rfl) fun hu e he => ?_
    · simpa [World.claim_owner, OperationCall.claims] using h.owner
    · rw [World.claim_db]
      exact h.row
    · rw [World.claim_db]
      exact h.approval
    · rw [World.claim_db]
      rfl
    · rw [World.claim_db]
      simp only [World.note_db, Database.authEvents, Database.audit, List.filter_append,
        List.mem_append]
      exact .inl he
    · rw [World.claim_db]
      refine ⟨_, List.mem_filter.2 ⟨List.mem_append_right _
        (List.mem_singleton.2 rfl), by simp⟩, ?_⟩
      simp [hid]
    · rw [World.claim_log, World.note_log] at he
      rcases List.mem_cons.1 he with rfl | he
      · exact ⟨fun b hj => hj.elim fun _ hj => (by cases hj), fun hj => (by cases hj)⟩
      · exact hu e he

/-- A task has started a new operation and has it in hand. -/
structure Started (d : Discretion) (t : ℕ) (r : StartRequest) (w : World) (row : OperationRecord)
    (w' : World) : Prop where
  own : Own t r.operationId w w'
  holds : Holds d t r.operationId row w'
  calm : Calm d w'
  state : row.state = .validated
  mutation : row.mutation = r.mutation
  approval : w'.db.approval? r.operationId = none
  marks : w'.unmarked r.operationId

/-- A new row that everything is recorded of becomes validated. -/
theorem wp_validate {r : StartRequest} {row : OperationRecord} {w₁ : World} (hc : Calm d w)
    (hrec : ∀ r' ∈ w₁.db.operations, r' ∈ w.db.operations ∨ r' = row)
    (hev : ∀ e ∈ w.db.authEvents, e ∈ w₁.db.authEvents)
    (hrow : row.replayKey.namespace_ = none ∨
      ∃ e ∈ w₁.db.authEvents, e.operationId = some r.operationId)
    (hown : Own t r.operationId w w₁) (hh : Holds d t r.operationId row w₁)
    (hst : row.state = .received) (hm : row.mutation = r.mutation)
    (hap : w₁.db.approval? r.operationId = none) (hu : w₁.unmarked r.operationId)
    {P : Except Exn OperationStart → World → Prop}
    (hok : ∀ row w', Started d t r w row w' → P (.ok { record := row, replay := none }) w') :
    (Service.operation (.transition row.operationId .validated (some .received) none none) >>=
      fun record => pure { record, replay := none } : Service OperationStart).wp
        (rules settings d t) P w₁ := by
  have hid := (Database.operation?_some hh.row).2
  refine Prog.wp_bind ?_
  rw [hid]
  refine wp_transition hh.toLive hh.row hh.owner (.inl rfl) (fun s hs => by cases hs; exact hst)
    (by rw [hst]; decide) fun row' w' hmv => ⟨?_, by simp⟩
  rintro _ ⟨⟩
  have hcalm₁ : Calm d w₁ := fun hd => by
    rw [allRecorded_iff]
    intro r' hr'
    rcases hrec r' hr' with hr' | rfl
    · rcases allRecorded_iff.1 (hc hd) r' hr' with h | ⟨e, he, heid⟩
      · exact .inl h
      · exact .inr ⟨e, hev e he, heid⟩
    · rw [hid]
      exact hrow
  refine hok row' w' ⟨hown.trans (hid ▸ hmv.own), ⟨hmv.own.live hh.toLive hmv.inv, ?_, ?_, ?_, ?_⟩,
    hmv.calm hcalm₁, hmv.state, hmv.becomes.mutation.trans hm, ?_, fun e he =>
    ⟨fun b hj => ?_, fun hj => ?_⟩⟩
  · rw [hmv.owner]
    exact hh.owner
  · exact hid ▸ hmv.found
  · rw [hmv.state]
    decide
  · rw [hmv.approval]
    exact hh.approval
  · rw [hmv.approval]
    exact hap
  · exact (hu e (hmv.marks e he _ hj.choose_spec)).1 b hj
  · exact (hu e (hmv.marks e he _ hj)).2 hj

theorem wp_startNew {principal : Option AuthContext} {r : StartRequest} {row : OperationRecord}
    {w₁ : World} (hc : Calm d w) (hnew : NewRow d t principal r w row w₁)
    {P : Except Exn OperationStart → World → Prop}
    (hlost : ∀ w', d.tidy = false → Live d t w' → Calm d w' → P (.error .other) w')
    (hok : ∀ row w', Started d t r w row w' → P (.ok { record := row, replay := none }) w') :
    (startNew principal row).wp (rules settings d t) P w₁ := by
  have called := hnew.holds.called
  refine Prog.wp_bind (Prog.wp_handle (wp_read (fun _ _ => rfl) called ⟨?_, by simp⟩
    ⟨by simp, ?_⟩))
  · rintro stored ⟨⟩
    refine ⟨?_, by simp⟩
    rintro _ ⟨⟩
    cases principal with
    | none =>
      refine Prog.wp_bind ⟨fun _ _ => ?_, by simp⟩
      exact wp_validate hc hnew.rows hnew.authEvents (.inl (by rw [hnew.key]; rfl)) hnew.own
        hnew.holds hnew.state hnew.mutation hnew.approval hnew.marks hok
    | some c =>
      have hns : row.replayKey.namespace_ = some c.replayNamespace := by rw [hnew.key]; rfl
      have hh : Holds d t row.operationId row w₁ := hnew.id ▸ hnew.holds
      refine Prog.wp_bind (wp_recordAuthContext hh hns fun w₂ hown hh hops hsub hev hap hmk =>
        ⟨fun _ _ => ?_, by simp⟩)
      rw [hnew.id] at hown hh hev hmk
      exact wp_validate hc (fun r' hr' => hnew.rows r' (hops ▸ hr'))
        (fun e he => hsub e (hnew.authEvents e he)) (.inr hev) (hnew.own.trans hown) hh
        hnew.state hnew.mutation ((hap _).trans hnew.approval) (hmk hnew.marks) hok
  · rintro e ⟨⟩
    have hlegal : Legal t (.mark (.dropped row.operationId)) w₁ :=
      ⟨called, hnew.holds.started, by rw [hnew.id]; exact hnew.holds.owner⟩
    refine Prog.wp_bind (wp_dropped hlegal fun w' htidy hi hcalm hw => ⟨fun _ _ => ?_, by simp⟩)
    refine ⟨by simp, ?_⟩
    rintro e' ⟨⟩
    subst hw
    have hl₁ := hnew.holds.toLive
    exact hlost _ htidy ⟨hi, hl₁.started, hl₁.called, hl₁.noProcess⟩ hcalm

/-! ## The whole start -/

theorem wp_startExisting {principal : Option AuthContext} {r : StartRequest}
    {row : OperationRecord} (ht : t ∈ w.calls.map Prod.fst)
    {P : Except Exn OperationStart → World → Prop} (herr : ∀ e, P (.error e) w)
    (hreplay : ∀ payload, P (.ok { record := row, replay := some payload }) w) :
    (startExisting principal r row).wp (rules settings d t) P w := by
  refine Prog.wp_bind (wp_read (fun _ _ => rfl) ht ⟨?_, by simp⟩ ⟨by simp, fun e _ => herr e⟩)
  rintro stored ⟨⟩
  split
  · rename_i start hstart
    simp only [existingStart] at hstart
    split_ifs at hstart
    cases hp : replayOf row with
    | error e => simp [hp, Except.map] at hstart
    | ok payload =>
      simp only [hp, Except.map, Except.ok.injEq] at hstart
      subst hstart
      exact hreplay payload
  · exact herr _

theorem wp_startOperation {principal : Option AuthContext} {r : StartRequest} (hl : Live d t w)
    (hc : Calm d w) {P : Except Exn OperationStart → World → Prop}
    (herr : ∀ e, P (.error e) w)
    (hreplay : ∀ row payload, P (.ok { record := row, replay := some payload }) w)
    (hlost : ∀ w', d.tidy = false → Live d t w' → Calm d w' → P (.error .other) w')
    (hfresh : ∀ row w', Started d t r w row w' → P (.ok { record := row, replay := none }) w') :
    (startOperation principal r).wp (rules settings d t) P w := by
  refine Prog.wp_bind ((Prog.wp_lift _).2 ⟨fun _ _ => ?_, fun e _ => herr e⟩)
  refine Prog.wp_bind (Prog.wp_mono (fun res w₁ hfound => ⟨?_, ?_⟩)
    (wp_findExisting principal r hl.called hc))
  · rintro found rfl
    obtain ⟨rfl, hans⟩ := hfound
    cases found with
    | some row => exact wp_startExisting hl.called herr (hreplay row)
    | none =>
      refine Prog.wp_bind (wp_createRow hl (hans none rfl) (fun e => ⟨by simp, fun _ _ => herr _⟩)
        fun row w₁ hnew => ⟨?_, by simp⟩)
      rintro _ ⟨⟩
      exact wp_startNew hc hnew hlost hfresh
  · rintro e rfl
    obtain ⟨rfl, -⟩ := hfound
    exact herr e

end CodemcpBridge
