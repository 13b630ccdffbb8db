import CodemcpBridge.Discipline.Running

/-!
# Executing an operation under the discipline

From the arrival of a call to the end of `_execute`: the store is recovered once, the operation is
started or replayed, judged, and run or left to wait for a token that was issued for it.
-/

namespace CodemcpBridge

open Database (Sound Later SameOperations)
open Async (Prog)

variable {settings : PolicySettings} {d : Discretion} {t : ℕ} {o : String} {w w₀ w' w'' : World}

/-! ## Issuing an approval -/

/-- What `issueApproval` leaves: the operation as it was, and a pending approval of it. -/
structure Issued (d : Discretion) (t : ℕ) (o : String) (r : OperationRecord) (w w' : World) :
    Prop where
  own : Own t o w w'
  live : Live d t w'
  owner : w'.owner o = some t
  row : w'.db.operation? o = some r
  approval : ∃ a, w'.db.approval? o = some a ∧ a.status = .pending
  calm : Calm d w → Calm d w'

theorem wp_createApproval {id action token : String} {expiresAt : ℕ} {r : OperationRecord}
    (hh : Holds d t o r w) (hs : r.state = .validated) (hap : w.db.approval? o = none)
    (hj : ∃ e ∈ w.log, e.Judges o true) (hid : isFresh w.db id = true)
    (htok : isFresh w.db token = true) {P : Except Exn Unit → World → Prop}
    (h : ∀ w', Issued d t o r w w' → P (.ok ()) w') :
    (Service.operation (.createApproval id r action ⟨token⟩ expiresAt)).wp
      (rules settings d t) P w := by
  have ho : r.operationId = o := (Database.operation?_some hh.row).2
  subst ho
  have hlegal : Legal t (.operation (.createApproval id r action ⟨token⟩ expiresAt)) w :=
    ⟨hh.called, .inr hh.started, hh.owner, hh.row, hs, hj⟩
  have hfresh : ∀ b ∈ w.db.approvals, b.approvalId ≠ id ∧ b.operationId ≠ r.operationId ∧
      b.tokenHash ≠ ⟨token⟩ := fun b hb => by
    simp only [isFresh, Bool.not_eq_true', Bool.or_eq_false_iff, List.any_eq_false,
      Bool.or_eq_true, beq_iff_eq, not_or] at hid htok
    refine ⟨(hid.1.2 b hb).1, fun hop => ?_, fun hk => (htok.1.2 b hb).2 (by rw [hk])⟩
    exact Table.row?_none.1 hap b hb hop
  refine wp_operation hlegal (fun st e herr => ?_) fun st _ db' hok hi => ?_
  · obtain ⟨db', hdb'⟩ := Database.createApproval_total st (by simp [hh.row]) hfresh
      (n := action) (e := expiresAt)
    simp [OperationCall.run, hdb', Except.map] at herr
  · have hown := Own.method hh.inv hok rfl (t := t)
    obtain ⟨a, -, hop, -, hpend, -, -, -, hsame⟩ := Database.createApproval_ok (ok_of_map hok)
    refine h _ ⟨hown, hown.live hh.toLive hi, ?_, ?_, ⟨a, ?_, hpend⟩, fun hc => ?_⟩
    · simpa [World.claim_owner, OperationCall.claims] using hh.owner
    · rw [World.claim_db, World.note_db, hsame.operation?]
      exact hh.row
    · rw [World.claim_db, World.note_db, hsame.approval?]
      rw [Database.approval?] at hap
      simp [Database.approval?, Table.row?_append, hap, hop]
    · refine hc.of_rows db' (fun r hr => ⟨r, ?_, .refl r⟩) (fun e he => ?_) (by simp)
      · rwa [hsame.operations] at hr
      · rw [hsame.authEvents]
        exact he

theorem wp_issueApproval {action : String} {r : OperationRecord} (hh : Holds d t o r w)
    (hs : r.state = .validated) (hap : w.db.approval? o = none)
    (hj : ∃ e ∈ w.log, e.Judges o true) {P : Except Exn ApprovalGrant → World → Prop}
    (h : ∀ grant w', Issued d t o r w w' → P (.ok grant) w') :
    (issueApproval settings r action).wp (rules settings d t) P w := by
  refine Prog.wp_bind (wp_token hh.called fun token htok => ⟨fun _ _ => ?_, by simp⟩)
  refine Prog.wp_bind (wp_now hh.called fun now => ⟨fun _ _ => ?_, by simp⟩)
  refine Prog.wp_bind (wp_uuid hh.called fun id hid => ⟨?_, by simp⟩)
  rintro _ ⟨⟩
  refine Prog.wp_bind (wp_createApproval hh hs hap hj hid (by simp_all) fun w' hi =>
    ⟨fun _ _ => h _ w' hi, by simp⟩)

theorem wp_requireApproval {x : Execution} {rid : String} {r : OperationRecord}
    (hh : Holds d t o r w) (hc : Calm d w) (ho : w.only t o) (hs : r.state = .validated)
    (hap : w.db.approval? o = none) (hj : ∃ e ∈ w.log, e.Judges o true) :
    (requireApproval settings x rid r).wp (rules settings d t) (fun r w' => Ended d t r w') w := by
  have hid : r.operationId = o := (Database.operation?_some hh.row).2
  refine Prog.wp_bind (wp_issueApproval hh hs hap hj fun grant w₁ hi => ⟨fun _ _ => ?_, by simp⟩)
  dsimp only [errorPayload]
  obtain ⟨a, ha, hpend⟩ := hi.approval
  rw [hid]
  refine Prog.wp_bind (wp_transition hi.live hi.row hi.owner (.inr (.inl rfl))
    (fun _ hx => by cases hx; exact hs) (by rw [hs]; decide) fun row w₂ hm =>
      ⟨fun _ _ => ⟨hm.calm (hi.calm hc), fun _ y hy => ?_⟩, by simp⟩)
  have hown : Own t o w w₂ := hi.own.trans (hid ▸ hm.own)
  cases hown.only ho y hy
  refine ⟨⟨row, hid ▸ hm.found, .inr ⟨hm.state, a, ?_, hpend⟩⟩, by simp⟩
  rw [hm.approval]
  exact ha

/-! ## After a fresh start -/

/-- The task has a new operation in hand that it is about to judge. -/
structure Unjudged (d : Discretion) (t : ℕ) (o : String) (r : OperationRecord) (w : World) : Prop
    extends Holds d t o r w where
  calm : Calm d w
  state : r.state = .validated
  only : w.only t o
  none : w.db.approval? o = none
  unmarked : w.unmarked o
  current : w.current t = .none

namespace Unjudged

variable {r : OperationRecord}

theorem ready (h : Unjudged d t o r w) : Ready d t w :=
  ⟨h.toLive, fun x hx => by simp [h.current] at hx⟩

theorem looked (h : Unjudged d t o r w) (hl : Looked d t w w') : Unjudged d t o r w' :=
  ⟨h.toHolds.rely hl.rely hl.ready.inv, hl.calm, h.state, hl.rely.only h.only,
    (hl.rely.hand o h.inHand).2.2.trans h.none, hl.rely.unmarked h.inHand h.unmarked,
    hl.rely.current.trans h.current⟩

end Unjudged

theorem wp_judge {x : Execution} {r : OperationRecord} (h : Unjudged d t o r w)
    (hw : Since w₀ w) : (judge settings x).wp (rules settings d t) (fun _ w' =>
      Unjudged d t o r w' ∧ Since w₀ w') w := by
  unfold judge
  split
  · exact Prog.wp_mono (fun _ _ hl => ⟨h.looked hl, hw.rely hl.rely⟩) (wp_carry h.ready h.calm)
  · exact ⟨h, hw⟩

/-- Judging is passing a point. -/
theorem wp_judged {b : Bool} {resolved : Option CommandSpec} {r : OperationRecord}
    (h : Unjudged d t o r w) {P : Except Exn Unit → World → Prop}
    (hP : Holds d t o r (execMark t (.judged o b resolved) w) →
      P (.ok ()) (execMark t (.judged o b resolved) w)) :
    (Service.mark (.judged o b resolved)).wp (rules settings d t) P w :=
  wp_mark (m := .judged o b resolved)
    ⟨h.called, h.started, h.owner, ⟨r, h.row, h.state⟩, fun e he b => (h.unmarked e he).1 b⟩
    fun _ _ _ _ hi => hP (h.toHolds.mark hi)

theorem wp_executeStarted {x : Execution} {rid : String} {r : OperationRecord}
    (hx : RunsWell settings d t w₀ x) (h : Unjudged d t o r w) (hw : Since w₀ w) :
    (executeStarted settings x rid r).wp (rules settings d t) (fun r w' => Ended d t r w') w := by
  have hid : r.operationId = o := (Database.operation?_some h.row).2
  refine (Prog.wp_andThen _ _ _).2 (Prog.wp_mono (fun res w₁ hj => ?_) (wp_judge h hw))
  obtain ⟨h, hw⟩ := hj
  unfold afterCheck
  rw [hid]
  split
  · rename_i needsApproval prepared
    refine Prog.wp_bind (wp_judged h fun hh => ⟨fun _ _ => ?_, by simp⟩)
    have only : (execMark t (.judged o needsApproval (prepared.map Prod.snd)) w₁).only t o :=
      fun y hy => h.only y (touched_mark hy)
    split_ifs with hn
    · subst hn
      exact wp_requireApproval hh (h.calm.same (.refl _)) only h.state h.none
        ⟨_, List.mem_cons_self, _, rfl⟩
    · refine wp_runOperation hx ⟨hh, h.calm.same (.refl _), h.state, only, fun e he => ?_⟩ hw.mark
      rcases List.mem_cons.1 he with rfl | he
      · exact ⟨fun ⟨_, hj⟩ => hn (by cases hj; rfl), fun hj => (by cases hj)⟩
      · exact ⟨(h.unmarked e he).1 true, (h.unmarked e he).2⟩
  · refine wp_settleError h.toHolds (by rw [h.state]; decide) (by decide)
      fun payload row w₂ hm hd => ended_of_moves (r := (.ok () : Except Exn Unit))
        ⟨h.toHolds, h.calm, fun _ y hy => .inl (h.only y hy)⟩ hm hd (by simp)
  · have hlegal : Legal t (.mark (.dropped o)) w₁ := ⟨h.called, h.started, h.owner⟩
    refine Prog.wp_bind (wp_dropped hlegal fun w' htidy _ hc _ => ⟨fun _ _ => ?_, by simp⟩)
    exact ended_of_untidy hc htidy

/-! ## The arrival of a call -/

/-- The task has done nothing yet. -/
structure Idle (d : Discretion) (t : ℕ) (w : World) : Prop where
  inv : Inv d w
  calm : Calm d w
  called : t ∈ w.calls.map Prod.fst
  noProcess : w.noProcess t
  current : w.current t = none
  untouched : ∀ y, ¬ w.touched t y

namespace Idle

theorem live (h : Idle d t w) (hs : w.started = true) : Live d t w :=
  ⟨h.inv, hs, h.called, h.noProcess⟩

theorem ready (h : Idle d t w) (hs : w.started = true) : Ready d t w :=
  ⟨h.live hs, fun x hx => by simp [h.current] at hx⟩

theorem looked (h : Idle d t w) (hl : Looked d t w w') : Idle d t w' :=
  ⟨hl.ready.inv, hl.calm, hl.ready.called, hl.ready.noProcess, hl.rely.current.trans h.current,
    fun y hy => h.untouched y (hl.rely.touched hy)⟩

theorem ended {α : Type} {r : Except Exn α} (h : Idle d t w) : Ended d t r w :=
  ended_of_untouched h.calm h.untouched

end Idle

/-- A task that has just been let in has done nothing. -/
theorem idle_arrive {c : Call} (hi : Inv d w) (hc : Calm d w) (ht : t ∉ w.calls.map Prod.fst) :
    Idle d t { w with calls := (t, c) :: w.calls } where
  inv := inv_arrive hi
  calm := hc.same (.refl _)
  called := by simp
  noProcess p hp htask := absurd (htask ▸ hi.tasks.1 p hp) ht
  current := by
    cases hcur : w.current t with
    | none => rfl
    | some o => exact absurd (hi.currents t o hcur) ht
  untouched y hy := by
    obtain ⟨e, he, htask, -⟩ := hy
    exact ht (htask ▸ hi.tasks.2 e he)

/-- Opening the store recovers it, unless that has been done. -/
theorem wp_startBridge (h : Idle d t w) (hw : Since w₀ w) {P : Except Exn Unit → World → Prop}
    (hP : ∀ w', Idle d t w' → w'.started = true → Since w₀ w' → P (.ok ()) w') :
    startBridge.wp (rules settings d t) P w := by
  refine Prog.wp_bind (wp_step rfl ⟨h.called, trivial⟩ fun e a w₁ he _ => ?_)
  cases he
  refine ⟨?_, by simp⟩
  rintro _ ⟨⟩
  cases hs : w.started with
  | true => exact hP w h hs hw
  | false =>
    have hlegal : Legal t (.operation .recoverAfterRestart) w := ⟨h.called, .inl rfl, hs⟩
    refine Prog.wp_bind (wp_operation hlegal (fun st e herr => ?_) fun st a db' hok hi =>
      ⟨fun _ _ => ?_, by simp⟩)
    · obtain ⟨r, db', hr, -⟩ := h.inv.rows.sound.recoverAfterRestart st
      cases hr.symm.trans herr
    · obtain ⟨r, db₁, hr, hrec⟩ := h.inv.rows.sound.recoverAfterRestart st
      cases hr.symm.trans hok
      refine wp_step rfl ⟨h.called, rfl⟩ fun e a w₂ he hi₂ => ?_
      cases he
      refine hP _ ⟨hi₂, ?_, h.called, h.noProcess, h.current, fun y hy => ?_⟩ rfl
        ⟨hw.later.trans hrec.later, hw.calls⟩
      · refine h.calm.of_rows db' (fun r' hr' => ?_) (fun e he => ?_) rfl
        · obtain ⟨r, hm, hb⟩ := hrec.origin hr'
          exact ⟨r, hm, hb.becomes⟩
        · rw [hrec.swept.authEvents]
          exact he
      · obtain ⟨e, he, ht, hy⟩ := hy
        rcases List.mem_cons.1 he with rfl | he
        · cases hy.subject
        · exact h.untouched y ⟨e, he, ht, hy⟩

/-- The request id of a call. -/
theorem wp_requestIdOf {caller : Caller} (ht : t ∈ w.calls.map Prod.fst)
    {P : Except Exn String → World → Prop} (h : ∀ rid, P (.ok rid) w) :
    (requestIdOf caller).wp (rules settings d t) P w := by
  unfold requestIdOf
  split
  · exact h _
  · exact wp_uuid ht fun id _ => h id

/-- Starting an operation: there is nothing left to do, or there is a new operation to judge. -/
theorem wp_started {principal : Option AuthContext} {x : Execution} (h : Idle d t w)
    (hs : w.started = true) (hw : Since w₀ w) (rid operationId : String) :
    (startOperation principal (startRequest x rid operationId)).wp (rules settings d t)
      (fun r w' =>
        ((∀ res : Except Exn Payload, Ended d t res w') ∧
          ∀ st, r = .ok st → ∃ payload, st.replay = some payload) ∨
        ∃ row, r = .ok { record := row, replay := none } ∧ Unjudged d t operationId row w' ∧
          Since w₀ w') w := by
  refine wp_startOperation (h.live hs) h.calm (fun e => .inl ⟨fun _ => h.ended, by simp⟩)
    (fun row payload => .inl ⟨fun _ => h.ended, ?_⟩)
    (fun w' htidy _ hc => .inl ⟨fun _ => ended_of_untidy hc htidy, by simp⟩)
    fun row w' hst => .inr ⟨row, rfl, ?_, hw.own hst.own⟩
  · rintro st ⟨⟩
    exact ⟨payload, rfl⟩
  · exact ⟨hst.holds, hst.calm, hst.state,
      fun y hy => (hst.own.touched hy).elim (fun hy => absurd hy (h.untouched y)) id,
      hst.approval, hst.marks, hst.own.current ▸ h.current⟩

/-- Whatever a call starts or replays, it ends well. -/
theorem wp_execute {caller : Caller} {x : Execution} (hx : RunsWell settings d t w₀ x)
    (h : Idle d t w) (hw : Since w₀ w) :
    (execute settings caller x).wp (rules settings d t) (fun r w' => Ended d t r w') w := by
  refine Prog.wp_bind (wp_startBridge h hw fun w₁ h₁ hs hw₁ => ⟨fun _ _ => ?_, by simp⟩)
  refine Prog.wp_bind (Prog.wp_mono (fun _ w₂ hl =>
    ⟨fun _ _ => ?_, fun _ _ => (h₁.looked hl).ended⟩)
    (wp_carry (h₁.ready hs) h₁.calm))
  have h₂ := h₁.looked hl
  have hw₂ := hw₁.rely hl.rely
  refine Prog.wp_bind (wp_requestIdOf h₂.called fun rid => ⟨?_, by simp⟩)
  rintro _ ⟨⟩
  refine Prog.wp_bind (wp_uuid h₂.called fun operationId _ => ⟨?_, by simp⟩)
  rintro _ ⟨⟩
  refine Prog.wp_bind (Prog.wp_handle (Prog.wp_map (Prog.wp_mono (fun res w₃ hst => ?_)
    (wp_started (x := x) h₂ hl.ready.started hw₂ rid operationId))))
  rcases hst with ⟨hended, hres⟩ | ⟨row, rfl, hun, hw₃⟩
  · rcases res with e | st
    · refine ⟨by simp [Except.map], ?_⟩
      rintro e' ⟨⟩
      cases e
      case bridge be => exact ⟨fun _ h => by cases h; exact hended _, by simp⟩
      all_goals exact ⟨by simp, fun _ _ => hended _⟩
    · refine ⟨fun _ h => ⟨?_, by simp⟩, by simp [Except.map]⟩
      obtain ⟨payload, hp⟩ := hres st rfl
      cases h
      rintro _ ⟨⟩
      simp only [hp]
      exact hended _
  · refine ⟨fun _ h => ⟨?_, by simp⟩, by simp [Except.map]⟩
    cases h
    rintro _ ⟨⟩
    exact wp_executeStarted hx hun hw₃

end CodemcpBridge
