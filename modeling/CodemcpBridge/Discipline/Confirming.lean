import CodemcpBridge.Discipline.Executing

/-!
# Confirming and cancelling under the discipline

The tools that act on an operation which an earlier call has left waiting.  They act on what was
seen of it before their own operation started; that it still waits is known from its approval, which
the store settles for one of them only.
-/

namespace CodemcpBridge

open Database (Sound Later SameOperations)
open Async (Prog)

variable {settings : PolicySettings} {d : Discretion} {t : ℕ} {o x : String}
  {w w₀ w' w'' : World}

/-! ## Looking an operation up -/

section Carry

variable {α β : Type}

theorem carry_bind (x : Body α) (f : α → Body β) :
    carry settings (x >>= f) = carry settings x >>= fun a => carry settings (f a) :=
  Prog.via_bind _ x f

theorem carry_store (c : StoreCall) : carry settings (Body.store c) = Service.store c :=
  Prog.via_ask _ _

end Carry

/-- The session is active, for this project and the local owner. -/
def World.activeIn (w : World) (projectId sessionId : String) : Prop :=
  ∃ session, w.db.session? sessionId = some session ∧ session.projectId = projectId ∧
    session.ownerId = Database.localOwnerId ∧ session.status = .active

theorem wp_requireActive {principal : Option AuthContext} {p s : String}
    (ht : t ∈ w.calls.map Prod.fst) :
    (carry settings (requireActive principal p s)).wp (rules settings d t) (fun r w' =>
      w' = w ∧ ∀ session, r = .ok session → w.activeIn p s) w := by
  unfold requireActive
  dsimp only
  split
  · exact ⟨rfl, fun _ h => by cases h⟩
  · rename_i sid hsid
    obtain ⟨hs, -⟩ := Option.filter_eq_some_iff.1 hsid
    cases hs
    rw [carry_bind, carry_store]
    refine Prog.wp_bind (wp_read (fun _ _ => rfl) ht ⟨?_, by simp⟩
      ⟨by simp, fun _ _ => ⟨rfl, fun _ h => by cases h⟩⟩)
    rintro found ⟨⟩
    split
    · exact ⟨rfl, fun _ h => by cases h⟩
    · rename_i session hsession
      split_ifs with hp ha
      · exact ⟨rfl, fun _ h => by cases h⟩
      · exact ⟨rfl, fun _ h => by cases h⟩
      · rw [carry_bind, carry_store]
        refine Prog.wp_bind (wp_read (fun _ _ => rfl) ht ⟨?_, by simp⟩
          ⟨by simp, fun _ _ => ⟨rfl, fun _ h => by cases h⟩⟩)
        rintro stored ⟨⟩
        split_ifs
        · refine ⟨rfl, fun _ _ => ⟨session, hsession, ?_⟩⟩
          simp only [ne_eq, not_or, not_not] at hp ha
          exact ⟨hp, ha.1, ha.2⟩
        · exact ⟨rfl, fun _ h => by cases h⟩

theorem wp_operationRecord (ht : t ∈ w.calls.map Prod.fst) :
    (operationRecord o).wp (rules settings d t) (fun r w' =>
      w' = w ∧ ∀ row, r = .ok row → w.db.operation? o = some row) w := by
  refine Prog.wp_bind (wp_read (fun _ _ => rfl) ht ⟨?_, by simp⟩
    ⟨by simp, fun _ _ => ⟨rfl, fun _ h => by cases h⟩⟩)
  rintro found ⟨⟩
  split
  · rename_i row hrow
    exact ⟨rfl, fun _ h => by cases h; exact hrow⟩
  · exact ⟨rfl, fun _ h => by cases h⟩

theorem wp_requireOperationForSession {env : Env} {s : String} (hr : Ready d t w)
    (hc : Calm d w) :
    (requireOperationForSession env o s).wp (rules env.settings d t) (fun r w' =>
      Looked d t w w' ∧ ∀ row, r = .ok row → w'.db.operation? o = some row ∧
        row.sessionId = some s ∧ w'.activeIn row.projectId s) w := by
  refine Prog.wp_bind (Prog.wp_mono (fun _ w₁ hl => ⟨fun _ _ => ?_, fun _ _ => ⟨hl, by simp⟩⟩)
    (wp_carry hr hc))
  refine Prog.wp_bind (Prog.wp_mono (fun res w₂ hrec => ?_) (wp_operationRecord hl.ready.called))
  obtain ⟨rfl, hrow⟩ := hrec
  refine ⟨fun row h => ?_, fun e _ => ⟨hl, by simp⟩⟩
  have hrow := hrow row h
  split_ifs with ho
  · exact Prog.wp_bind ⟨fun _ h => (by cases h), fun _ _ => ⟨hl, by simp⟩⟩
  · refine Prog.wp_bind (Prog.wp_mono (fun res w₃ hact => ?_) (wp_requireActive hl.ready.called))
    obtain ⟨rfl, hact⟩ := hact
    refine ⟨fun session h => ⟨hl, fun _ h' => ?_⟩, fun _ _ => ⟨hl, by simp⟩⟩
    cases h'
    simp only [ne_eq, not_or, not_not] at ho
    exact ⟨hrow, ho.2, hact session h⟩

/-! ## Consuming an approval -/

/-- What a task sees of an operation whose approval it has settled. -/
structure Claimed (d : Discretion) (t : ℕ) (o : String) (r : OperationRecord) (w w' : World) :
    Prop where
  own : Own t o w w'
  holds : Holds d t o r w'
  state : r.state = .awaitingApproval
  pending : ∃ a, w.db.approval? o = some a ∧ a.status = .pending
  same : w'.db.operation? o = w.db.operation? o
  calm : Calm d w → Calm d w'
  log : ∃ e, w'.log = e :: w.log ∧ ∀ m, e.event ≠ .mark m

/-- Settling a pending approval takes its operation in hand. -/
theorem claimed_of_settled {c : OperationCall} {a : c.Result} {st : Stamp} {db' : Database}
    {b b' : ApprovalRecord} (hl : Live d t w) (hrun : c.run w.db st = .ok (a, db'))
    (hi : Inv d ((w.note t (.done c) db').claim t (c.claims a)))
    (hs : (Event.done c).subject = some o) (hc : c.claims a = some o) (hb : b.operationId = o)
    (hset : w.db.Settled b b' db')
    (hrank : ∀ r, w.db.operation? o = some r → 2 ≤ r.state.rank) :
    ∃ r, w.db.operation? o = some r ∧
      Claimed d t o r w ((w.note t (.done c) db').claim t (c.claims a)) := by
  subst hb
  obtain ⟨hm, -⟩ := Database.approval?_some hset.found
  obtain ⟨r, hr⟩ := hl.inv.rows.sound.operation_of_approval hm
  have hown := Own.method hl.inv hrun hs (t := t)
  have hst : r.state = .awaitingApproval := by
    rcases hl.inv.rows.pending b hm hset.pending r hr with h | h
    · have := hrank r hr
      rw [h] at this
      cases this with
      | step h => cases h
    · exact h
  refine ⟨r, hr, hown, ⟨hown.live hl hi, ?_, ?_, ?_, fun x hx => ?_⟩, hst,
    ⟨b, hset.found, hset.pending⟩, ?_, fun hcalm => ?_, ⟨_, by simp; rfl, by simp⟩⟩
  · simp [World.claim_owner, hc]
  · simpa [hset.operation?] using hr
  · rw [hst]
    decide
  · rw [World.claim_db, World.note_db, hset.approval?_self] at hx
    cases hx
    exact hset.left
  · simp [hset.operation?]
  · refine hcalm.of_rows db' (fun r hr => ⟨r, hset.operations ▸ hr, .refl r⟩)
      (fun e he => ?_) (by simp)
    rw [hset.same.authEvents]
    exact he

theorem wp_consumeApproval {token : String} (hl : Live d t w) (hm : mayConsume t o ⟨token⟩ w)
    {P : Except Exn OperationRecord → World → Prop} (herr : ∀ e, P (.error e) w)
    (hok : ∀ row w', Claimed d t o row w w' → (∃ e ∈ w'.log, e.Consumes o) → P (.ok row) w') :
    (consumeApproval o token).wp (rules settings d t) P w := by
  unfold consumeApproval
  split_ifs with ht
  · exact Prog.wp_bind ⟨fun _ h => (by cases h), fun _ _ => herr _⟩
  · refine Prog.wp_bind (wp_now hl.called fun now => ⟨?_, by simp⟩)
    rintro _ ⟨⟩
    have hlegal : Legal t (.operation (.consumeApproval o ⟨token⟩ now)) w :=
      ⟨hl.called, .inr hl.started, hm⟩
    refine Prog.wp_handle (wp_operation hlegal (fun st e _ => ⟨by simp, ?_⟩)
      fun st row db' hrun hi => ⟨?_, by simp⟩)
    · rintro e' ⟨⟩
      cases e <;> exact herr _
    · rintro _ ⟨⟩
      obtain ⟨a, a', hid, hrow, -, -, -, hset⟩ := Database.consumeApproval_ok hl.inv.rows.sound hrun
      have hrank : ∀ r, w.db.operation? o = some r → 2 ≤ r.state.rank := fun r hr => by
        obtain ⟨r', s, caller, token, key, session, hr', h2, -⟩ := hm
        cases hr.symm.trans hr'
        exact h2
      obtain ⟨r, hr, hcl⟩ := claimed_of_settled hl hrun hi rfl rfl hid hset hrank
      cases hrow.symm.trans hr
      exact hok row _ hcl ⟨_, by simp; exact .inl rfl, ⟨_, _, rfl⟩⟩

/-! ## Running the approved operation -/

/-- An operation that has not got so far has not been entered. -/
theorem Inv.not_entered (hi : Inv d w) {r : OperationRecord} (hr : w.db.operation? o = some r)
    (h : r.state.rank ≤ 3) : ∀ e ∈ w.log, ¬ e.Enters o := fun e he hent => by
  obtain ⟨newer, older, -, hok⟩ := hi.history.lawful.of_mem he
  obtain ⟨⟨r', hr', hst⟩, -⟩ := hok.enter o hent
  obtain ⟨r'', hr'', hb⟩ :=
    (hok.forward.trans (hi.history.past e he)).operation? hi.rows.sound hr'
  cases hr.symm.trans hr''
  have := hb.rank
  rw [hst] at this
  exact absurd (Nat.le_trans this h) (by decide)

theorem Own.mem_log (h : Own t o w w') {e : Entry} (he : e ∈ w.log) : e ∈ w'.log := by
  obtain ⟨new, hnew, -⟩ := h.log
  exact hnew ▸ List.mem_append_right _ he

/-- In the body of `o` the task has another operation `x` in hand too. -/
structure Lends (d : Discretion) (t : ℕ) (o x : String) (row r : OperationRecord) (w : World) :
    Prop where
  own : Holds d t o row w
  other : Holds d t x r w
  ne : x ≠ o
  calm : Calm d w
  touched : ∀ y, w.touched t y → y = o ∨ y = x

namespace Lends

variable {row r : OperationRecord}

theorem looked (h : Lends d t o x row r w) (hl : Looked d t w w') : Lends d t o x row r w' :=
  ⟨h.own.rely hl.rely hl.ready.inv, h.other.rely hl.rely hl.ready.inv, h.ne, hl.calm,
    fun y hy => h.touched y (hl.rely.touched hy)⟩

theorem mark {m : Mark} (h : Lends d t o x row r w) (hi : Inv d (execMark t m w)) :
    Lends d t o x row r (execMark t m w) :=
  ⟨h.own.mark hi, h.other.mark hi, h.ne, by cases m <;> exact h.calm.same (.refl _),
    fun y hy => h.touched y (touched_mark hy)⟩

theorem moves {r' : OperationRecord} {s : OperationState} (h : Lends d t o x row r w)
    (hm : Moves d t r r' s w w') (hs : s.rank ≤ 4) : Lends d t o x row r' w' := by
  have hid := (Database.operation?_some h.other.row).2
  have hown : Own t x w w' := hid ▸ hm.own
  refine ⟨h.own.own hown hm.inv h.ne, hm.holds h.other hs, h.ne, hm.calm h.calm, fun y hy => ?_⟩
  exact (hown.touched hy).elim (h.touched y) .inr

/-- The other operation is settled. -/
theorem leaves {r' : OperationRecord} {s : OperationState} {α : Type} {res : Except Exn α}
    (h : Lends d t o x row r w) (hm : Moves d t r r' s w w') (hd : w'.isDone x)
    (hres : res ≠ .error .cancelled) : Leaves d t o row res w' := by
  have hid := (Database.operation?_some h.other.row).2
  have hown : Own t x w w' := hid ▸ hm.own
  refine ⟨h.own.own hown hm.inv h.ne, hm.calm h.calm, fun _ y hy => ?_⟩
  have : y = o ∨ y = x := (hown.touched hy).elim (h.touched y) .inr
  rcases this with hy | rfl
  · exact .inl hy
  · exact .inr ⟨hd, hres⟩

end Lends

theorem wp_settleApproved {row r : OperationRecord} {s : OperationState} {final : Payload}
    {changed : List String} {b : Bool} {status : Status} (h : Lends d t o x row r w)
    (hm : r.state.mayBecome s = true) (hs : 5 ≤ s.rank) :
    (settleApproved x s final changed b status).wp (rules settings d t)
      (fun res w' => Leaves d t o row res w') w :=
  Prog.wp_bind (wp_finish h.other hm hs fun _ _ hmv hd =>
    ⟨fun _ _ => h.leaves hmv hd (by simp), by simp⟩)

theorem wp_approvedEnd {caller : Caller} {s : String} {row running : OperationRecord}
    {res : Except Exn Outcome} (h : Lends d t o x row running w)
    (hs : running.state = .running) :
    (approvedEnd caller s running res).wp (rules settings d t)
      (fun res w' => Leaves d t o row res w') w := by
  have hid : running.operationId = x := (Database.operation?_some h.other.row).2
  have settle : ∀ {st final changed b status}, running.state.mayBecome st = true → 5 ≤ st.rank →
      (settleApproved x st final changed b status).wp (rules settings d t)
        (fun res w' => Leaves d t o row res w') w := fun hm h5 => wp_settleApproved h hm h5
  unfold approvedEnd
  rw [hid]
  split
  · refine Prog.wp_bind (wp_requestIdOf h.own.called fun rid => ⟨fun _ _ => ?_, by simp⟩)
    exact settle (by rw [hs]; decide) (by decide)
  · have hlegal : Legal t (.mark (.dropped x)) w :=
      ⟨h.other.called, h.other.started, h.other.owner⟩
    refine Prog.wp_bind (wp_dropped hlegal fun w' htidy hi hc hw => ⟨fun _ _ => ?_, by simp⟩)
    subst hw
    exact ⟨h.own.mark hi, hc, fun ht => by rw [htidy] at ht; cases ht⟩
  · refine Prog.wp_bind (wp_requestIdOf h.own.called fun rid => ⟨fun _ _ => ?_, by simp⟩)
    split_ifs
    · exact settle (by rw [hs]; decide) (by decide)
    · exact settle (by rw [hs]; decide) (by decide)
  · refine Prog.wp_bind (wp_requestIdOf h.own.called fun rid => ⟨fun _ _ => ?_, by simp⟩)
    exact settle (by rw [hs]; decide) (by decide)

theorem wp_runApproved {env : Env} {caller : Caller} {s : String} {row r : OperationRecord}
    (h : Lends d t o x row r w) (hs : r.state = .awaitingApproval)
    (hcons : ∃ e ∈ w.log, e.Consumes x) :
    (runApproved env caller s x).wp (rules env.settings d t)
      (fun res w' => Leaves d t o row res w') w := by
  have hnone := h.own.inv.not_entered h.other.row (by rw [hs]; decide)
  refine Prog.wp_bind (wp_dispatch h.other hs (by decide) fun running w₁ hm => ⟨?_, by simp⟩)
  rintro _ ⟨⟩
  have h₁ := h.moves hm (by decide)
  have hown : Own t x w w₁ := (Database.operation?_some h.other.row).2 ▸ hm.own
  obtain ⟨e, he, hc⟩ := hcons
  rw [(Database.operation?_some h₁.other.row).2]
  refine Prog.wp_bind (wp_enter h₁.other hm.state
    (fun e he hent => hnone e (hm.marks e he _ hent) hent)
    (fun _ => ⟨e, hown.mem_log he, hc⟩) fun hi => ⟨fun _ _ => ?_, by simp⟩)
  have h₂ := h₁.mark hi
  have ready : Ready d t (execMark t (.enter x) w₁) := by
    refine ⟨h₂.own.toLive, fun y hy => ?_⟩
    have : x = y := by simpa [execMark] using hy
    subst this
    exact ⟨h₂.other.inHand, running, h₂.other.row, hm.state⟩
  exact (Prog.wp_andThen _ _ _).2 (Prog.wp_mono
    (fun _ _ hl => wp_approvedEnd (h₂.looked hl) hm.state) (wp_carry ready h₂.calm))

/-! ## The bodies of the two tools -/

/-- The operation was there, in this state, when it was looked up. -/
theorem Since.found (h : Since w₀ w) (hs : w.db.Sound) {r : OperationRecord}
    (hr : w₀.db.operation? o = some r) : ∃ r', w.db.operation? o = some r' ∧ r.Becomes r' :=
  h.later.operation? hs hr

/-- An operation with a pending approval is not one that the task has in hand. -/
theorem Claimed.ne {row r : OperationRecord} (hc : Claimed d t x r w w') (hh : Holds d t o row w) :
    x ≠ o := by
  rintro rfl
  obtain ⟨a, ha, hp⟩ := hc.pending
  exact hh.approval a ha hp

theorem Inside.lends {row r : OperationRecord} (h : Inside d t o row w)
    (hc : Claimed d t x r w w') : Lends d t o x row r w' :=
  ⟨h.toHolds.own hc.own hc.holds.inv (hc.ne h.toHolds), hc.holds, hc.ne h.toHolds, hc.calm h.calm,
    fun y hy => (hc.own.touched hy).imp (h.only y) id⟩

/-- The common start of the two bodies: the lookup again, and the state that was seen before. -/
theorem wp_lookup {env : Env} {s message : String} {row original : OperationRecord}
    (hin : Inside d t o row w) (hw : Since w₀ w) {rest : Service Outcome}
    (h : ∀ w' found, Inside d t o row w' → Since w₀ w' → original.state = .awaitingApproval →
      w'.db.operation? x = some found → found.sessionId = some s →
      w'.activeIn found.projectId s →
      rest.wp (rules env.settings d t) (fun res w'' => Leaves d t o row res w'') w') :
    (do
      let _ ← requireOperationForSession env x s
      if original.state ≠ .awaitingApproval then
        Service.reject .operationNotCancelable message
          [("operation_id", .str x), ("state", .str original.state.text)]
      rest : Service Outcome).wp (rules env.settings d t)
        (fun res w' => Leaves d t o row res w') w := by
  refine Prog.wp_bind (Prog.wp_mono (fun res w₁ hl => ⟨fun found h' => ?_, fun e _ => ?_⟩)
    (wp_requireOperationForSession hin.ready hin.calm))
  · obtain ⟨hl, hfound⟩ := hl
    obtain ⟨hrow, hsid, hact⟩ := hfound found h'
    have hin := hin.looked hl
    split_ifs with hst
    · exact Prog.wp_bind ⟨fun _ h => (by cases h), fun _ _ => hin.leaves⟩
    · exact h w₁ found hin (hw.rely hl.rely) (by simpa using hst) hrow hsid hact
  · exact (hin.looked hl.1).leaves

/-- A call that confirms an operation which waited when the call looked it up. -/
theorem runsWell_confirm (env : Env) {caller : Caller} {original : OperationRecord}
    {s token : String}
    {key : RequestKey} (hcall : (t, (caller, ToolCall.approvalConfirm x s token key)) ∈ w₀.calls)
    (hfound : w₀.db.operation? x = some original) {row : OperationRecord}
    (hin : Inside d t o row w) (hw : Since w₀ w) :
    (confirmBody env caller original x s token).wp (rules env.settings d t)
      (fun res w' => Leaves d t o row res w') w := by
  refine wp_lookup hin hw fun w₁ found hin hw hst hrow hsid hact => ?_
  have hrank : 2 ≤ found.state.rank := by
    obtain ⟨r', hr', hb⟩ := hw.found hin.inv.rows.sound hfound
    cases hrow.symm.trans hr'
    have := hb.rank
    rwa [hst] at this
  obtain ⟨session, hsession, hsp, hso, hss⟩ := hact
  have hm : mayConsume t x ⟨token⟩ w₁ := ⟨found, s, caller, token, key, session, hrow, hrank, hsid,
    hw.calls _ hcall, rfl, hsession, hsp, hso, hss⟩
  refine Prog.wp_bind (wp_consumeApproval hin.toLive hm (fun e => ⟨by simp, fun _ _ => hin.leaves⟩)
    fun r w₂ hc hcons => ⟨?_, by simp⟩)
  rintro _ ⟨⟩
  rw [(Database.operation?_some hc.holds.row).2]
  exact wp_runApproved (hin.lends hc) hc.state hcons

/-- A call that cancels an operation which waited when the call looked it up. -/
theorem runsWell_cancel (env : Env) {caller : Caller} {original : OperationRecord} {s : String}
    (hfound : w₀.db.operation? x = some original) {row : OperationRecord}
    (hin : Inside d t o row w) (hw : Since w₀ w) :
    (cancelBody env caller original x s).wp (rules env.settings d t)
      (fun res w' => Leaves d t o row res w') w := by
  refine wp_lookup hin hw fun w₁ found hin hw hst hrow hsid hact => ?_
  have hrank : ∀ r, w₁.db.operation? x = some r → 2 ≤ r.state.rank := fun r hr => by
    obtain ⟨r', hr', hb⟩ := hw.found hin.inv.rows.sound hfound
    cases hr.symm.trans hr'
    have := hb.rank
    rwa [hst] at this
  have hlegal : Legal t (.operation (.cancelApproval x "client_cancelled")) w₁ :=
    ⟨hin.called, .inr hin.started, hrank⟩
  refine Prog.wp_bind (Prog.wp_handle (wp_operation hlegal (fun st e _ => ⟨by simp, ?_⟩)
    fun st a db' hrun hi => ⟨fun _ _ => ⟨fun _ _ => ?_, by simp⟩, by simp⟩))
  · rintro e' ⟨⟩
    cases e <;> exact ⟨by simp, fun _ _ => hin.leaves⟩
  · obtain ⟨b, b', hid, -, hset⟩ :=
      Database.cancelApproval_ok hin.inv.rows.sound (ok_of_map hrun)
    obtain ⟨r, -, hc⟩ := claimed_of_settled hin.toLive hrun hi rfl rfl hid hset hrank
    have hl := hin.lends hc
    refine Prog.wp_bind (wp_requestIdOf hl.own.called fun rid => ⟨fun _ _ => ?_, by simp⟩)
    exact Prog.wp_bind (wp_finish hl.other (by rw [hc.state]; decide) (by decide)
      fun _ _ hmv hd => ⟨fun _ _ => hl.leaves hmv hd (by simp), by simp⟩)

end CodemcpBridge
