import CodemcpBridge.Discipline.Starting

/-!
# Running an operation under the discipline

`_execute` from the approval check to the last answer: whatever the body of the operation does and
however it ends, the operation is settled, or it waits for a token that was issued for it.
-/

namespace CodemcpBridge

open Database (Sound Later SameOperations)
open Async (Prog)

variable {settings : PolicySettings} {d : Discretion} {t : ℕ} {o : String} {w w₀ w' w'' : World}

/-! ## What a call has to show in the end -/

/-- The operation is settled for good. -/
def World.isDone (w : World) (o : String) : Prop :=
  ∃ r, w.db.operation? o = some r ∧ 5 ≤ r.state.rank

theorem World.isDone.later (h : w.isDone o) (hl : w.db.Later w'.db) (hs : w'.db.Sound) :
    w'.isDone o := by
  obtain ⟨r, hr, h5⟩ := h
  obtain ⟨r', hr', hb⟩ := hl.operation? hs hr
  exact ⟨r', hr', Nat.le_trans h5 hb.rank⟩

/-- Nothing but the operation `o` is left to settle for the task. -/
def World.only (w : World) (t : ℕ) (o : String) : Prop := ∀ y, w.touched t y → y = o

theorem Rely.only (h : Rely t w w') (ho : w.only t o) : w'.only t o := fun y hy =>
  ho y (h.touched hy)

theorem Own.only (h : Own t o w w') (ho : w.only t o) : w'.only t o := fun y hy =>
  (h.touched hy).elim (ho y) id

theorem Moves.clear {r row : OperationRecord} {s : OperationState} (h : Moves d t r row s w w')
    (ho : w.clear o) : w'.clear o := fun e he =>
  ⟨fun hj => (ho e (h.marks e he _ hj.choose_spec)).1 hj, fun hj => (ho e (h.marks e he _ hj)).2 hj⟩

/-- Later than the world in which something was looked up. -/
structure Since (w₀ w : World) : Prop where
  later : w₀.db.Later w.db
  calls : ∀ c ∈ w₀.calls, c ∈ w.calls

theorem Since.refl (w : World) : Since w w := ⟨.refl _, fun _ h => h⟩

theorem Since.rely (h : Since w₀ w) (hr : Rely t w w') : Since w₀ w' :=
  ⟨h.later.trans hr.later, fun c hc => hr.calls c (h.calls c hc)⟩

theorem Since.own (h : Since w₀ w) (ho : Own t o w w') : Since w₀ w' :=
  ⟨h.later.trans ho.later, fun c hc => ho.calls ▸ h.calls c hc⟩

/-- What has to be shown of a call that leaves its one operation settled. -/
theorem ended_of_done {α : Type} {r : Except Exn α} (hc : Calm d w) (hd : w.isDone o)
    (ht : d.tidy = true → ∀ y, w.touched t y → y = o ∨ (w.isDone y ∧ r ≠ .error .cancelled))
    (hcancel : r = .error .cancelled → ∀ row, w.db.operation? o = some row →
      row.mutation = true → row.state = .unknown) : Ended d t r w := by
  refine ⟨hc, fun htidy y hy => ?_⟩
  have settled : ∀ {x}, w.isDone x → w.isSettled x := fun ⟨r, hr, h5⟩ => ⟨r, hr, .inl h5⟩
  rcases ht htidy y hy with rfl | ⟨hy, hne⟩
  · refine ⟨settled hd, fun hcan row hrow hm _ => hcancel ?_ row hrow hm⟩
    obtain ⟨e, he, rfl⟩ := hcan
    exact he
  · refine ⟨settled hy, fun hcan => ?_⟩
    obtain ⟨e, he, rfl⟩ := hcan
    exact absurd he hne

/-- A call that has touched nothing has settled everything. -/
theorem ended_of_untouched {α : Type} {r : Except Exn α} (hc : Calm d w)
    (ht : ∀ y, ¬ w.touched t y) : Ended d t r w :=
  ⟨hc, fun _ y hy => absurd hy (ht y)⟩

/-- In a run that is not tidy nothing is claimed of a call that ends. -/
theorem ended_of_untidy {α : Type} {r : Except Exn α} (hc : Calm d w) (ht : d.tidy = false) :
    Ended d t r w :=
  ⟨hc, fun h => by rw [ht] at h; cases h⟩

/-! ## In the body -/

/-- The task is in the body of the operation that it has in hand. -/
structure Inside (d : Discretion) (t : ℕ) (o : String) (r : OperationRecord) (w : World) : Prop
    extends Holds d t o r w where
  calm : Calm d w
  state : r.state = .running
  current : w.current t = some o
  only : w.only t o

namespace Inside

variable {row : OperationRecord}

theorem ready (h : Inside d t o row w) : Ready d t w := by
  refine ⟨h.toLive, fun x hx => ?_⟩
  cases h.current.symm.trans hx
  exact ⟨h.inHand, row, h.row, h.state⟩

theorem looked (h : Inside d t o row w) (hl : Looked d t w w') : Inside d t o row w' :=
  ⟨h.toHolds.rely hl.rely hl.ready.inv, hl.calm, h.state, hl.rely.current.trans h.current,
    hl.rely.only h.only⟩

end Inside

/-- What the body of the operation leaves when it has ended in `r`. -/
structure Leaves (d : Discretion) (t : ℕ) (o : String) (r : OperationRecord) {α : Type}
    (res : Except Exn α) (w : World) : Prop extends Holds d t o r w where
  calm : Calm d w
  settled : d.tidy = true → ∀ y, w.touched t y → y = o ∨ (w.isDone y ∧ res ≠ .error .cancelled)

theorem Inside.leaves {row : OperationRecord} {α : Type} {r : Except Exn α}
    (h : Inside d t o row w) : Leaves d t o row r w :=
  ⟨h.toHolds, h.calm, fun _ y hy => .inl (h.only y hy)⟩

/-- The body of the execution keeps to the discipline in every world later than `w₀`. -/
def RunsWell (settings : PolicySettings) (d : Discretion) (t : ℕ) (w₀ : World) (x : Execution) :
    Prop :=
  ∀ prepared o row w, Inside d t o row w → Since w₀ w →
    (x.operation prepared o).wp (rules settings d t) (fun r w' => Leaves d t o row r w') w

/-- A body that the process carries out only looks around. -/
theorem wp_carry_leaves {row : OperationRecord} {α : Type} {x : Body α}
    (h : Inside d t o row w) :
    (carry settings x).wp (rules settings d t) (fun r w' => Leaves d t o row r w') w :=
  Prog.wp_mono (fun _ _ hl => (h.looked hl).leaves) (wp_carry h.ready h.calm)

/-! ## Settling -/

/-- Storing the last state of an operation in hand. -/
theorem wp_finish {r : OperationRecord} {s : OperationState} {payload : Payload}
    (hh : Holds d t o r w) (hm : r.state.mayBecome s = true) (hs : 5 ≤ s.rank)
    {P : Except Exn OperationRecord → World → Prop}
    (h : ∀ row w', Moves d t r row s w w' → w'.isDone o → P (.ok row) w') :
    (finish o s payload).wp (rules settings d t) P w := by
  refine wp_transition hh.toLive hh.row hh.owner (.inr (.inr hh.approval)) (fun _ hx => by cases hx)
    hm fun row w' hm => h row w' hm ⟨row, ?_, hm.state ▸ hs⟩
  exact (Database.operation?_some hh.row).2 ▸ hm.found

theorem wp_settleError {x : Execution} {rid : String} {r : OperationRecord} {s : OperationState}
    {error : BridgeError} (hh : Holds d t o r w) (hm : r.state.mayBecome s = true)
    (hs : 5 ≤ s.rank) {P : Except Exn Payload → World → Prop}
    (h : ∀ payload row w', Moves d t r row s w w' → w'.isDone o → P (.ok payload) w') :
    (settleError x rid o s error).wp (rules settings d t) P w := by
  refine Prog.wp_bind (wp_finish hh hm hs fun row w' hm hd => ⟨fun _ _ => ?_, by simp⟩)
  exact h _ row w' hm hd

/-- Storing the last state of the operation in hand settles all that the body has left. -/
theorem ended_of_moves {row row' : OperationRecord} {s : OperationState} {α β : Type}
    {r : Except Exn α} {r' : Except Exn β} (hl : Leaves d t o row r w)
    (hm : Moves d t row row' s w w') (hd : w'.isDone o)
    (hr : r' = .error .cancelled → r = .error .cancelled ∧ s = .unknown) : Ended d t r' w' := by
  have hid := (Database.operation?_some hl.row).2
  refine ended_of_done (hm.calm hl.calm) hd (fun htidy y hy => ?_) fun hc x hx _ => ?_
  · rcases hm.own.touched hy with hy | rfl
    · refine (hl.settled htidy y hy).imp id fun hy =>
        ⟨hy.1.later hm.own.later hm.inv.rows.sound, ?_⟩
      exact fun hc => hy.2 (hr hc).1
    · exact .inl hid
  · have := hm.found
    rw [hid, hx] at this
    rw [Option.some.inj this, hm.state]
    exact (hr hc).2

/-- The handlers of the body's exceptions settle the operation, or leave it in an untidy run. -/
theorem wp_settle {x : Execution} {rid : String} {row : OperationRecord} {e : Exn} {α : Type}
    (hl : Leaves d t o row (.error e : Except Exn α) w) (hs : row.state = .running) :
    (settle x rid o e).wp (rules settings d t) (fun r w' => Ended d t r w') w := by
  have error : ∀ {s be}, row.state.mayBecome s = true → 5 ≤ s.rank →
      (settleError x rid o s be).wp (rules settings d t) (fun r w' => Ended d t r w') w :=
    fun hm h5 => wp_settleError hl.toHolds hm h5 fun payload row' w' hmv hd =>
      ended_of_moves hl hmv hd (by simp)
  cases e with
  | bridge be =>
    simp only [settle]
    split_ifs <;> exact error (by rw [hs]; decide) (by decide)
  | cancelled =>
    simp only [settle]
    cases hx : x.mutation with
    | true =>
      rw [if_neg (by simp), cancelledError, if_pos hx]
      refine Prog.wp_bind ⟨fun _ h => ?_, fun _ h => by cases h⟩
      cases h
      have hm : row.state.mayBecome .unknown = true := by rw [hs]; decide
      have h5 : 5 ≤ OperationState.unknown.rank := by decide
      refine Prog.wp_bind (Prog.wp_attempt (wp_settleError hl.toHolds hm h5
        fun payload row' w' hmv hd => ⟨fun _ _ => ?_, by simp⟩))
      exact ended_of_moves hl hmv hd fun _ => ⟨rfl, rfl⟩
    | false =>
      have hlegal : Legal t (.mark (.dropped o)) w := ⟨hl.called, hl.started, hl.owner⟩
      rw [if_pos (by simp), cancelledError_read o hx]
      refine Prog.wp_bind (wp_dropped hlegal fun w' htidy _ hc _ => ⟨fun _ _ => ?_, by simp⟩)
      exact Prog.wp_bind ⟨fun _ h => (by cases h), fun e _ => ended_of_untidy hc htidy⟩
  | _ => exact error (by rw [hs]; decide) (by decide)

/-! ## Passing points -/

theorem touched_mark {m : Mark} {y : String} (h : (execMark t m w).touched t y) :
    w.touched t y := by
  obtain ⟨e, he, ht, hy⟩ := h
  have hlog : (execMark t m w).log = ⟨t, .mark m, w.db, w.db⟩ :: w.log := by cases m <;> rfl
  rw [hlog] at he
  rcases List.mem_cons.1 he with rfl | he
  · rcases hy with ⟨⟨p, s, w, k, n, kind, mu, i, hev⟩, -⟩ | ⟨s, x, r, dd, hev, -⟩ <;> cases hev
  · exact ⟨e, he, ht, hy⟩

/-- Passing a point leaves an operation in hand. -/
theorem Holds.mark {r : OperationRecord} {m : Mark} (h : Holds d t o r w)
    (hi : Inv d (execMark t m w)) : Holds d t o r (execMark t m w) := by
  cases m <;> exact ⟨⟨hi, h.started, h.called, h.noProcess⟩, h.owner, h.row, h.rank, h.approval⟩

theorem Since.mark {m : Mark} (h : Since w₀ w) : Since w₀ (execMark t m w) := by
  cases m <;> exact ⟨h.later, h.calls⟩

/-- The body of an operation in hand starts. -/
theorem wp_enter {r : OperationRecord} (hh : Holds d t o r w) (hs : r.state = .running)
    (hnone : ∀ e ∈ w.log, ¬ e.Enters o)
    (hcons : (∃ e ∈ w.log, e.Judges o true) → ∃ e ∈ w.log, e.Consumes o)
    {P : Except Exn Unit → World → Prop}
    (h : Inv d (execMark t (.enter o) w) → P (.ok ()) (execMark t (.enter o) w)) :
    (Service.mark (.enter o)).wp (rules settings d t) P w :=
  wp_mark (m := .enter o) ⟨hh.called, hh.started, hh.owner, ⟨r, hh.row, hs⟩, hnone, hcons⟩
    fun _ _ _ _ hi => h hi

/-! ## Dispatching -/

theorem Moves.trans {r row row' : OperationRecord} {s s' : OperationState}
    (h : Moves d t r row s w w') (h' : Moves d t row row' s' w' w'') :
    Moves d t r row' s' w w'' := by
  have hid : row.operationId = r.operationId := h.becomes.operationId
  exact ⟨h'.inv, h.own.trans (hid ▸ h'.own), h'.owner.trans h.owner, hid ▸ h'.found,
    h.becomes.trans h'.becomes, h'.state, fun o => (h'.approval o).trans (h.approval o),
    fun hc => h'.calm (h.calm hc), fun e he m hm => h.marks e (h'.marks e he m hm) m hm⟩

theorem Moves.holds {r row : OperationRecord} {s : OperationState} (h : Moves d t r row s w w')
    (hh : Holds d t o r w) (hs : s.rank ≤ 4) : Holds d t o row w' := by
  have hid := (Database.operation?_some hh.row).2
  refine ⟨h.own.live hh.toLive h.inv, ?_, hid ▸ h.found, h.state ▸ hs, fun a ha => ?_⟩
  · rw [h.owner]
    exact hh.owner
  · exact hh.approval a (h.approval o ▸ ha)

/-- Taking an operation in hand into execution. -/
theorem wp_dispatch {r : OperationRecord} (hh : Holds d t o r w) {s : OperationState}
    (hs : r.state = s) (hm : s.mayBecome .dispatched = true)
    {P : Except Exn OperationRecord → World → Prop}
    (h : ∀ row w', Moves d t r row .running w w' → P (.ok row) w') :
    (dispatch o s).wp (rules settings d t) P w := by
  refine Prog.wp_bind (wp_transition hh.toLive hh.row hh.owner (.inr (.inr hh.approval))
    (fun _ hx => by cases hx; exact hs) (hs ▸ hm) fun row w' hmv => ⟨?_, by simp⟩)
  rintro _ ⟨⟩
  have hh' := hmv.holds hh (by decide)
  refine wp_transition hh'.toLive hh'.row hh'.owner (.inr (.inr hh'.approval))
    (fun _ hx => by cases hx; rfl) (by rw [hmv.state]; decide) fun row' w'' hmv' => ?_
  exact h row' w'' (hmv.trans hmv')

/-! ## Running -/

/-- The task has a new operation in hand that it has not judged or entered yet. -/
structure Pending (d : Discretion) (t : ℕ) (o : String) (r : OperationRecord) (w : World) : Prop
    extends Holds d t o r w where
  calm : Calm d w
  state : r.state = .validated
  only : w.only t o
  clear : w.clear o

theorem wp_runOperation {x : Execution} {prepared : Prepared} {rid : String}
    {r : OperationRecord} (hx : RunsWell settings d t w₀ x) (hp : Pending d t o r w)
    (hw : Since w₀ w) :
    (runOperation x prepared rid o).wp (rules settings d t) (fun r w' => Ended d t r w') w := by
  refine Prog.wp_handle (Prog.wp_bind (wp_dispatch hp.toHolds hp.state (by decide)
    fun row w₁ hmv => ⟨?_, by simp⟩))
  rintro _ ⟨⟩
  have hid := (Database.operation?_some hp.row).2
  have hown : Own t o w w₁ := hid ▸ hmv.own
  have hh := hmv.holds hp.toHolds (by decide)
  have hclear := hmv.clear hp.clear
  refine Prog.wp_bind (wp_enter hh hmv.state (fun e he => (hclear e he).2)
    (fun ⟨e, he, hj⟩ => absurd hj (hclear e he).1) fun hi => ⟨fun _ _ => ?_, by simp⟩)
  have hin : Inside d t o row (execMark t (.enter o) w₁) :=
    ⟨hh.mark hi, hmv.calm hp.calm, hmv.state, by simp [execMark],
      fun y hy => hown.only hp.only y (touched_mark hy)⟩
  refine Prog.wp_bind (Prog.wp_mono (fun res w₂ hl => ⟨?_, ?_⟩)
    (hx prepared o row _ hin ((hw.own hown).mark)))
  · rintro outcome rfl
    have hm : row.state.mayBecome (if outcome.status = .failed then .failed else .succeeded) = true
        ∧ 5 ≤ (if outcome.status = .failed then .failed else .succeeded : OperationState).rank := by
      rw [hmv.state]
      split_ifs <;> decide
    refine Prog.wp_bind (wp_finish hl.toHolds hm.1 hm.2 fun row' w₃ hmv' hd =>
      ⟨fun _ _ => ?_, by simp⟩)
    exact ⟨fun _ _ => ended_of_moves hl hmv' hd (by simp), by simp⟩
  · rintro e rfl
    exact ⟨by simp, fun e' he' => by cases he'; exact wp_settle hl hmv.state⟩

end CodemcpBridge
