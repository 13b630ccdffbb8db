import CodemcpBridge.Discipline.Guarantee

/-!
# The discipline of the Bridge

The rely–guarantee discipline that the calls of the Bridge process are proved to obey: the
invariant, what is so between the turns, and what a call that ends has settled.
-/

namespace CodemcpBridge

open Database (Sound Later SameOperations)

variable {settings : PolicySettings} {d : Discretion} {t : ℕ} {w w' : World}

/-- Between the turns every operation has the record of who created it, unless a crash may strike
before it is written. -/
def Calm (d : Discretion) (w : World) : Prop := d.recorded = true → allRecorded w.db = true

/-- The task has created the operation or taken it into execution. -/
def World.touched (w : World) (t : ℕ) (o : String) : Prop :=
  ∃ e ∈ w.log, e.task = t ∧ e.Touches o

/-- The operation is settled, or waits with a pending approval. -/
def World.isSettled (w : World) (o : String) : Prop :=
  ∃ r, w.db.operation? o = some r ∧ (5 ≤ r.state.rank ∨
    (r.state = .awaitingApproval ∧ ∃ a, w.db.approval? o = some a ∧ a.status = .pending))

/-- The call has settled every operation that it has touched. -/
def Settles (t : ℕ) (cancelled : Prop) (w : World) : Prop :=
  ∀ o, w.touched t o → w.isSettled o ∧ (cancelled → ∀ r, w.db.operation? o = some r →
    r.mutation = true → (∃ e ∈ w.log, e.task = t ∧ e.Dispatches o) → r.state = .unknown)

/-- What a call is proved to end in. -/
def Ended (d : Discretion) (t : ℕ) {α : Type} (r : Except Exn α) (w : World) : Prop :=
  Calm d w ∧ (d.tidy = true → Settles t (∃ e, r = .error e ∧ e = .cancelled) w)

/-! ## Arrivals and ends -/

theorem inv_arrive {c : Call} (hi : Inv d w) : Inv d { w with calls := (t, c) :: w.calls } where
  rows := hi.rows
  history := hi.history.mono fun _ hc => List.mem_cons_of_mem _ hc
  idle := hi.idle
  owners o t' ho := ⟨List.mem_cons_of_mem _ (hi.owners o t' ho).1, (hi.owners o t' ho).2⟩
  currents t' o ho := List.mem_cons_of_mem _ (hi.currents t' o ho)
  tasks := ⟨fun p hp => List.mem_cons_of_mem _ (hi.tasks.1 p hp),
    fun e he => List.mem_cons_of_mem _ (hi.tasks.2 e he)⟩
  attached := hi.attached
  attended := hi.attended
  handles := hi.handles

theorem rely_arrive {t' : ℕ} {c : Call} : Rely t' w { w with calls := (t, c) :: w.calls } :=
  { Rely.refl t' w with calls := fun _ hc => List.mem_cons_of_mem _ hc }

theorem inv_stopped (hi : Inv d w) (hm : d.attended = true → w.processes = [])
    (registry : Registry) : Inv d (w.stopped registry) where
  rows := hi.rows
  history := hi.history
  idle _ := by simp [World.stopped]
  owners o t' ho := by cases ho
  currents t' o ho := by cases ho
  tasks := by
    refine ⟨fun p hp => ?_, hi.tasks.2⟩
    obtain ⟨q, hq, rfl⟩ := List.mem_map.1 hp
    exact hi.tasks.1 q hq
  attached p hp ha := by
    obtain ⟨q, hq, rfl⟩ := List.mem_map.1 hp
    cases ha
  attended hd p hp := by
    obtain ⟨q, hq, rfl⟩ := List.mem_map.1 hp
    simp [hm hd] at hq
  handles := by
    have : (w.stopped registry).processes.map Process.handle = w.processes.map Process.handle := by
      simp [World.stopped, Function.comp_def]
    exact this ▸ hi.handles

theorem mayStop_processes (h : mayStop d w = true) : d.attended = true → w.processes = [] :=
  fun hd => by simpa [mayStop, hd] using (Bool.and_eq_true_iff.1 h).2

theorem mayStop_calm (h : mayStop d w = true) : Calm d w := fun hd => by
  simpa [mayStop, hd] using (Bool.and_eq_true_iff.1 h).1

/-- One transition of a shutdown, which leaves the store where it fails. -/
theorem shutdownStep_same {st : Stamp} {db : Database} {s : String} {status : SessionStatus} :
    db.SameOperations (match db.transitionSession st s status (some "bridge_shutdown") with
      | .ok (_, db) => db
      | .error _ => db) := by
  split
  · next h => exact Database.transitionSession_same h
  · exact .refl _

theorem closeSession_same {st : Stamp} {db : Database} {s : String} :
    db.SameOperations (closeSession st db s) := by
  unfold closeSession
  split
  · dsimp only
    split_ifs
    · exact shutdownStep_same.trans shutdownStep_same
    · exact .refl _
    · exact shutdownStep_same
  · exact .refl _

theorem closeBridge_same {db : Database} (st : Stamp) : db.SameOperations (closeBridge db st) := by
  have fold : ∀ (l : List String) (db : Database),
      db.SameOperations (l.foldl (closeSession st) db) := fun l => by
    induction l with
    | nil => exact fun db => .refl db
    | cons s l ih => exact fun db => closeSession_same.trans (ih _)
  exact fold _ db

/-! ## Who created an operation -/

theorem operationAuthContext?_isSome {db : Database} {o : String} :
    (db.operationAuthContext? o).isSome = true ↔
      ∃ e ∈ db.authEvents, e.operationId = some o := by
  rw [Database.operationAuthContext?_eq, Option.isSome_map, List.isSome_head?]
  constructor
  · intro h
    obtain ⟨e, he⟩ := List.exists_mem_of_ne_nil _ (by simpa using h)
    simp only [mem_orderBy, List.mem_filter, beq_iff_eq] at he
    exact ⟨e, he⟩
  · rintro ⟨e, he, hid⟩ hnil
    have : e ∈ ([] : List AuditEvent) := by
      rw [← hnil]
      simp [he, hid]
    cases this

theorem allRecorded_iff {db : Database} : allRecorded db = true ↔
    ∀ r ∈ db.operations, r.replayKey.namespace_ = none ∨
      ∃ e ∈ db.authEvents, e.operationId = some r.operationId := by
  simp only [allRecorded, List.all_eq_true, Bool.or_eq_true, Option.isNone_iff_eq_none,
    operationAuthContext?_isSome]

/-- What is recorded stays recorded while no operation is new. -/
theorem Calm.of_rows (db : Database) (h : Calm d w)
    (hr : ∀ r' ∈ db.operations, ∃ r ∈ w.db.operations, r.Becomes r')
    (he : ∀ e ∈ w.db.authEvents, e ∈ db.authEvents) (hw : w'.db = db) : Calm d w' := fun hd => by
  rw [hw, allRecorded_iff]
  intro r' hr'
  obtain ⟨r, hm, hb⟩ := hr r' hr'
  rcases allRecorded_iff.1 (h hd) r hm with hn | ⟨e, hev, hid⟩
  · exact .inl (hb.replayKey ▸ hn)
  · exact .inr ⟨e, he e hev, hid.trans (congrArg some hb.operationId.symm)⟩

theorem Calm.same (h : Calm d w) (hs : w.db.SameOperations w'.db) : Calm d w' :=
  h.of_rows w'.db (fun r hr => ⟨r, hs.operations ▸ hr, .refl r⟩)
    (fun _ he => hs.authEvents ▸ he) rfl

/-! ## The discipline -/

/-- The question with which `start` begins: is there a row under the key of the request? -/
def Ask.looksUp : Ask → Bool
  | .quiet (.store (.getOperationByClientRequestId ..)) => true
  | _ => false

/-- The discipline; a request is looked up in a calm store. -/
def discipline (settings : PolicySettings) (d : Discretion) :
    Async.Discipline (bridge settings d) where
  inv := Inv d
  calm := Calm d
  rely := Rely
  legal t q w := Legal t q w ∧ (q.looksUp = true → Calm d w)
  post t _ r w := Ended d t r w
  rely_refl := Rely.refl
  rely_trans := Rely.trans
  post_calm h := h.1
  exec_inv hi hl h := exec_inv hi hl.1 h
  exec_rely ht hi hl h := exec_rely ht hi hl.1 h
  arrive_inv {t c w w'} hi h := by
    simp only [bridge] at h
    split at h
    · cases h
    · cases h
      exact inv_arrive hi
  arrive_rely {t t' c w w'} ht hi h := by
    simp only [bridge] at h
    split at h
    · cases h
    · cases h
      exact rely_arrive
  crash_inv {x w w'} hi h := by
    simp only [bridge] at h
    split at h
    · rename_i hm
      cases h
      exact inv_stopped hi (mayStop_processes hm) x.1
    · cases h
  crash_calm {x w w'} h := by
    simp only [bridge] at h
    split at h
    · rename_i hm
      cases h
      exact (mayStop_calm hm).same (.refl _)
    · cases h
  quit_inv {x w w'} hi h := by
    simp only [bridge] at h
    split at h
    · rename_i hm
      cases h
      have hk := hi.keeps (keeps_db (closeBridge_same x.2))
      exact inv_stopped hk (mayStop_processes (w := w) hm) x.1
    · cases h
  quit_calm {x w w'} hc h := by
    simp only [bridge] at h
    split at h
    · cases h
      exact hc.same (closeBridge_same x.2)
    · cases h

end CodemcpBridge
