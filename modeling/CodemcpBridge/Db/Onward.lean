import CodemcpBridge.Db.Sessions

/-!
# Where the store goes from here

Whatever methods run, in whichever order and with whatever arguments, a session keeps its project,
its owner and the record of who opened it, and is not active again once it has ended; a checkpoint
keeps what it was created with; and operations move forward.
-/

namespace CodemcpBridge

/-! ## Rows -/

/-- What a session may have become later. -/
structure SessionRecord.Onward (s s' : SessionRecord) : Prop where
  projectId : s'.projectId = s.projectId
  ownerId : s'.ownerId = s.ownerId
  active : s'.status = .active → s.status = .active ∨ s.status = .created
  created : s'.status = .created → s.status = .created

namespace SessionRecord.Onward

theorem refl (s : SessionRecord) : s.Onward s := ⟨rfl, rfl, .inl, id⟩

theorem trans {s s' s'' : SessionRecord} (h : s.Onward s') (h' : s'.Onward s'') : s.Onward s'' := by
  refine ⟨h'.projectId.trans h.projectId, h'.ownerId.trans h.ownerId, fun ha => ?_,
    fun hc => h.created (h'.created hc)⟩
  rcases h'.active ha with ha | hc
  · exact h.active ha
  · exact .inr (h.created hc)

end SessionRecord.Onward

namespace CheckpointRecord

/-- The fields of a checkpoint that are written once. -/
def origin (c : CheckpointRecord) : CheckpointRecord :=
  { c with after := none, diffHash := none, status := .created, updatedAt := 0 }

/-- What a checkpoint may have become later. -/
structure Onward (c c' : CheckpointRecord) : Prop where
  origin : c'.origin = c.origin
  finalized : c.after.isSome → c'.after.isSome
  restored : c.status = .restored → c'.status = .restored

namespace Onward

variable {c c' c'' : CheckpointRecord}

theorem refl (c : CheckpointRecord) : c.Onward c := ⟨rfl, id, id⟩

theorem trans (h : c.Onward c') (h' : c'.Onward c'') : c.Onward c'' :=
  ⟨h'.origin.trans h.origin, fun ha => h'.finalized (h.finalized ha),
    fun hr => h'.restored (h.restored hr)⟩

/-- A field that is written once is kept. -/
theorem keeps {β : Type} (h : c.Onward c') (field : CheckpointRecord → β)
    (once : ∀ c : CheckpointRecord, field c.origin = field c) : field c' = field c := by
  rw [← once c', ← once c, h.origin]

theorem branch (h : c.Onward c') : c'.branch = c.branch := h.keeps _ fun _ => rfl

theorem head (h : c.Onward c') : c'.head = c.head := h.keeps _ fun _ => rfl

theorem refName (h : c.Onward c') : c'.refName = c.refName := h.keeps _ fun _ => rfl

theorem projectId (h : c.Onward c') : c'.projectId = c.projectId := h.keeps _ fun _ => rfl

theorem sessionId (h : c.Onward c') : c'.sessionId = c.sessionId := h.keeps _ fun _ => rfl

end Onward

end CheckpointRecord

/-! ## Stores -/

namespace Database

/-- What the store may have become later. -/
structure Onward (db db' : Database) : Prop where
  sessions : Table.Onward SessionRecord.sessionId SessionRecord.Onward db.sessions db'.sessions
  contexts : ∃ events, db'.sessionEvents = db.sessionEvents ++ events ∧
    ∀ e ∈ events, ∀ s, e.sessionId = some s → db.session? s = none
  checkpoints : Table.Onward CheckpointRecord.checkpointId CheckpointRecord.Onward db.checkpoints
    db'.checkpoints

variable {db db' db'' : Database} {st : Stamp}

namespace Onward

/-- A session of a later store that has no row yet had none before. -/
theorem session?_none (h : db.Onward db') {s : String} (hs : db'.session? s = none) :
    db.session? s = none := by
  by_contra hne
  obtain ⟨r, hr⟩ := Option.ne_none_iff_exists'.1 hne
  obtain ⟨r', hr', -⟩ := h.sessions s r hr
  exact absurd hs (by rw [session?, hr']; exact Option.some_ne_none _)

theorem trans (h : db.Onward db') (h' : db'.Onward db'') : db.Onward db'' := by
  obtain ⟨events, he, hnew⟩ := h.contexts
  obtain ⟨events', he', hnew'⟩ := h'.contexts
  refine ⟨h.sessions.trans .trans h'.sessions,
    ⟨events ++ events', by rw [he', he, List.append_assoc], fun e hmem s hs => ?_⟩,
    h.checkpoints.trans .trans h'.checkpoints⟩
  rcases List.mem_append.1 hmem with hmem | hmem
  · exact hnew e hmem s hs
  · exact h.session?_none (hnew' e hmem s hs)

/-- A method that touches no session. -/
theorem of_sameSessions (h : db.SameSessions db')
    (hc : Table.Onward CheckpointRecord.checkpointId CheckpointRecord.Onward db.checkpoints
      db'.checkpoints) : db.Onward db' := by
  refine ⟨?_, ⟨[], by rw [h.sessionEvents, List.append_nil], by simp⟩, hc⟩
  rw [h.sessions]
  exact .refl .refl _

/-- A method that touches neither sessions nor checkpoints. -/
theorem same (h : db.SameSessions db') (hc : db'.checkpoints = db.checkpoints) : db.Onward db' :=
  of_sameSessions h (hc ▸ .refl .refl _)

theorem refl (db : Database) : db.Onward db := same (.refl db) rfl

/-- Who opened a session that is there stays on record. -/
theorem sessionAuthContext? (h : db.Onward db') {s : String} {r : SessionRecord}
    (hs : db.session? s = some r) : db'.sessionAuthContext? s = db.sessionAuthContext? s := by
  obtain ⟨events, he, hnew⟩ := h.contexts
  have hnone : events.filter (fun e => e.sessionId == some s) = [] := by
    refine List.filter_eq_nil_iff.2 fun e hmem hes => ?_
    have := hnew e hmem s (by simpa using hes)
    exact absurd this (by rw [hs]; exact Option.some_ne_none r)
  rw [sessionAuthContext?_eq, sessionAuthContext?_eq, he, List.filter_append, hnone,
    List.append_nil]

end Onward

/-! ## The methods -/

theorem createSession_onward {s p w : String} {d : Option Dict} {row : SessionRecord}
    (h : db.createSession st s p w d = .ok (row, db')) : db.Onward db' := by
  obtain ⟨hnone, hsessions, hcheck, -, events, hevents, hwho⟩ := createSession_ok h
  refine ⟨?_, ⟨events, hevents, fun e hmem s' hs' => ?_⟩, ?_⟩
  · rw [hsessions]
    exact Table.onward_append .refl _ _
  · have hin : (e.sessionId, e.details) ∈ events.map fun e => (e.sessionId, e.details) :=
      List.mem_map_of_mem hmem
    rw [hwho] at hin
    cases d with
    | none => exact absurd hin List.not_mem_nil
    | some d =>
      obtain rfl : s' = s := by simpa [hs'] using congrArg Prod.fst (List.mem_singleton.1 hin)
      exact hnone
  · rw [hcheck]
    exact .refl .refl _

/-- A permitted move of a session. -/
theorem onward_of_sessionTransitions {r r' : SessionRecord}
    (hp : r'.projectId = r.projectId) (ho : r'.ownerId = r.ownerId)
    (h : r'.status = r.status ∨ r'.status ∈ sessionTransitions r.status) : r.Onward r' := by
  refine ⟨hp, ho, fun ha => ?_, fun hc => ?_⟩
  · revert h
    rw [ha]
    cases r.status <;> decide
  · revert h
    rw [hc]
    cases r.status <;> decide

theorem transitionSession_onward {s : String} {s' : SessionStatus} {r : Option String}
    {row : SessionRecord} (h : db.transitionSession st s s' r =
      .ok (row, db')) : db.Onward db' := by
  obtain ⟨current, hc, hmove, ⟨now, rfl⟩, hsessions, hevents, hcheck⟩ := transitionSession_ok h
  refine ⟨?_, ⟨[], by rw [hevents, List.append_nil], by simp⟩, ?_⟩
  · rw [hsessions]
    refine Table.onward_update .refl (fun _ _ => (Table.row?_some hc).2) fun x hx => ?_
    obtain rfl : current = x := Option.some.inj (hc.symm.trans hx)
    exact onward_of_sessionTransitions rfl rfl hmove
  · rw [hcheck]
    exact .refl .refl _

theorem createCheckpoint_onward {c p : String} {s o : Option String} {w : String}
    {k : CheckpointKind} {b n r : String} {j : Json} {row : CheckpointRecord}
    (h : db.createCheckpoint st c p s o w k b n r j = .ok (row, db')) : db.Onward db' := by
  have hs := createCheckpoint_sessions h
  simp only [createCheckpoint, insertCheckpoint, bind, Except.bind] at h
  split at h
  · cases h
  · rename_i db₁ hi
    split at hi
    · cases hi
    · cases hi
      simp only [pure, Except.pure, Except.ok.injEq, Prod.mk.injEq] at h
      obtain ⟨-, rfl⟩ := h
      exact .of_sameSessions hs (Table.onward_append .refl _ _)

theorem finalizeCheckpoint_onward {c : String} {d : Dict} {j : Json} {row : CheckpointRecord}
    (h : db.finalizeCheckpoint st c d j = .ok (row, db')) : db.Onward db' := by
  have hs := finalizeCheckpoint_sessions h
  unfold finalizeCheckpoint at h
  split at h
  · cases h
  · rename_i current hc
    simp only [Except.ok.injEq, Prod.mk.injEq] at h
    obtain ⟨-, rfl⟩ := h
    refine .of_sameSessions hs ?_
    refine Table.onward_update .refl (fun _ _ => (Table.row?_some hc).2) fun x hx => ?_
    obtain rfl : current = x := Option.some.inj (hc.symm.trans hx)
    exact ⟨rfl, fun _ => rfl, id⟩

theorem markCheckpointRestored_onward {c : String} {row : CheckpointRecord}
    (h : db.markCheckpointRestored st c = .ok (row, db')) : db.Onward db' := by
  have hs := markCheckpointRestored_sessions h
  unfold markCheckpointRestored at h
  split at h
  · cases h
  · rename_i current hc
    simp only [Except.ok.injEq, Prod.mk.injEq] at h
    obtain ⟨-, rfl⟩ := h
    refine .of_sameSessions hs ?_
    refine Table.onward_update .refl (fun _ _ => (Table.row?_some hc).2) fun x hx => ?_
    obtain rfl : current = x := Option.some.inj (hc.symm.trans hx)
    exact ⟨rfl, id, fun _ => rfl⟩

/-! ## The recovery -/

open Onward (same)

theorem recoverSession_onward (s : SessionRecord) : db.Onward (recoverSession st db s) := by
  refine ⟨?_, ⟨[], ?_, by simp⟩, .refl .refl _⟩
  · exact Table.onward_update .refl (fun _ hx => hx) fun x _ => ⟨rfl, rfl, nofun, nofun⟩
  · rw [List.append_nil]
    exact (sameSessions_audit (by decide)).sessionEvents

theorem recoverOperation_onward {o : OperationRecord}
    (h : recoverOperation st db o = .ok db') : db.Onward db' := by
  have audited : ∀ (db : Database) (d : Dict),
      db.Onward (auditCancelled st db o o.projectId o.sessionId d) := fun _ _ =>
    same (sameSessions_audit (by decide)) rfl
  have cancelled : ∀ (l : List ApprovalRecord) (db : Database) (d : ApprovalRecord → Dict),
      db.Onward (l.foldl (fun db a => auditCancelled st db o o.projectId o.sessionId
        (d a)) db) := by
    intro l
    induction l with
    | nil => exact fun db d => .refl db
    | cons a l ih =>
      exact fun db d => (audited db (d a)).trans (ih _ d)
  simp only [recoverOperation, bind, Except.bind] at h
  split at h
  · cases h
  · rename_i db₂ hu
    cases h
    obtain ⟨hsame, hcheck⟩ := sameSessions_updateOperation hu
    suffices h₁ : db.Onward _ from
      (h₁.trans (same hsame hcheck)).trans (same (sameSessions_audit (by decide)) rfl)
    split
    · exact (same sameSessions_approvals rfl).trans (cancelled _ _ _)
    · exact .refl db

theorem recoverAfterRestart_onward {r : Recovered}
    (h : db.recoverAfterRestart st = .ok (r, db')) : db.Onward db' := by
  have sessions : ∀ (l : List SessionRecord) (db : Database),
      db.Onward (l.foldl (recoverSession st) db) := by
    intro l
    induction l with
    | nil => exact .refl
    | cons s l ih => exact fun db => (recoverSession_onward s).trans (ih _)
  have operations : ∀ (l : List OperationRecord) (db db' : Database),
      l.foldlM (recoverOperation st) db = .ok db' → db.Onward db' := by
    intro l
    induction l with
    | nil =>
      intro db db' h
      cases h
      exact .refl db
    | cons o l ih =>
      intro db db' h
      simp only [List.foldlM_cons, bind, Except.bind] at h
      split at h
      · cases h
      · rename_i ho
        exact (recoverOperation_onward ho).trans (ih _ _ h)
  have orphans : ∀ (l : List (OperationRecord × ApprovalRecord)) (db : Database),
      db.Onward (l.foldl (recoverOrphan st) db) := by
    intro l
    induction l with
    | nil => exact .refl
    | cons oa l ih =>
      intro db
      refine .trans ?_ (ih _)
      exact (same sameSessions_approvals rfl).trans (same (sameSessions_audit (by decide)) rfl)
  simp only [recoverAfterRestart, bind, Except.bind] at h
  split at h
  · cases h
  · rename_i db₂ ho
    cases h
    exact (sessions _ _).trans ((operations _ _ _ ho).trans (orphans _ _))

end Database

open Database (Onward)

variable {db db' : Database} {st : Stamp}

theorem StoreCall.run_onward {c : StoreCall} {a : c.Result} (h : c.run db st = .ok (a, db')) :
    db.Onward db' := by
  have read : ∀ {x : c.Result}, Except.ok (x, db) = (.ok (a, db') : Except Exn _) →
      db.Onward db' := fun h => by
    cases h
    exact .refl db
  cases c with
  | createSession s p w d => exact Database.createSession_onward h
  | transitionSession s s' r => exact Database.transitionSession_onward h
  | createCheckpoint c p s o w k b n r d => exact Database.createCheckpoint_onward h
  | finalizeCheckpoint c d j => exact Database.finalizeCheckpoint_onward h
  | markCheckpointRestored c => exact Database.markCheckpointRestored_onward h
  | _ => exact read h

theorem OperationCall.run_onward {c : OperationCall} {a : c.Result}
    (h : c.run db st = .ok (a, db')) : db.Onward db' := by
  by_cases hc : c = .recoverAfterRestart
  · subst hc
    exact Database.recoverAfterRestart_onward h
  · obtain ⟨hs, hcheck⟩ := OperationCall.run_sessions h hc
    exact .same hs hcheck

/-! ## Any number of methods -/

/-- The later store is what some sequence of methods has made of the earlier one. -/
inductive Written (db : Database) : Database → Prop
  | refl : Written db db
  | operation {db' db'' : Database} {st : Stamp} {c : OperationCall} {a : c.Result} :
      Written db db' → c.run db' st = .ok (a, db'') → Written db db''
  | other {db' db'' : Database} {st : Stamp} {c : StoreCall} {a : c.Result} :
      Written db db' → c.run db' st = .ok (a, db'') → Written db db''

namespace Written

theorem trans {db'' : Database} (h : Written db db') (h' : Written db' db'') : Written db db'' := by
  induction h' with
  | refl => exact h
  | operation _ hrun ih => exact ih.operation hrun
  | other _ hrun ih => exact ih.other hrun

theorem onward (h : Written db db') : db.Onward db' := by
  induction h with
  | refl => exact .refl db
  | operation _ hrun ih => exact ih.trans (OperationCall.run_onward hrun)
  | other _ hrun ih => exact ih.trans (StoreCall.run_onward hrun)

theorem sound (h : Written db db') (hs : db.Sound) : db'.Sound ∧ db.Later db' := by
  induction h with
  | refl => exact ⟨hs, .refl db⟩
  | operation _ hrun ih =>
    obtain ⟨hs', hl⟩ := OperationCall.run_sound ih.1 hrun
    exact ⟨hs', ih.2.trans hl⟩
  | other _ hrun ih =>
    have hsame := StoreCall.run_same hrun
    exact ⟨ih.1.same hsame, ih.2.trans hsame.later⟩

end Written

end CodemcpBridge
