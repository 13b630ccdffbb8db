import CodemcpBridge.Properties.Recovery

/-!
# Sequences of calls

The store under any sequence of method calls, each with any arguments and any clock.  A call that
raises is rolled back: it leaves the store as it was.
-/

namespace CodemcpBridge

/-- A clock that stands still. -/
def Stamp.still : Stamp := { now := fun _ => 0, eventId := fun _ => "" }

/-- A call of a store method. -/
inductive StoreMethod
  | operation (c : OperationCall)
  | other (c : StoreCall)

/-- The store that a call leaves, if it does not raise. -/
def StoreMethod.run (db : Database) (st : Stamp) : StoreMethod → Except Exn Database
  | operation c => (c.run db st).map Prod.snd
  | other c => (c.run db st).map Prod.snd

namespace Database

/-- The store after a call: what the transaction has committed, or the store before it. -/
def after (db : Database) (st : Stamp) (m : StoreMethod) : Database :=
  match m.run db st with
  | .ok db' => db'
  | .error _ => db

/-- The store after some calls. -/
def afterAll (db : Database) (calls : List (Stamp × StoreMethod)) : Database :=
  calls.foldl (fun db call => db.after call.1 call.2) db

/-- The store that some calls make of an empty one. -/
def ofCalls (calls : List (Stamp × StoreMethod)) : Database := ({} : Database).afterAll calls

variable {db db' : Database} {st : Stamp}

@[simp] theorem afterAll_nil : db.afterAll [] = db := rfl

@[simp] theorem afterAll_cons {call : Stamp × StoreMethod} {calls : List (Stamp × StoreMethod)} :
    db.afterAll (call :: calls) = (db.after call.1 call.2).afterAll calls := rfl

theorem afterAll_append {calls calls' : List (Stamp × StoreMethod)} :
    db.afterAll (calls ++ calls') = (db.afterAll calls).afterAll calls' := List.foldl_append

theorem after_of_error {m : StoreMethod} {e : Exn} (h : m.run db st = .error e) :
    db.after st m = db := by
  unfold after
  rw [h]

/-- A call has run one of the methods, or it has changed nothing. -/
theorem after_cases (db : Database) (st : Stamp) (m : StoreMethod) : db.after st m = db ∨
    (∃ (c : OperationCall) (a : c.Result), m = .operation c ∧
      c.run db st = .ok (a, db.after st m)) ∨
    ∃ (c : StoreCall) (a : c.Result), m = .other c ∧ c.run db st = .ok (a, db.after st m) := by
  cases m with
  | operation c =>
    cases hrun : c.run db st with
    | error e => exact .inl (after_of_error (by rw [StoreMethod.run, hrun]; rfl))
    | ok r =>
      obtain ⟨a, db'⟩ := r
      have : db.after st (.operation c) = db' := by simp [after, StoreMethod.run, hrun, Except.map]
      exact .inr (.inl ⟨c, a, rfl, by rw [this, hrun]⟩)
  | other c =>
    cases hrun : c.run db st with
    | error e => exact .inl (after_of_error (by rw [StoreMethod.run, hrun]; rfl))
    | ok r =>
      obtain ⟨a, db'⟩ := r
      have : db.after st (.other c) = db' := by simp [after, StoreMethod.run, hrun, Except.map]
      exact .inr (.inr ⟨c, a, rfl, by rw [this, hrun]⟩)

theorem written_after (db : Database) (st : Stamp) (m : StoreMethod) :
    Written db (db.after st m) := by
  rcases after_cases db st m with h | ⟨c, a, -, hrun⟩ | ⟨c, a, -, hrun⟩
  · rw [h]
    exact .refl
  · exact Written.refl.operation hrun
  · exact Written.refl.other hrun

theorem written_afterAll (db : Database) (calls : List (Stamp × StoreMethod)) :
    Written db (db.afterAll calls) := by
  induction calls generalizing db with
  | nil => exact .refl
  | cons call calls ih => exact (written_after db call.1 call.2).trans (ih _)

theorem stored_ofCalls (calls : List (Stamp × StoreMethod)) :
    Stored (ofCalls calls) :=
  Stored.empty.written (written_afterAll _ calls)

end Database

/-- Every store that methods have left is one that a sequence of calls leaves. -/
theorem Stored.calls {db : Database} (h : Stored db) :
    ∃ calls, db = Database.ofCalls calls := by
  induction h with
  | empty => exact ⟨[], rfl⟩
  | @operation db db' st c a _ hrun ih =>
    obtain ⟨calls, rfl⟩ := ih
    refine ⟨calls ++ [(st, .operation c)], ?_⟩
    rw [Database.ofCalls, Database.afterAll_append, ← Database.ofCalls]
    simp [Database.after, StoreMethod.run, hrun, Except.map]
  | @other db db' st c a _ hrun ih =>
    obtain ⟨calls, rfl⟩ := ih
    refine ⟨calls ++ [(st, .other c)], ?_⟩
    rw [Database.ofCalls, Database.afterAll_append, ← Database.ofCalls]
    simp [Database.after, StoreMethod.run, hrun, Except.map]

end CodemcpBridge
