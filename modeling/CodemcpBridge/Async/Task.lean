import Mathlib.Logic.Basic

/-!
# Programs that ask questions

A `Task` is a finite tree: it is done with a value, or it asks a question of its surroundings and
goes on with the answer.  A `Prog` is a task whose questions may be answered by an exception and
which may itself end in one; `attempt`, `handle` and `ensuring` are the usual ways to meet an
exception.  Nothing is said here about what a question means: that is the business of the rules
under which a task is run.
-/

namespace Async

/-- A sequential program over the questions `Q`, where `q` is answered by an `A q`. -/
inductive Task (Q : Type) (A : Q → Type) (α : Type) : Type
  | done (a : α)
  | ask (q : Q) (k : A q → Task Q A α)

namespace Task

variable {Q : Type} {A : Q → Type} {α β γ : Type}

/-- Run `x`, then `f` on its value. -/
def bind : Task Q A α → (α → Task Q A β) → Task Q A β
  | done a, f => f a
  | ask q k, f => ask q fun a => (k a).bind f

theorem bind_done (x : Task Q A α) : x.bind done = x := by
  induction x with
  | done _ => rfl
  | ask q k ih => exact congrArg (ask q) (funext ih)

theorem bind_bind (x : Task Q A α) (f : α → Task Q A β) (g : β → Task Q A γ) :
    (x.bind f).bind g = x.bind fun a => (f a).bind g := by
  induction x with
  | done _ => rfl
  | ask q k ih => exact congrArg (ask q) (funext ih)

/-- Answer every question of `x` by a task. -/
def via {Q' : Type} {A' : Q' → Type} (f : (q : Q) → Task Q' A' (A q)) : Task Q A α → Task Q' A' α
  | done a => done a
  | ask q k => (f q).bind fun a => (k a).via f

theorem via_bind {Q' : Type} {A' : Q' → Type} (f : (q : Q) → Task Q' A' (A q)) (x : Task Q A α)
    (g : α → Task Q A β) : (x.bind g).via f = (x.via f).bind fun a => (g a).via f := by
  induction x with
  | done _ => rfl
  | ask q k ih =>
    simp only [bind, via, bind_bind]
    exact congrArg _ (funext ih)

end Task

/-- A task whose questions and whose result may be an exception. -/
def Prog (Q : Type) (R : Q → Type) (E : Type) (α : Type) : Type :=
  Task Q (fun q => Except E (R q)) (Except E α)

namespace Prog

variable {Q : Type} {R : Q → Type} {E α β : Type}

/-- The task that a program is. -/
def task (x : Prog Q R E α) : Task Q (fun q => Except E (R q)) (Except E α) := x

def ret (a : α) : Prog Q R E α := Task.done (.ok a)

def raise (e : E) : Prog Q R E α := Task.done (.error e)

def ask (q : Q) : Prog Q R E (R q) := Task.ask q Task.done

/-- Go on with the result of `x`, whether a value or an exception. -/
def andThen (x : Prog Q R E α) (f : Except E α → Prog Q R E β) : Prog Q R E β := Task.bind x f

instance : Monad (Prog Q R E) where
  pure := ret
  bind x f := x.andThen fun
    | .ok a => f a
    | .error e => raise e

/-- The result of `x` as a value. -/
def attempt (x : Prog Q R E α) : Prog Q R E (Except E α) := x.andThen fun r => ret r

/-- Meet the exceptions for which `h` has an answer; all others pass. -/
def handle (x : Prog Q R E α) (h : E → Option (Prog Q R E α)) : Prog Q R E α := x.andThen fun
  | .ok a => ret a
  | .error e => (h e).getD (raise e)

/-- Run `y` after `x` however `x` ends; an exception of `y` replaces the result of `x`. -/
def ensuring (x : Prog Q R E α) (y : Prog Q R E Unit) : Prog Q R E α := x.andThen fun r =>
  y.andThen fun
    | .ok _ => Task.done r
    | .error e => raise e

/-- Raise the exception of a pure computation, or go on with its value. -/
def lift : Except E α → Prog Q R E α := Task.done

/-- Carry a program out by programs over other questions. -/
def via {Q' : Type} {R' : Q' → Type} (x : Prog Q R E α) (f : (q : Q) → Prog Q' R' E (R q)) :
    Prog Q' R' E α :=
  Task.via (fun q => (f q).task) x

section Via

variable {Q' : Type} {R' : Q' → Type} (f : (q : Q) → Prog Q' R' E (R q))

@[simp] theorem via_ret (a : α) : (ret a : Prog Q R E α).via f = ret a := rfl

@[simp] theorem via_pure (a : α) : (pure a : Prog Q R E α).via f = pure a := rfl

@[simp] theorem via_raise (e : E) : (raise e : Prog Q R E α).via f = raise e := rfl

@[simp] theorem via_lift (r : Except E α) : (lift r : Prog Q R E α).via f = lift r := rfl

@[simp] theorem via_ask (q : Q) : (ask q : Prog Q R E (R q)).via f = f q := Task.bind_done (f q)

theorem via_andThen (x : Prog Q R E α) (g : Except E α → Prog Q R E β) :
    (x.andThen g).via f = (x.via f).andThen fun r => (g r).via f :=
  Task.via_bind _ x g

@[simp] theorem via_bind (x : Prog Q R E α) (g : α → Prog Q R E β) :
    (x >>= g).via f = x.via f >>= fun a => (g a).via f := by
  refine (via_andThen f x _).trans (congrArg _ (funext fun r => ?_))
  cases r <;> rfl

end Via

theorem andThen_assoc {γ : Type} (x : Prog Q R E α) (f : Except E α → Prog Q R E β)
    (g : Except E β → Prog Q R E γ) :
    (x.andThen f).andThen g = x.andThen fun r => (f r).andThen g :=
  Task.bind_bind x f g

theorem bind_assoc {γ : Type} (x : Prog Q R E α) (f : α → Prog Q R E β) (g : β → Prog Q R E γ) :
    (x >>= f) >>= g = x >>= fun a => f a >>= g := by
  refine (andThen_assoc x _ _).trans (congrArg _ (funext fun r => ?_))
  cases r <;> rfl

end Prog

end Async
