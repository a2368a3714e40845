import Monomorph.Cache.Query
import Monomorph.Cache.State

/-!
Programs over the state of a cache. A program is a tree of indivisible actions and of questions;
it can be run by one thread from question to question (`Program.advance`), and the actions of
several threads can be interleaved, both from the same text.
-/

namespace Monomorph

/-- What a thread does to the state in one step. -/
inductive Action where
  | findMethod (k : MethodKey)
  | findPending (k : MethodKey)
  | record (o : Outcome)
  | emit (e : Event)
  | acquire
  | release
  | copyKey (k : MethodKey)
  | allocate (d : Descriptor)
  | addPending (k : MethodKey) (m : MethodId)
  | removePending (k : MethodKey)
  | publish (m : MethodId) (r : Realization)
  | addMethod (k : MethodKey) (m : MethodId)

namespace Action

/-- What the thread learns from the step. -/
abbrev Response : Action → Type
  | findMethod _ => Option MethodId
  | findPending _ => Option MethodId
  | record _ => Unit
  | emit _ => Unit
  | acquire => Unit
  | release => Unit
  | copyKey _ => KeyHandle
  | allocate _ => MethodId
  | addPending _ _ => Unit
  | removePending _ => Unit
  | publish _ _ => Except Error Unit
  | addMethod _ _ => Unit

/-- A thread waits where it would take a lock that another thread holds, and nowhere else. -/
def isEnabled (t : ThreadId) (s : State) : Action → Bool
  | acquire => s.lock.isAvailable t
  | _ => true

/-- One step of the thread `t`. -/
def apply (t : ThreadId) (s : State) : (a : Action) → a.Response × State
  | findMethod k => (s.cache.methods.find? k, s)
  | findPending k => (s.cache.pending.find? k, s)
  | record o => ((), { s with cache.counters := s.cache.counters.record o })
  | emit e => ((), { s with events := s.events ++ [e] })
  | acquire => ((), { s with lock := s.lock.acquire t })
  | release => ((), { s with lock := s.lock.release })
  | copyKey k => ((s.store.copyKey k).1, { s with store := (s.store.copyKey k).2 })
  | allocate d => (s.store.next, { s with store := s.store.allocate d })
  | addPending k m => ((), { s with cache.pending := s.cache.pending.insert k m })
  | removePending k => ((), { s with cache.pending := s.cache.pending.erase k })
  | publish m r =>
    match s.store.publish m r with
    | .ok store => (.ok (), { s with store := store })
    | .error e => (.error e, s)
  | addMethod k m => ((), { s with cache.methods := s.cache.methods.insert k m })

end Action

inductive Program (α : Type) where
  | done (a : α)
  | act (a : Action) (next : a.Response → Program α)
  /-- A construction waits for the answer to a question. -/
  | ask (c : Construction) (q : Query) (next : q.Answer → Program α)

namespace Program

variable {α β : Type}

def bind : Program α → (α → Program β) → Program β
  | done a, f => f a
  | act a next, f => act a fun r => (next r).bind f
  | ask c q next, f => ask c q fun r => (next r).bind f

instance : Monad Program where
  pure := done
  bind := bind

/-- The program of a single action. -/
def perform (a : Action) : Program a.Response := act a done

/-- The program of a single question. -/
def query (c : Construction) (q : Query) : Program q.Answer := ask c q done

/-- Reports an event, if there is a reason to. -/
def emitIf (b : Bool) (e : Event) : Program Unit :=
  if b then perform (.emit e) else done ()

/-- How far a program got: to its end, or to a question. -/
inductive Progress (α : Type) where
  | finished (a : α)
  | asking (c : Construction) (q : Query) (resume : q.Answer → Program α)

/-- Runs a program on the thread `t` up to its next question. -/
def advance (t : ThreadId) : Program α → State → Progress α × State
  | done a, s => (.finished a, s)
  | act a next, s => advance t (next (a.apply t s).1) (a.apply t s).2
  | ask c q next, s => (.asking c q next, s)

/-- Runs a program until it is about to take the lock, to ask a question, or to end. -/
def advanceToLock (t : ThreadId) : Program α → State → Program α × State
  | act .acquire next, s => (act .acquire next, s)
  | act a next, s => advanceToLock t (next (a.apply t s).1) (a.apply t s).2
  | p, s => (p, s)

def isDone : Program α → Bool
  | done _ => true
  | _ => false

end Program

end Monomorph
