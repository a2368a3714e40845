import Monomorph.Cache.Request

/-!
Runs of a cache. A request is served action by action. Where it calls a collaborator, the
collaborator has the turn: it may make requests of its own, to any depth, before it lets the outer
request go on. A `Session` is one thread at work, with the requests that it is serving, innermost
first; a `System` is any number of threads over one state. Runs are lists of moves, the latest
first (`Session.Run`, `System.Run`), and a session is a system in which one thread moves
(`Session.Run.alone`).

The formatter's texts are fixed, but while it works on one it may make requests too: it has the
turn right before an event that names a key is reported.
-/

namespace Monomorph

/-! ## Requests -/

/-- A request as it is made. -/
inductive Call where
  | get (k : KeyHandle) (copyKey : Bool)
  | request (r : Request) (copyKey : Bool)
  | virtualTarget (v : SlotMethod) (called : Descriptor)

/-- What a request is after, which is clear before the cache is looked at. -/
inductive Aim where
  | key (k : MethodKey)
  | placeholder
  | error (e : Error)
  deriving DecidableEq

/-- A key within the nesting limit is looked up; the others get the placeholder. -/
def Engine.aimAt (g : Engine) (k : MethodKey) : Aim :=
  if g.policy.exceeds k.depth then .placeholder else .key k

namespace Call

def aim (g : Engine) : Call → Aim
  | get k _ => g.aimAt k.key
  | request (.instantiate k) _ => .key k.key
  | request .tooDeeplyNested _ => .placeholder
  | virtualTarget v called =>
    match virtualKey v called with
    | .ok k => g.aimAt k
    | .error e => .error e

def program (g : Engine) : Call → Program MethodResult
  | get k copyKey => g.get k copyKey
  | request r copyKey => g.request r copyKey
  | virtualTarget v called => g.virtualTarget v called

end Call

/-- An action, with what was learned from it. -/
structure AnsweredAction where
  action : Action
  response : action.Response

namespace AnsweredAction

/-- The action can be done by the thread `t` in `s`, and leads to `s'`. -/
structure Takes (d : AnsweredAction) (t : ThreadId) (s s' : State) : Prop where
  enabled : d.action.isEnabled t s = true
  apply_eq : d.action.apply t s = (d.response, s')

/-- How the action counts a request. -/
def outcome? : AnsweredAction → Option Outcome
  | ⟨.record o, _⟩ => some o
  | _ => none

/-- The action puts an instance of `k` among the complete ones. -/
def adds (k : MethodKey) : AnsweredAction → Bool
  | ⟨.addMethod l _, _⟩ => l == k
  | _ => false

end AnsweredAction

/-- A request that is being served. -/
structure Activity where
  call : Call
  /-- The state when the request was made. -/
  start : State
  /-- What has been done for it, the latest first. -/
  actions : List AnsweredAction := []
  rest : Program MethodResult

/-- The events that name a key. -/
def Event.isNaming : Event → Bool
  | realizationFailed _ _ => true
  | nestingLimitExceeded _ _ _ => true
  | _ => false

/-- A collaborator is at work: it answers a question, or it names a key for an event. -/
def Program.isCalling {α : Type} : Program α → Bool
  | ask _ _ _ => true
  | act (.emit e) _ => e.isNaming
  | _ => false

namespace Activity

def made (c : Call) (g : Engine) (s : State) : Activity where
  call := c
  start := s
  rest := c.program g

/-- The construction that waits for an answer. -/
def construction? (f : Activity) : Option Construction :=
  match f.rest with
  | .ask c _ _ => some c
  | _ => none

theorem isCalling_of_construction? {f : Activity} {c : Construction}
    (h : f.construction? = some c) : f.rest.isCalling = true := by
  unfold construction? at h
  split at h
  · next hr =>
    rw [hr]
    rfl
  · cases h

/-- The ways in which the request has been counted. -/
def outcomes (f : Activity) : List Outcome := f.actions.filterMap AnsweredAction.outcome?

/-- The answer is a descriptor that was found under construction. -/
def isRecursive (f : Activity) : Bool := decide (.recursionHit ∈ f.outcomes)

end Activity

/-! ## One thread -/

/-- Code outside the cache has the turn: no request is being served, or a collaborator works for the
innermost one. -/
def IsOpen : List Activity → Prop
  | [] => True
  | f :: _ => f.rest.isCalling = true

/-- What code outside the cache does to the state while it has the turn. -/
def Action.isOutside : Action → Bool
  | emit _ => true
  | copyKey _ => true
  | allocate _ => true
  | publish _ _ => true
  | _ => false

structure Session where
  state : State
  stack : List Activity := []

/-- The constructions in progress, the innermost first. -/
def Session.constructions (X : Session) : List Construction :=
  X.stack.filterMap Activity.construction?

inductive Move where
  /-- A request is made outside of any other. -/
  | request (c : Call)
  /-- A collaborator makes a request. -/
  | nest (c : Call)
  /-- The next action of the innermost request. -/
  | act (d : AnsweredAction)
  | answer (c : Construction) (q : Query) (x : q.Answer)
  /-- The innermost request ends. -/
  | finish (f : Activity) (r : MethodResult)
  | outside (a : Action)
  /-- The lock is taken outside of any request. -/
  | hold
  /-- A hold from outside of any request is given back. -/
  | unhold
  | reset

inductive Session.Step (g : Engine) (t : ThreadId) : Session → Move → Session → Prop where
  | request {s : State} (c : Call) : Step g t ⟨s, []⟩ (.request c) ⟨s, [.made c g s]⟩
  | nest {s : State} {f : Activity} {st : List Activity} (c : Call)
      (calling : f.rest.isCalling = true) :
      Step g t ⟨s, f :: st⟩ (.nest c) ⟨s, .made c g s :: f :: st⟩
  | act {s s' : State} {f : Activity} {st : List Activity} {d : AnsweredAction}
      {next : d.action.Response → Program MethodResult} (rest : f.rest = .act d.action next)
      (takes : d.Takes t s s') :
      Step g t ⟨s, f :: st⟩ (.act d)
        ⟨s', { f with actions := d :: f.actions, rest := next d.response } :: st⟩
  | answer {s : State} {f : Activity} {st : List Activity} {c : Construction} {q : Query}
      {next : q.Answer → Program MethodResult} (rest : f.rest = .ask c q next) (x : q.Answer) :
      Step g t ⟨s, f :: st⟩ (.answer c q x) ⟨s, { f with rest := next x } :: st⟩
  | finish {s : State} {f : Activity} {st : List Activity} {r : MethodResult}
      (rest : f.rest = .done r) : Step g t ⟨s, f :: st⟩ (.finish f r) ⟨s, st⟩
  | outside {s : State} {st : List Activity} {a : Action} (turn : IsOpen st)
      (outside : a.isOutside = true) :
      Step g t ⟨s, st⟩ (.outside a) ⟨(a.apply t s).2, st⟩
  | hold {s : State} (available : s.lock.isAvailable t = true) :
      Step g t ⟨s, []⟩ .hold ⟨{ s with lock := s.lock.acquire t }, []⟩
  | unhold {s : State} (held : s.lock.isHeldBy t = true) :
      Step g t ⟨s, []⟩ .unhold ⟨{ s with lock := s.lock.release }, []⟩
  | reset {s : State} {st : List Activity} (turn : IsOpen st) :
      Step g t ⟨s, st⟩ .reset ⟨{ s with cache := s.cache.reset }, st⟩

/-- A run of the thread `t` in which every move is one that `ok` allows. -/
inductive Session.Run (g : Engine) (t : ThreadId) (ok : Session → Move → Prop) (X : Session) :
    List Move → Session → Prop where
  | nil : Run g t ok X [] X
  | step {tr : List Move} {Y Z : Session} {m : Move} (run : Run g t ok X tr Y) (allowed : ok Y m)
      (move : Session.Step g t Y m Z) : Run g t ok X (m :: tr) Z

theorem Session.Run.mono {g : Engine} {t : ThreadId} {ok ok' : Session → Move → Prop}
    {X Y : Session} {tr : List Move} (h : ∀ X m, ok X m → ok' X m) (run : Run g t ok X tr Y) :
    Run g t ok' X tr Y := by
  induction run with
  | nil => exact .nil
  | step _ allowed move ih => exact .step ih (h _ _ allowed) move

theorem Session.Run.append {g : Engine} {t : ThreadId} {ok : Session → Move → Prop}
    {X Y Z : Session} {tr tr' : List Move} (run : Run g t ok X tr Y)
    (later : Run g t ok Y tr' Z) : Run g t ok X (tr' ++ tr) Z := by
  induction later with
  | nil => exact run
  | step _ allowed move ih => exact .step ih allowed move

theorem Session.Run.head {g : Engine} {t : ThreadId} {ok : Session → Move → Prop}
    {X Y Z : Session} {m : Move} {tr : List Move} (move : Session.Step g t X m Y)
    (allowed : ok X m) (later : Run g t ok Y tr Z) : Run g t ok X (tr ++ [m]) Z :=
  .append (.step .nil allowed move) later

/-! ## Many threads -/

structure System where
  state : State
  stackOf : ThreadId → List Activity := fun _ => []

/-- The system as one of its threads sees it. -/
def System.session (X : System) (t : ThreadId) : Session := ⟨X.state, X.stackOf t⟩

structure System.Step (g : Engine) (X : System) (t : ThreadId) (m : Move) (Y : System) : Prop where
  own : Session.Step g t (X.session t) m (Y.session t)
  others : ∀ u, u ≠ t → Y.stackOf u = X.stackOf u

/-- Any interleaving of the moves of any threads, as far as `ok` allows them. -/
inductive System.Run (g : Engine) (ok : System → ThreadId → Move → Prop) (X : System) :
    List (ThreadId × Move) → System → Prop where
  | nil : Run g ok X [] X
  | step {tr : List (ThreadId × Move)} {Y Z : System} {t : ThreadId} {m : Move}
      (run : Run g ok X tr Y) (allowed : ok Y t m) (move : System.Step g Y t m Z) :
      Run g ok X ((t, m) :: tr) Z

theorem System.Run.mono {g : Engine} {ok ok' : System → ThreadId → Move → Prop} {X Y : System}
    {tr : List (ThreadId × Move)} (h : ∀ X t m, ok X t m → ok' X t m) (run : Run g ok X tr Y) :
    Run g ok' X tr Y := by
  induction run with
  | nil => exact .nil
  | step _ allowed move ih => exact .step ih (h _ _ _ allowed) move

/-! ## A thread alone -/

/-- No other thread has a request to serve. -/
def Session.alone (X : Session) (t : ThreadId) : System where
  state := X.state
  stackOf u := if u = t then X.stack else []

@[simp] theorem Session.alone_state (X : Session) (t : ThreadId) :
    (X.alone t).state = X.state := rfl

@[simp] theorem Session.alone_session (X : Session) (t : ThreadId) :
    (X.alone t).session t = X := by
  simp [alone, System.session]

@[simp] theorem Session.alone_stackOf_self (X : Session) (t : ThreadId) :
    (X.alone t).stackOf t = X.stack := by
  simp [alone]

theorem Session.alone_stackOf_of_ne (X : Session) {t u : ThreadId} (h : u ≠ t) :
    (X.alone t).stackOf u = [] := by
  simp [alone, h]

/-- A run of one thread is a run of the system in which the other threads are idle. -/
theorem Session.Run.alone {g : Engine} {t : ThreadId} {ok : Session → Move → Prop} {X Y : Session}
    {tr : List Move} (run : Run g t ok X tr Y) :
    System.Run g (fun S u m => u = t ∧ (∀ v, v ≠ t → S.stackOf v = []) ∧ ok (S.session t) m)
      (X.alone t) (tr.map fun m => (t, m)) (Y.alone t) := by
  induction run with
  | nil => exact .nil
  | @step tr Y Z m _ allowed move ih =>
    refine .step ih ⟨rfl, fun v hv => Y.alone_stackOf_of_ne hv, by simpa using allowed⟩ ⟨?_, ?_⟩
    · simpa using move
    · intro u hu
      rw [Z.alone_stackOf_of_ne hu, Y.alone_stackOf_of_ne hu]

end Monomorph
