import Monomorph.Proofs.Course
import Monomorph.Proofs.Replay

/-!
A descriptor changes once. What becomes of a descriptor is told by the attempts to complete it, from
constructions and from outside of the cache (`attempts`): the first of them takes effect, the others
are turned down, and nothing else changes it. Main statement: `System.Run.published_once`, for any
threads, with any requests and failures, and also if instances are forgotten at any time.
-/

namespace Monomorph

/-! ## What a descriptor shows -/

/-- The descriptor has the identity that its key gives it. -/
structure Descriptor.Identifies (d : Descriptor) (h : KeyHandle) : Prop where
  key : d.key = some h
  token : d.token = h.key.definition.token
  name : d.name = h.key.definition.name
  flags : d.flags = h.key.definition.flags
  implFlags : d.implFlags = h.key.definition.implFlags
  slot : d.slot = h.key.definition.slot

/-- Nothing is known of the method but its identity. -/
structure Descriptor.IsBlank (d : Descriptor) : Prop where
  state : d.state = .pending
  owner : d.owner = none
  returnType : d.returnType = none
  parameters : d.parameters = []
  isGeneric : d.isGeneric = false
  container : d.container = none
  metadata : d.metadata = none
  contextData : d.contextData = none
  invoker : d.invoker = none
  dispatch : d.dispatch = none
  methodPointer : d.methodPointer = none
  callByInterp : d.callByInterp = none
  virtualCallByInterp : d.virtualCallByInterp = none
  isInterpreted : d.isInterpreted = false
  isCallableByInterp : d.isCallableByInterp = false
  entryPoint : d.entryPoint = .error (.missingPointer d.token)

/-- What is known of the method is the realization. -/
structure Descriptor.Shows (d : Descriptor) (r : Realization) : Prop where
  state : d.state = .complete
  owner : d.owner = r.owner
  returnType : d.returnType = r.returnType
  parameters : d.parameters = r.parameters
  isGeneric : d.isGeneric = r.isGeneric
  container : d.container = r.container
  metadata : d.metadata = r.metadata
  contextData : d.contextData = r.contextData
  invoker : d.invoker = r.invoker
  dispatch : d.dispatch = some r.dispatch

namespace Descriptor

variable (h : KeyHandle)

theorem describing_identifies (o : Option Realization) : (describing h o).Identifies h :=
  ⟨rfl, rfl, rfl, rfl, rfl, rfl⟩

theorem describing_isBlank : (describing h none).IsBlank := by
  constructor <;> rfl

theorem describing_shows (r : Realization) : (describing h (some r)).Shows r := by
  constructor <;> rfl

end Descriptor

/-! ## Attempts to complete a descriptor -/

/-- The realization with which the action tries to complete the descriptor. -/
def Action.attempt? (m : MethodId) : Action → Option Realization
  | publish n r => if n = m then some r else none
  | _ => none

/-- What a move does to the state, unless it only concerns the lock or the tables as a whole. -/
def Move.action? : Move → Option Action
  | act d => some d.action
  | outside a => some a
  | _ => none

def Move.attempt? (m : MethodId) (mv : Move) : Option Realization :=
  mv.action?.bind (·.attempt? m)

/-- The attempts to complete the descriptor, the latest first. -/
def attempts (m : MethodId) (tr : List (ThreadId × Move)) : List Realization :=
  tr.filterMap fun e => e.2.attempt? m

/-- The descriptor that the move allocates, and its place. -/
def Move.allocates? (s : State) : Move → Option (Descriptor × MethodId)
  | act ⟨.allocate d, m⟩ => some (d, m)
  | outside (.allocate d) => some (d, s.store.next)
  | _ => none

namespace Store

variable {s : Store} {m : MethodId} {h : KeyHandle}

/-- A pending descriptor can be completed. -/
theorem publish_pending (hd : s.get? m = some (.describing h none)) (r : Realization) :
    ∃ s', s.publish m r = .ok s' ∧ s'.get? m = some (.describing h (some r)) := by
  cases hs : s.publish m r with
  | error e =>
    obtain ⟨d, r', hd', hr, -⟩ := publish_eq_error hs
    rw [hd] at hd'
    cases hd'
    cases hr
  | ok s' =>
    rcases (publish_eq_ok hs).2 with ⟨none, -⟩ | ⟨d, hd', -, complete⟩
    · rw [hd] at none
      cases none
    · rw [hd] at hd'
      cases hd'
      exact ⟨s', rfl, complete⟩

/-- A complete descriptor cannot be completed again. -/
theorem publish_complete {r' : Realization} (hd : s.get? m = some (.describing h (some r')))
    (r : Realization) : s.publish m r = .error (.alreadyRealized h.key.definition.token) := by
  cases hs : s.publish m r with
  | error e =>
    obtain ⟨d, r'', hd', -, rfl⟩ := publish_eq_error hs
    rw [hd] at hd'
    cases hd'
    rfl
  | ok s' =>
    rcases (publish_eq_ok hs).2 with ⟨none, -⟩ | ⟨d, hd', pending, -⟩
    · rw [hd] at none
      cases none
    · rw [hd] at hd'
      cases hd'
      cases pending

end Store

section Actions

variable {h : KeyHandle} {o : Option Realization} {m : MethodId} {s : State}

/-- An attempt to complete a descriptor that is complete changes nothing. -/
theorem Action.apply_publish_complete {r' : Realization}
    (hd : s.store.get? m = some (.describing h (some r'))) (r : Realization) (t : ThreadId) :
    (publish m r).apply t s = (.error (.alreadyRealized h.key.definition.token), s) := by
  simp only [apply, Store.publish_complete hd r]

/-- The first attempt completes a descriptor. -/
theorem Action.apply_publish_pending (hd : s.store.get? m = some (.describing h none))
    (r : Realization) (t : ThreadId) : ∃ store,
      (publish m r).apply t s = (.ok (), { s with store := store }) ∧
        store.get? m = some (.describing h (some r)) := by
  obtain ⟨store, hs, complete⟩ := Store.publish_pending hd r
  exact ⟨store, by simp only [apply, hs], complete⟩

/-- An action changes a descriptor if it is the first attempt to complete it. -/
theorem Action.get?_apply (hd : s.store.get? m = some (.describing h o)) (a : Action)
    (t : ThreadId) :
    (a.apply t s).2.store.get? m = some (.describing h (o.or (a.attempt? m))) := by
  cases a with
  | publish n r =>
    by_cases hn : n = m
    · subst hn
      simp only [attempt?, if_true]
      cases o with
      | none =>
        obtain ⟨store, hs, complete⟩ := apply_publish_pending hd r t
        rw [hs]
        exact complete
      | some r' =>
        rw [apply_publish_complete hd r t]
        exact hd
    · simp only [attempt?, hn, if_false, Option.or_none, apply]
      split
      · next store hs => exact ((Store.publish_eq_ok hs).1 m (Ne.symm hn)).trans hd
      · exact hd
  | allocate d =>
    simp only [attempt?, Option.or_none]
    exact Store.get?_allocate_of_some hd
  | _ =>
    simp only [attempt?, Option.or_none]
    exact hd

end Actions

/-! ## Runs -/

namespace Session.Step

variable {g : Engine} {t : ThreadId} {X Y : Session} {mv : Move} {h : KeyHandle}
  {o : Option Realization} {m : MethodId}

/-- What a move allocates is in the store as it was allocated. -/
theorem allocated {d : Descriptor} (move : Step g t X mv Y)
    (alloc : mv.allocates? X.state = some (d, m)) : Y.state.store.get? m = some d := by
  cases move with
  | @act s s' f st e next rest takes =>
    obtain ⟨a, x⟩ := e
    cases a with
    | allocate d' =>
      obtain ⟨rfl, rfl⟩ : d' = d ∧ x = m := by simpa [Move.allocates?] using alloc
      rw [takes.state_eq, show x = s.store.next from takes.response_eq]
      exact s.store.get?_allocate_next d'
    | _ => cases alloc
  | @outside s st a turn outside =>
    cases a with
    | allocate d' =>
      obtain ⟨rfl, rfl⟩ : d' = d ∧ s.store.next = m := by simpa [Move.allocates?] using alloc
      exact s.store.get?_allocate_next d'
    | _ => cases alloc
  | _ => cases alloc

/-- A move changes a descriptor if it is the first attempt to complete it. -/
theorem get?_eq (move : Step g t X mv Y) (hd : X.state.store.get? m = some (.describing h o)) :
    Y.state.store.get? m = some (.describing h (o.or (mv.attempt? m))) := by
  cases move with
  | act rest takes =>
    rw [takes.state_eq]
    exact Action.get?_apply hd _ t
  | outside turn outside => exact Action.get?_apply hd _ t
  | request | nest | answer | finish | hold | unhold | reset =>
    simp only [Move.attempt?, Move.action?, Option.bind_none, Option.or_none]
    exact hd

end Session.Step

namespace Sample

/-- An instance is requested, and its descriptor is about to be allocated. -/
def allocating : List Cue := .call (.get ⟨0, key read⟩ false) :: goOn 4

end Sample

namespace System

variable {g : Engine} {ok : System → ThreadId → Move → Prop} {W X Y : System} {t : ThreadId}
  {tr : List (ThreadId × Move)} {mv : Move} {h : KeyHandle} {o : Option Realization} {m : MethodId}

theorem getLast?_attempts_cons (m : MethodId) (e : ThreadId × Move)
    (tr : List (ThreadId × Move)) : (attempts m (e :: tr)).getLast? =
      (attempts m tr).getLast?.or (e.2.attempt? m) := by
  cases he : e.2.attempt? m with
  | none => simp [attempts, he]
  | some r =>
    simp only [attempts, List.filterMap_cons, he, List.getLast?_cons]
    cases (tr.filterMap fun e => e.2.attempt? m).getLast? <;> rfl

/-- The first of all attempts takes effect. -/
theorem Run.get?_eq (run : Run g ok X tr Y) (hd : X.state.store.get? m = some (.describing h o)) :
    Y.state.store.get? m = some (.describing h (o.or (attempts m tr).getLast?)) := by
  induction run with
  | nil => simpa [attempts] using hd
  | step _ _ move ih =>
    rw [getLast?_attempts_cons, ← Option.or_assoc]
    exact move.own.get?_eq ih

/-- A descriptor after the moves `tr`, before which it was pending. -/
structure PublishedOnce (g : Engine) (h : KeyHandle) (m : MethodId)
    (tr : List (ThreadId × Move)) (Y : System) : Prop where
  /-- It has the identity of its key and the realization of the first attempt. -/
  descriptor : ∃ d, Y.state.store.get? m = some d ∧ d.Identifies h ∧
    d.realization = (attempts m tr).getLast? ∧ (attempts m tr = [] → d.IsBlank) ∧
    ∀ r, (attempts m tr).getLast? = some r → d.Shows r
  /-- The first attempt is accepted, and completes it. -/
  accepted : attempts m tr = [] → ∀ r t, ∃ store d,
    (Action.publish m r).apply t Y.state = (.ok (), { Y.state with store := store }) ∧
      store.get? m = some d ∧ d.Identifies h ∧ d.Shows r
  /-- All others are turned down, and change nothing. -/
  refused : attempts m tr ≠ [] → ∀ r t, (Action.publish m r).apply t Y.state =
    (.error (.alreadyRealized h.key.definition.token), Y.state)
  /-- Nothing else changes it. -/
  unchanged : ∀ t mv Z, Step g Y t mv Z → (mv.attempt? m = none ∨ attempts m tr ≠ []) →
    Z.state.store.get? m = Y.state.store.get? m
  kept : attempts m tr ≠ [] → ∀ ok tr' Z, Run g ok Y tr' Z →
    Z.state.store.get? m = Y.state.store.get? m

/-- In every run of any threads that begins when a descriptor has been allocated for a key. -/
theorem Run.published_once (run : Run g ok X tr Y) (made : Step g W t mv X)
    (alloc : mv.allocates? W.state = some (.ofKey h, m)) : PublishedOnce g h m tr Y := by
  have allocated : X.state.store.get? m = some (.describing h none) := made.own.allocated alloc
  have present : Y.state.store.get? m = some (.describing h (attempts m tr).getLast?) :=
    run.get?_eq allocated
  have complete : attempts m tr ≠ [] → ∃ r, (attempts m tr).getLast? = some r := by
    intro busy
    exact ⟨_, List.getLast?_eq_some_getLast busy⟩
  constructor
  · refine ⟨_, present, Descriptor.describing_identifies h _, rfl, ?_, ?_⟩
    · intro none
      rw [none]
      exact Descriptor.describing_isBlank h
    · intro r hr
      rw [hr]
      exact Descriptor.describing_shows h r
  · intro none r t
    rw [none] at present
    obtain ⟨store, hs, hd⟩ := Action.apply_publish_pending present r t
    exact ⟨store, _, hs, hd, Descriptor.describing_identifies h _, Descriptor.describing_shows h r⟩
  · intro busy r t
    obtain ⟨r', hr⟩ := complete busy
    rw [hr] at present
    exact Action.apply_publish_complete present r t
  · intro t mv Z move quiet
    have later : Z.state.store.get? m = _ := move.own.get?_eq present
    rw [later, present]
    rcases quiet with none | busy
    · rw [none, Option.or_none]
    · obtain ⟨r, hr⟩ := complete busy
      rw [hr]
      rfl
  · intro busy ok tr' Z run'
    obtain ⟨r, hr⟩ := complete busy
    rw [hr] at present
    rw [run'.get?_eq present, present]
    rfl

/-- Code outside the cache tries to complete a descriptor. -/
def publish (X : System) (t : ThreadId) (m : MethodId) (r : Realization) : System :=
  { X with state := ((Action.publish m r).apply t X.state).2 }

theorem Step.publish (turn : IsOpen (X.stackOf t)) (m : MethodId) (r : Realization) :
    Step g X t (.outside (.publish m r)) (X.publish t m r) where
  own := .outside turn rfl
  others _ _ := rfl

/-- A descriptor that another thread completes while its construction asks, so that the construction
cannot complete it any more. -/
theorem Run.published_once_raced :
    ∃ W X mv tr Y, Step {} W 0 mv X ∧
      mv.allocates? W.state = some (.ofKey ⟨0, Sample.key Sample.read⟩, ⟨0⟩) ∧
      Run {} (fun _ _ _ => True) X tr Y ∧ (attempts ⟨0⟩ tr).length = 2 ∧
      (attempts ⟨0⟩ tr).getLast? = some {} ∧
      PublishedOnce {} ⟨0, Sample.key Sample.read⟩ ⟨0⟩ tr Y := by
  have facts : ((replay {} .plain (Sample.allocating.map fun q => (0, q)) ([], {state := {}})).bind
      fun R => ((R.2.session 0).follow {} 0 .plain .go).bind
      fun S => (replay {} .plain [(0, .go)] ([], R.2.update 0 S.2)).bind
      fun T => (replay {} .plain ((Sample.goOn 10).map fun q => (0, q))
        ((1, .outside (.publish ⟨0⟩ {})) :: T.1, T.2.publish 1 ⟨0⟩ {})).map
      fun U => (S.1.allocates? R.2.state, (attempts ⟨0⟩ U.1).length, (attempts ⟨0⟩ U.1).getLast?,
        (T.2.stackOf 1).isEmpty, (U.2.stackOf 0).isEmpty)) =
      some (some (.ofKey ⟨0, Sample.key Sample.read⟩, ⟨0⟩), 2, some {}, true, true) := by
    decide +kernel
  simp only [Option.bind_eq_some_iff, Option.map_eq_some_iff, Prod.mk.injEq] at facts
  obtain ⟨R, -, S, hS, T, hT, U, hU, alloc, two, first, idle, -⟩ := facts
  have made : Step {} R.2 0 S.1 (R.2.update 0 S.2) := step_of_follow hS
  have asking : Run {} (fun _ _ _ => True) (R.2.update 0 S.2) T.1 T.2 :=
    replay_run (fun _ _ _ _ => trivial) .nil hT
  have raced : Step {} T.2 1 (.outside (.publish ⟨0⟩ {})) (T.2.publish 1 ⟨0⟩ {}) := by
    refine .publish ?_ _ _
    rw [List.isEmpty_iff.1 idle]
    trivial
  have run : Run {} (fun _ _ _ => True) (R.2.update 0 S.2) U.1 U.2 :=
    replay_run (fun _ _ _ _ => trivial) (.step asking trivial raced) hU
  exact ⟨_, _, _, _, _, made, alloc, run, two, first, run.published_once made alloc⟩

end System

end Monomorph
