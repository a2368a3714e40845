import Monomorph.Proofs.Collaborators

/-!
Runs that are computed. A `Cue` says who goes on next: the innermost request of a thread, with
answers as given, or code outside the cache with another request. What cues lead to is a
run (`System.replay_run`, `Session.replay_run`), and so is what they lead to while only some moves
are allowed (`Session.replayWhile_run`).
-/

namespace Monomorph

inductive Cue where
  /-- The innermost request acts, has its answer, or ends. -/
  | go
  /-- Whoever has the turn makes a request. -/
  | call (c : Call)

namespace Session

variable (g : Engine) (t : ThreadId) (C : Collaborators)

def go (X : Session) : Option (Move × Session) :=
  match X.stack with
  | [] => none
  | f :: st =>
    match f.rest with
    | .done r => some (.finish f r, ⟨X.state, st⟩)
    | .act a next =>
      if a.isEnabled t X.state then
        let d : AnsweredAction := ⟨a, (a.apply t X.state).1⟩
        some (.act d, ⟨(a.apply t X.state).2,
          { f with actions := d :: f.actions, rest := next d.response } :: st⟩)
      else none
    | .ask c q next =>
      some (.answer c q (C.answer q), ⟨X.state, { f with rest := next (C.answer q) } :: st⟩)

def call (c : Call) (X : Session) : Option (Move × Session) :=
  match X.stack with
  | [] => some (.request c, ⟨X.state, [.made c g X.state]⟩)
  | f :: st =>
    if f.rest.isCalling then some (.nest c, ⟨X.state, .made c g X.state :: f :: st⟩) else none

/-- The move that a cue stands for, and where it leads. -/
def follow (X : Session) : Cue → Option (Move × Session)
  | .go => X.go t C
  | .call c => X.call g c

variable {g t C} {X Y : Session} {m : Move}

theorem step_of_go (h : X.go t C = some (m, Y)) : Step g t X m Y := by
  obtain ⟨s, fs⟩ := X
  unfold go at h
  split at h
  · cases h
  · next f st hX =>
    cases hX
    split at h
    · next r rest =>
      cases h
      exact .finish rest
    · next a next rest =>
      split at h
      · next enabled =>
        cases h
        exact .act rest ⟨enabled, rfl⟩
      · cases h
    · next c q next rest =>
      cases h
      exact .answer rest _

theorem step_of_call {c : Call} (h : X.call g c = some (m, Y)) : Step g t X m Y := by
  obtain ⟨s, fs⟩ := X
  unfold call at h
  split at h
  · next hX =>
    cases hX
    cases h
    exact .request c
  · next f st hX =>
    cases hX
    split at h
    · next calling =>
      cases h
      exact .nest c calling
    · cases h

theorem step_of_follow {q : Cue} (h : X.follow g t C q = some (m, Y)) : Step g t X m Y := by
  cases q with
  | go => exact step_of_go h
  | call c => exact step_of_call h

end Session

/-- A move that a cue may stand for. -/
def Move.IsPlayed (C : Collaborators) : Move → Prop
  | .answer _ q x => x = C.answer q
  | .outside _ => False
  | .hold => False
  | .unhold => False
  | .reset => False
  | _ => True

namespace Session

variable {g : Engine} {t : ThreadId} {C : Collaborators} {X Y : Session} {m : Move}

theorem isPlayed_of_follow {q : Cue} (h : X.follow g t C q = some (m, Y)) :
    m.IsPlayed C := by
  unfold follow go call at h
  repeat' split at h
  all_goals cases h <;> trivial

/-- Follows the cues one by one, and notes the moves, the latest first. -/
def replay (g : Engine) (t : ThreadId) (C : Collaborators) :
    List Cue → List Move × Session → Option (List Move × Session)
  | [], R => some R
  | q :: qs, (tr, X) =>
    match X.follow g t C q with
    | some (m, Y) => replay g t C qs (m :: tr, Y)
    | none => none

theorem replay_run {ok : Session → Move → Prop} {X₀ : Session}
    (allowed : ∀ X m, m.IsPlayed C → ok X m) {qs : List Cue}
    {tr tr' : List Move} (run : Run g t ok X₀ tr X)
    (h : replay g t C qs (tr, X) = some (tr', Y)) : Run g t ok X₀ tr' Y := by
  induction qs generalizing tr X with
  | nil =>
    cases h
    exact run
  | cons q qs ih =>
    unfold replay at h
    split at h
    · next m Z hZ =>
      exact ih (.step run (allowed _ _ (isPlayed_of_follow hZ)) (step_of_follow hZ)) h
    · cases h

/-- Follows the cues as long as the moves that they stand for are allowed. -/
def replayWhile (ok : Session → Move → Prop) [∀ X m, Decidable (ok X m)] (g : Engine)
    (t : ThreadId) (C : Collaborators) :
    List Cue → List Move × Session → Option (List Move × Session)
  | [], R => some R
  | q :: qs, (tr, X) =>
    match X.follow g t C q with
    | some (m, Y) => if ok X m then replayWhile ok g t C qs (m :: tr, Y) else none
    | none => none

theorem replayWhile_run {ok : Session → Move → Prop} [∀ X m, Decidable (ok X m)]
    {X₀ : Session} {qs : List Cue} {tr tr' : List Move} (run : Run g t ok X₀ tr X)
    (h : replayWhile ok g t C qs (tr, X) = some (tr', Y)) : Run g t ok X₀ tr' Y := by
  induction qs generalizing tr X with
  | nil =>
    cases h
    exact run
  | cons q qs ih =>
    unfold replayWhile at h
    split at h
    · next m Z hZ =>
      split at h
      · next allowed => exact ih (.step run allowed (step_of_follow hZ)) h
      · cases h
    · cases h

end Session

namespace System

/-- One thread goes on in its session. -/
def update (X : System) (t : ThreadId) (Y : Session) : System :=
  ⟨Y.state, fun u => if u = t then Y.stack else X.stackOf u⟩

theorem step_of_follow {g : Engine} {t : ThreadId} {C : Collaborators} {X : System} {Y : Session}
    {q : Cue} {m : Move} (h : (X.session t).follow g t C q = some (m, Y)) :
    Step g X t m (X.update t Y) where
  own := by simpa [update, session] using Session.step_of_follow h
  others u hu := by simp [update, hu]

/-- Follows the cues of several threads. -/
def replay (g : Engine) (C : Collaborators) :
    List (ThreadId × Cue) → List (ThreadId × Move) × System →
      Option (List (ThreadId × Move) × System)
  | [], R => some R
  | (t, q) :: qs, (tr, X) =>
    match (X.session t).follow g t C q with
    | some (m, Y) =>
      replay g C qs
        ((t, m) :: tr, ⟨Y.state, fun u => if u = t then Y.stack else X.stackOf u⟩)
    | none => none

theorem replay_run {g : Engine} {C : Collaborators}
    {ok : System → ThreadId → Move → Prop} {X₀ X Y : System}
    (allowed : ∀ X t m, m.IsPlayed C → ok X t m)
    {qs : List (ThreadId × Cue)} {tr tr' : List (ThreadId × Move)} (run : Run g ok X₀ tr X)
    (h : replay g C qs (tr, X) = some (tr', Y)) : Run g ok X₀ tr' Y := by
  induction qs generalizing tr X with
  | nil =>
    cases h
    exact run
  | cons e qs ih =>
    obtain ⟨t, q⟩ := e
    unfold replay at h
    split at h
    · next m Z hZ =>
      exact ih (.step run (allowed _ _ _ (Session.isPlayed_of_follow hZ)) (step_of_follow hZ)) h
    · cases h

end System

/-! ## A sample -/

/-- Every class is realized, signatures stay as they are, and no method has code. -/
def Collaborators.plain : Collaborators where
  realizeClass c as := .ok (.realized 0 c as)
  inflateType e _ := e
  inflateParameters ps _ := ps
  contextData _ _ _ := none
  nativeInvoker _ _ := none
  nativePointer _ _ _ _ := none
  isInterpreted _ := false
  isImplemented _ := false
  interpreterInvoker _ := none
  interpreterEntry _ := none
  interpreterThunk _ := none

namespace Sample

/-- A class that cannot be realized. -/
def gate : TypeDef where
  serial := 1
  token := default
  name := "Gate"
  params := [{ name := "T", number := 0 }]

def cell : TypeDef where
  serial := 0
  token := default
  name := "Cell"
  params := [{ name := "T", number := 0 }]

def read : MethodDef where
  serial := 0
  token := default
  name := "Read"
  owner := .definition cell

def write : MethodDef where
  serial := 1
  token := default
  name := "Write"
  owner := .definition cell

def enter : MethodDef where
  serial := 2
  token := default
  name := "Enter"
  owner := .definition gate

/-- The instance of a method whose class has a cell as its argument. -/
def key (m : MethodDef) : MethodKey where
  definition := m
  context := ⟨some (.cons (.named (.definition cell)) .nil), none⟩

def goOn (n : Nat) : List Cue := List.replicate n .go

/-- A request for an instance that is built meanwhile is answered by the recursion guard. -/
def reentrant : List Cue :=
  .call (.get ⟨0, key read⟩ false) :: goOn 6 ++
    .call (.request (.instantiate ⟨1, key read⟩) true) :: goOn 21

/-- Two constructions wait, one for the other. -/
def nested : List Cue :=
  .call (.get ⟨0, key read⟩ false) :: goOn 6 ++ .call (.get ⟨1, key write⟩ false) :: goOn 6

/-- A construction that fails while another one waits, and after it has built a third. -/
def failing : List Cue :=
  .call (.get ⟨1, key enter⟩ false) :: goOn 6 ++ .call (.get ⟨2, key write⟩ false) :: goOn 24

/-- Two threads miss the instance; one builds it, and the other finds it under the lock. -/
def racing : List (ThreadId × Cue) :=
  [(0, .call (.get ⟨0, key read⟩ false)), (0, .go), (1, .call (.get ⟨1, key read⟩ false)),
    (1, .go)] ++ (goOn 18).map (fun q => (0, q)) ++ (goOn 5).map fun q => (1, q)

end Sample

/-- As `plain`, but one class cannot be realized. -/
def Collaborators.withoutGate : Collaborators :=
  { plain with
    realizeClass := fun c as =>
      if c = .definition Sample.gate then .error (.invalid (.classNotGeneric c))
      else plain.realizeClass c as }

end Monomorph
