import Monomorph.Proofs.Serving

/-!
The course of a request. A collaborator that is asked may make any number of requests, one after the
other, before it answers: a `Reply` is what it does, and a `Host` says how it replies to each
question. `Host.Finishes` is the course of a request with such collaborators, from its first action
to its end; it is a run (`Host.Finishes.run`), and there is only one
(`Host.Finishes.deterministic`). If only so many constructions are ever in progress, every request
comes to its end (`Session.Run.call_returns`).
-/

namespace Monomorph

/-! ## Collaborators that reply -/

/-- What a collaborator does with its turn: it makes requests and does other things, finitely often,
and it answers. It learns what comes of each, and sees the state. -/
inductive Reply (α : Type) where
  | answer (x : α)
  | call (c : Call) (next : MethodResult → State → Reply α)
  | act (a : Action) (next : a.Response → State → Reply α)

/-- The requests of the reply are in `P`, and the rest of it is open to code outside the cache. -/
def Reply.KeepsTo {α : Type} (P : Call → Prop) : Reply α → Prop
  | answer _ => True
  | call c next => P c ∧ ∀ r s, (next r s).KeepsTo P
  | act a next => a.isOutside = true ∧ ∀ x s, (next x s).KeepsTo P

/-- How collaborators reply to the question of a construction, after these moves and in this
state. -/
def Host := List Move → State → Construction → (q : Query) → Reply q.Answer

/-- The requests that are made for a construction are in `nested`. -/
def Host.KeepsTo (H : Host) (nested : Construction → Call → Prop) : Prop :=
  ∀ tr s c q, (H tr s c q).KeepsTo (nested c)

/-- Who goes on: the innermost request, or a collaborator with what is left of its reply. -/
inductive Turn where
  | own
  | reply (q : Query) (p : Reply q.Answer)

/-- The collaborator that has the turn is one of the innermost construction, and its requests are
in `nested`. -/
def Turn.KeepsTo (nested : Construction → Call → Prop) (X : Session) : Turn → Prop
  | own => True
  | reply _ p => ∃ c, c ∈ X.asking? ∧ p.KeepsTo (nested c)

/-- With these collaborators the innermost request of the session comes to its end with a result:
the moves so far, the session and whose turn it is; then the result, the moves and the session at
the end. -/
inductive Host.Finishes (H : Host) (g : Engine) (t : ThreadId) :
    Turn → List Move → Session → MethodResult → List Move → Session → Prop where
  | finish {tr : List Move} {X Y : Session} {f : Activity} {r : MethodResult}
      (move : X.Step g t (.finish f r) Y) : Finishes H g t .own tr X r (.finish f r :: tr) Y
  | act {tr tr' : List Move} {X Y Z : Session} {d : AnsweredAction} {r : MethodResult}
      (move : X.Step g t (.act d) Y) (later : Finishes H g t .own (.act d :: tr) Y r tr' Z) :
      Finishes H g t .own tr X r tr' Z
  | ask {tr tr' : List Move} {s : State} {f : Activity} {st : List Activity} {Z : Session}
      {c : Construction} {q : Query} {next : q.Answer → Program MethodResult} {r : MethodResult}
      (rest : f.rest = .ask c q next)
      (later : Finishes H g t (.reply q (H tr s c q)) tr ⟨s, f :: st⟩ r tr' Z) :
      Finishes H g t .own tr ⟨s, f :: st⟩ r tr' Z
  | answer {tr tr' : List Move} {X Y Z : Session} {c : Construction} {q : Query} {x : q.Answer}
      {r : MethodResult} (move : X.Step g t (.answer c q x) Y)
      (later : Finishes H g t .own (.answer c q x :: tr) Y r tr' Z) :
      Finishes H g t (.reply q (.answer x)) tr X r tr' Z
  | call {tr tr₁ tr' : List Move} {X Y Y₁ Z : Session} {c : Call} {q : Query}
      {next : MethodResult → State → Reply q.Answer} {r₁ r : MethodResult}
      (move : X.Step g t (.nest c) Y) (served : Finishes H g t .own (.nest c :: tr) Y r₁ tr₁ Y₁)
      (later : Finishes H g t (.reply q (next r₁ Y₁.state)) tr₁ Y₁ r tr' Z) :
      Finishes H g t (.reply q (.call c next)) tr X r tr' Z
  | outside {tr tr' : List Move} {X Y Z : Session} {a : Action} {q : Query}
      {next : a.Response → State → Reply q.Answer} {r : MethodResult}
      (move : X.Step g t (.outside a) Y)
      (later : Finishes H g t (.reply q (next (a.apply t X.state).1 Y.state)) (.outside a :: tr) Y
        r tr' Z) :
      Finishes H g t (.reply q (.act a next)) tr X r tr' Z

namespace Host.Finishes

open Session

variable {H : Host} {g : Engine} {t : ThreadId} {u : Turn} {tr tr' tr₁ : List Move}
  {X Z Z₁ : Session} {r r₁ : MethodResult} {top : Call → Prop} {nested : Construction → Call → Prop}

/-- At its end the request leaves the stack, and those below it are as they were. -/
theorem stack_eq (h : H.Finishes g t u tr X r tr' Z) : Z.stack = X.stack.tail := by
  induction h with
  | finish move =>
    cases move
    rfl
  | act move _ ih | answer move _ ih =>
    cases move
    exact ih
  | ask _ _ ih => exact ih
  | call move _ _ ih ih' =>
    cases move
    rw [ih', ih]
    rfl
  | outside move _ ih =>
    cases move
    exact ih

/-- The course of a request is a run, if the collaborators request what is allowed. -/
theorem run (h : H.Finishes g t u tr X r tr' Z) (keeps : H.KeepsTo nested)
    (turn : u.KeepsTo nested X) :
    ∃ new, tr' = new ++ tr ∧ Run g t (Confined top nested) X new Z := by
  induction h with
  | finish move => exact ⟨_, rfl, .head move trivial .nil⟩
  | act move _ ih | answer move _ ih =>
    obtain ⟨new, rfl, run⟩ := ih trivial
    exact ⟨_, List.append_cons .., .head move trivial run⟩
  | @ask tr _ s f st _ c q next _ rest _ ih =>
    refine ih ⟨c, ?_, keeps tr s c q⟩
    simp [asking?, Activity.construction?, rest]
  | @call _ _ _ X Y Y₁ _ c _ _ r₁ _ move served _ ih ih' =>
    obtain ⟨a, asks, allowed, rest⟩ := turn
    have same : Y₁.stack = X.stack := by
      rw [served.stack_eq]
      cases move
      rfl
    obtain ⟨new₁, rfl, run₁⟩ := ih trivial
    obtain ⟨new, rfl, run⟩ := ih' ⟨a, by rw [asking?, same]; exact asks, rest r₁ Y₁.state⟩
    exact ⟨_, by simp, .head move ⟨a, asks, allowed⟩ (run₁.append run)⟩
  | @outside _ _ X Y _ b _ _ _ move _ ih =>
    obtain ⟨a, asks, -, rest⟩ := turn
    have same : Y.stack = X.stack := by
      cases move
      rfl
    obtain ⟨new, rfl, run⟩ := ih ⟨a, by rw [asking?, same]; exact asks, rest _ _⟩
    exact ⟨_, List.append_cons .., .head move trivial run⟩

theorem of_done {s : State} {f : Activity} {st : List Activity}
    (h : H.Finishes g t .own tr ⟨s, f :: st⟩ r tr' Z) (rest : f.rest = .done r₁) :
    r = r₁ ∧ tr' = .finish f r₁ :: tr ∧ Z = ⟨s, st⟩ := by
  cases h with
  | finish move =>
    cases move with
    | finish rest' =>
      rw [rest] at rest'
      cases rest'
      exact ⟨rfl, rfl, rfl⟩
  | act move =>
    cases move with
    | act rest' =>
      rw [rest] at rest'
      cases rest'
  | ask rest' =>
    rw [rest] at rest'
    cases rest'

theorem of_act {s : State} {f : Activity} {st : List Activity} {a : Action}
    {next : a.Response → Program MethodResult} (h : H.Finishes g t .own tr ⟨s, f :: st⟩ r tr' Z)
    (rest : f.rest = .act a next) :
    H.Finishes g t .own (.act ⟨a, (a.apply t s).1⟩ :: tr)
      ⟨(a.apply t s).2, { f with
        actions := ⟨a, (a.apply t s).1⟩ :: f.actions
        rest := next (a.apply t s).1 } :: st⟩ r tr' Z := by
  cases h with
  | finish move =>
    cases move with
    | finish rest' =>
      rw [rest] at rest'
      cases rest'
  | @act _ _ _ _ _ d _ move later =>
    obtain ⟨b, x⟩ := d
    cases move with
    | act rest' takes =>
      rw [rest] at rest'
      cases rest'
      have learned : b.apply t s = (x, _) := takes.apply_eq
      rw [learned]
      exact later
  | ask rest' =>
    rw [rest] at rest'
    cases rest'

theorem of_ask {s : State} {f : Activity} {st : List Activity} {c : Construction} {q : Query}
    {next : q.Answer → Program MethodResult} (h : H.Finishes g t .own tr ⟨s, f :: st⟩ r tr' Z)
    (rest : f.rest = .ask c q next) :
    H.Finishes g t (.reply q (H tr s c q)) tr ⟨s, f :: st⟩ r tr' Z := by
  cases h with
  | finish move =>
    cases move with
    | finish rest' =>
      rw [rest] at rest'
      cases rest'
  | act move =>
    cases move with
    | act rest' =>
      rw [rest] at rest'
      cases rest'
  | ask rest' later =>
    rw [rest] at rest'
    cases rest'
    exact later

/-- The collaborators determine the course of a request. -/
theorem deterministic (h : H.Finishes g t u tr X r tr' Z) (h' : H.Finishes g t u tr X r₁ tr₁ Z₁) :
    r₁ = r ∧ tr₁ = tr' ∧ Z₁ = Z := by
  induction h generalizing r₁ tr₁ Z₁ with
  | finish move =>
    cases move with
    | finish rest =>
      obtain ⟨rfl, same⟩ := h'.of_done rest
      exact ⟨rfl, same⟩
  | @act _ _ _ _ _ d _ move _ ih =>
    cases move with
    | act rest takes =>
      have later := h'.of_act rest
      rw [takes.apply_eq] at later
      exact ih later
  | ask rest _ ih => exact ih (h'.of_ask rest)
  | answer move _ ih =>
    cases h' with
    | answer move' later' =>
      cases move with
      | answer rest =>
        cases move' with
        | answer rest' =>
          rw [rest] at rest'
          cases rest'
          exact ih later'
  | call move _ _ ih ih' =>
    cases h' with
    | call move' served' later' =>
      cases move
      cases move'
      obtain ⟨rfl, rfl, rfl⟩ := ih served'
      exact ih' later'
  | outside move _ ih =>
    cases h' with
    | outside move' later' =>
      cases move
      cases move'
      exact ih later'

/-- A request that asks nothing ends as it would if its actions were done in a row. -/
theorem of_advance {s s₁ : State} {f : Activity} {st : List Activity} {p : Program MethodResult}
    (h : H.Finishes g t .own tr ⟨s, f :: st⟩ r tr' Z) (rest : f.rest = p)
    (advance : p.advance t s = (.finished r₁, s₁)) : r = r₁ ∧ Z = ⟨s₁, st⟩ := by
  induction p generalizing s f tr with
  | done r₀ =>
    cases advance
    obtain ⟨hr, -, hZ⟩ := h.of_done rest
    exact ⟨hr, hZ⟩
  | act a next ih => exact ih _ (h.of_act rest) rfl advance
  | ask => cases advance

end Host.Finishes

/-! ## Every request ends -/

/-- What a thread does itself does not make the lock unavailable to it. -/
theorem Action.isAvailable_apply {t : ThreadId} {s : State} (h : s.lock.isAvailable t = true)
    (a : Action) : (a.apply t s).2.lock.isAvailable t = true := by
  cases a with
  | acquire => exact MetadataLock.isAvailable_acquire h
  | release => exact MetadataLock.isAvailable_release h
  | publish m r =>
    simp only [apply]
    split <;> exact h
  | _ => exact h

namespace Session

variable {H : Host} {g : Engine} {t : ThreadId} {top : Call → Prop}
  {nested : Construction → Call → Prop} {ok : Session → Move → Prop} {X Y Z : Session}
  {tr : List Move} {m : Move} {f : Activity} {st : List Activity} {N n : Nat}

theorem Step.isAvailable (h : Step g t X m Y) (hX : X.state.lock.isAvailable t = true) :
    Y.state.lock.isAvailable t = true := by
  cases h with
  | act rest takes =>
    rw [takes.state_eq]
    exact Action.isAvailable_apply hX _
  | outside => exact Action.isAvailable_apply hX _
  | hold => exact MetadataLock.isAvailable_acquire hX
  | unhold => exact MetadataLock.isAvailable_release hX
  | request | nest | answer | finish | reset => exact hX

/-- The session can be reached, and the thread never has to wait for the lock. -/
structure Ready (g : Engine) (t : ThreadId) (ok : Session → Move → Prop) (X : Session) :
    Prop where
  reach : X.Reachable g t ok
  available : X.state.lock.isAvailable t = true

theorem Ready.run (h : X.Ready g t ok) (run : Run g t ok X tr Y) : Y.Ready g t ok where
  reach := h.reach.run run
  available := by
    have available := h.available
    clear h
    induction run with
    | nil => exact available
    | step _ _ move ih => exact move.isAvailable ih

theorem Ready.step (h : X.Ready g t ok) (move : Step g t X m Y) (allowed : ok X m) :
    Y.Ready g t ok :=
  h.run (.step .nil allowed move)

theorem Confined.isOpen {c : Call} (h : Confined top nested X (c.move X.stack)) :
    IsOpen X.stack := by
  obtain ⟨s, st⟩ := X
  cases st with
  | nil => trivial
  | cons f st =>
    obtain ⟨a, asks, -⟩ := h
    exact Activity.isCalling_of_construction? asks

/-- All calls that may be made on top of these requests come to their end. -/
def CallsFinish (H : Host) (g : Engine) (t : ThreadId) (ok : Session → Move → Prop)
    (st : List Activity) : Prop :=
  ∀ s tr c, Ready g t ok ⟨s, st⟩ → ok ⟨s, st⟩ (c.move st) →
    ∃ r tr' s', H.Finishes g t .own (c.move st :: tr) ⟨s, .made c g s :: st⟩ r tr' ⟨s', st⟩

/-- A reply comes to its end, if the calls that are made in it do, and then the request goes on. -/
theorem exists_finishes_of_reply {c : Construction} {q : Query}
    {next : q.Answer → Program MethodResult} (rest : f.rest = .ask c q next)
    (calls : CallsFinish H g t (Confined top nested) (f :: st)) (keeps : H.KeepsTo nested)
    (later : ∀ x s tr, Ready g t (Confined top nested) ⟨s, { f with rest := next x } :: st⟩ →
      ∃ r tr' s', H.Finishes g t .own tr ⟨s, { f with rest := next x } :: st⟩ r tr' ⟨s', st⟩)
    (p : Reply q.Answer) (hp : p.KeepsTo (nested c)) (s : State) (tr : List Move)
    (ready : Ready g t (Confined top nested) ⟨s, f :: st⟩) :
    ∃ r tr' s', H.Finishes g t (.reply q p) tr ⟨s, f :: st⟩ r tr' ⟨s', st⟩ := by
  have asks : f.construction? = some c := by simp [Activity.construction?, rest]
  induction p generalizing s tr with
  | answer x =>
    have move : Step g t ⟨s, f :: st⟩ (.answer c q x) ⟨s, { f with rest := next x } :: st⟩ :=
      .answer rest x
    obtain ⟨r, tr', s', finishes⟩ := later x s (.answer c q x :: tr) (ready.step move trivial)
    exact ⟨r, tr', s', .answer move finishes⟩
  | call c' next' ih =>
    have allowed : Confined top nested ⟨s, f :: st⟩ (.nest c') := ⟨c, asks, hp.1⟩
    have move : Step g t ⟨s, f :: st⟩ (.nest c') ⟨s, .made c' g s :: f :: st⟩ :=
      .nest c' (Activity.isCalling_of_construction? asks)
    obtain ⟨r₁, tr₁, s₁, served⟩ := calls s tr c' ready allowed
    obtain ⟨new, -, run⟩ := served.run keeps trivial
    obtain ⟨r, tr', s', finishes⟩ :=
      ih r₁ s₁ (hp.2 r₁ s₁) s₁ tr₁ (ready.run (run.head move allowed))
    exact ⟨r, tr', s', .call move served finishes⟩
  | act a next' ih =>
    have move : Step g t ⟨s, f :: st⟩ (.outside a) ⟨(a.apply t s).2, f :: st⟩ :=
      .outside (Activity.isCalling_of_construction? asks) hp.1
    obtain ⟨r, tr', s', finishes⟩ :=
      ih _ _ (hp.2 _ _) _ (.outside a :: tr) (ready.step move trivial)
    exact ⟨r, tr', s', .outside move finishes⟩

/-- A request comes to its end, if the calls do that are made while it asks. -/
theorem exists_finishes_of_program (keeps : H.KeepsTo nested)
    (calls : ∀ f : Activity, f.construction? ≠ none →
      CallsFinish H g t (Confined top nested) (f :: st))
    (p : Program MethodResult) (s : State) (f : Activity) (tr : List Move) (rest : f.rest = p)
    (ready : Ready g t (Confined top nested) ⟨s, f :: st⟩) :
    ∃ r tr' s', H.Finishes g t .own tr ⟨s, f :: st⟩ r tr' ⟨s', st⟩ := by
  induction p generalizing s f tr with
  | done r => exact ⟨r, _, s, .finish (.finish rest)⟩
  | act a next ih =>
    have enabled : a.isEnabled t s = true := by
      cases a with
      | acquire => exact ready.available
      | _ => rfl
    have move : Step g t ⟨s, f :: st⟩ (.act ⟨a, (a.apply t s).1⟩) _ :=
      .act rest ⟨enabled, rfl⟩
    obtain ⟨r, tr', s', finishes⟩ := ih _ _ _ (_ :: tr) rfl (ready.step move trivial)
    exact ⟨r, tr', s', .act move finishes⟩
  | ask c q next ih =>
    have asks : f.construction? ≠ none := by simp [Activity.construction?, rest]
    obtain ⟨r, tr', s', finishes⟩ := exists_finishes_of_reply rest (calls f asks) keeps
      (fun x s tr => ih x s _ tr rfl) (H tr s c q) (keeps tr s c q) s tr ready
    exact ⟨r, tr', s', .ask rest finishes⟩

/-- If there are never more than `N` constructions in progress, all calls come to their end. The
induction is on how many more there may be. -/
theorem calls_finish (keeps : H.KeepsTo nested)
    (bound : ∀ Z : Session, Z.Reachable g t (Confined top nested) → Z.constructions.length ≤ N)
    (n : Nat) (st : List Activity)
    (left : N < n + (st.filterMap Activity.construction?).length) :
    CallsFinish H g t (Confined top nested) st := by
  induction n generalizing st with
  | zero =>
    intro s tr c ready _
    have most : (st.filterMap Activity.construction?).length ≤ N := bound _ ready.reach
    omega
  | succ n ih =>
    intro s tr c ready allowed
    refine exists_finishes_of_program keeps (fun f asks => ih _ ?_) _ _ _ _ rfl
      (ready.step (.of_call c allowed.isOpen) allowed)
    obtain ⟨a, ha⟩ := Option.ne_none_iff_exists'.1 asks
    simp only [List.filterMap_cons, ha, List.length_cons]
    omega

/-- If there are never more than `N` constructions in progress, every call that may be made
returns. -/
theorem Run.call_returns (run : Run g t (Confined top nested) X tr Y) (fresh : X.state.IsFresh)
    (idle : X.stack = []) (available : X.state.lock.isAvailable t = true)
    (bound : ∀ Z : Session, Z.Reachable g t (Confined top nested) → Z.constructions.length ≤ N)
    (keeps : H.KeepsTo nested) (c : Call) (allowed : Confined top nested Y (c.move Y.stack)) :
    ∃ r new s, H.Finishes g t .own (c.move Y.stack :: tr) ⟨Y.state, .made c g Y.state :: Y.stack⟩ r
        (new ++ tr) ⟨s, Y.stack⟩ ∧
      Run g t (Confined top nested) X (new ++ tr) ⟨s, Y.stack⟩ := by
  have ready : Y.Ready g t (Confined top nested) :=
    Ready.run ⟨⟨X, [], fresh, idle, .nil⟩, available⟩ run
  obtain ⟨r, tr', s, finishes⟩ :=
    calls_finish keeps bound (N + 1) Y.stack (by omega) Y.state tr c ready allowed
  obtain ⟨new, rfl, later⟩ := finishes.run keeps trivial
  refine ⟨r, new ++ [c.move Y.stack], s, by simpa using finishes, ?_⟩
  exact run.append (.head (.of_call c allowed.isOpen) allowed later)

end Session

end Monomorph
