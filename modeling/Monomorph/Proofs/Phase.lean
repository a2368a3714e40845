import Monomorph.Proofs.Contract

/-!
The phases of a request. A `Phase` says how far a request has come, with what it has learned; a
`Phase.Step` is an action that a request may do in a phase, and where it leads.
`Call.program_follows` states that every request goes through these phases, whatever its
collaborators answer within their contract.
-/

namespace Monomorph

/-- How a request has come to its end. -/
inductive Verdict where
  /-- There is a complete instance; `o` says since when. -/
  | cached (o : Outcome) (k : MethodKey) (m : MethodId)
  /-- The instance is under construction. -/
  | pending (k : MethodKey) (m : MethodId)
  | placeholder (m : MethodId)
  /-- The declaring class could not be realized. -/
  | unresolved (c : Construction) (e : Error)
  /-- The descriptor could not be completed. -/
  | refused (c : Construction) (e : Error)

inductive Phase where
  | asked (a : Aim)
  /-- Counted as too deeply nested. -/
  | placing
  | hit (k : MethodKey) (m : MethodId)
  | missed (k : MethodKey)
  /-- From here on the lock is held. -/
  | locked (k : MethodKey)
  | rehit (k : MethodKey) (m : MethodId)
  /-- Looked up again, still not there. -/
  | absent (k : MethodKey)
  | guarded (k : MethodKey) (m : MethodId)
  /-- Neither complete nor under construction. -/
  | unclaimed (k : MethodKey)
  | allocated (c : Construction)
  | building (c : Construction)
  | published (c : Construction) (r : Realization)
  | inserted (c : Construction) (r : Realization)
  | finished (c : Construction) (r : Realization)
  | refused (c : Construction) (e : Error)
  | abandoned (c : Construction) (e : Error)
  /-- Decided, with the lock still held. -/
  | closing (v : Verdict)
  | closed (v : Verdict)

namespace Verdict

def aim : Verdict → Aim
  | cached _ k _ => .key k
  | pending k _ => .key k
  | placeholder _ => .placeholder
  | unresolved c _ => .key c.key.key
  | refused c _ => .key c.key.key

def result (g : Engine) : Verdict → MethodResult
  | cached _ _ m => .ok m
  | pending _ m => .ok m
  | placeholder m => .ok m
  | unresolved c e => .error (.unresolvable (g.names.keyName c.key.key) e)
  | refused _ e => .error e

end Verdict

namespace Phase

def aim : Phase → Aim
  | asked a => a
  | placing => .placeholder
  | hit k _ => .key k
  | missed k => .key k
  | locked k => .key k
  | rehit k _ => .key k
  | absent k => .key k
  | guarded k _ => .key k
  | unclaimed k => .key k
  | allocated c => .key c.key.key
  | building c => .key c.key.key
  | published c _ => .key c.key.key
  | inserted c _ => .key c.key.key
  | finished c _ => .key c.key.key
  | refused c _ => .key c.key.key
  | abandoned c _ => .key c.key.key
  | closing v => v.aim
  | closed v => v.aim

/-- The construction whose descriptor is pending. -/
def construction? : Phase → Option Construction
  | building c => some c
  | published c _ => some c
  | inserted c _ => some c
  | refused c _ => some c
  | _ => none

/-- The request holds the lock. -/
def locks : Phase → Bool
  | asked _ => false
  | placing => false
  | hit _ _ => false
  | missed _ => false
  | closed _ => false
  | _ => true

variable (K : Contract) (g : Engine)

/-- An action of a request in one phase, and the phase that it leads to. -/
inductive Step : Phase → AnsweredAction → Phase → Prop where
  | copyKey {a : Aim} {k : MethodKey} {h : KeyHandle} : Step (asked a) ⟨.copyKey k, h⟩ (asked a)
  | nameNested {e : Event} : Step (asked .placeholder) ⟨.emit e, ()⟩ (asked .placeholder)
  | countNested : Step (asked .placeholder) ⟨.record .degenerate, ()⟩ placing
  | place {m : MethodId} : Step placing ⟨.allocate .placeholder, m⟩ (closed (.placeholder m))
  | hit {k : MethodKey} {m : MethodId} : Step (asked (.key k)) ⟨.findMethod k, some m⟩ (hit k m)
  | miss {k : MethodKey} : Step (asked (.key k)) ⟨.findMethod k, none⟩ (missed k)
  | countHit {k : MethodKey} {m : MethodId} :
      Step (hit k m) ⟨.record .fastHit, ()⟩ (closed (.cached .fastHit k m))
  | lock {k : MethodKey} (valid : g.validate k = .ok ()) : Step (missed k) ⟨.acquire, ()⟩ (locked k)
  | rehit {k : MethodKey} {m : MethodId} : Step (locked k) ⟨.findMethod k, some m⟩ (rehit k m)
  | missAgain {k : MethodKey} : Step (locked k) ⟨.findMethod k, none⟩ (absent k)
  | countRehit {k : MethodKey} {m : MethodId} :
      Step (rehit k m) ⟨.record .recheckHit, ()⟩ (closing (.cached .recheckHit k m))
  | guard {k : MethodKey} {m : MethodId} : Step (absent k) ⟨.findPending k, some m⟩ (guarded k m)
  | passGuard {k : MethodKey} : Step (absent k) ⟨.findPending k, none⟩ (unclaimed k)
  | countGuard {k : MethodKey} {m : MethodId} :
      Step (guarded k m) ⟨.record .recursionHit, ()⟩ (closing (.pending k m))
  | copyOwnKey {k : MethodKey} {h : KeyHandle} :
      Step (unclaimed k) ⟨.copyKey k, h⟩ (unclaimed k)
  | allocate {k : MethodKey} {h : KeyHandle} {m : MethodId} (hk : h.key = k) :
      Step (unclaimed k) ⟨.allocate (.ofKey h), m⟩ (allocated ⟨h, m⟩)
  | claim {c : Construction} : Step (allocated c) ⟨.addPending c.key.key c.method, ()⟩ (building c)
  | note {c : Construction} {e : Event} (naming : e.isNaming = false) :
      Step (building c) ⟨.emit e, ()⟩ (building c)
  | publish {c : Construction} {r : Realization} (builds : K.builds c r) :
      Step (building c) ⟨.publish c.method r, .ok ()⟩ (published c r)
  | refuse {c : Construction} {r : Realization} {e : Error} :
      Step (building c) ⟨.publish c.method r, .error e⟩ (refused c e)
  | insert {c : Construction} {r : Realization} :
      Step (published c r) ⟨.addMethod c.key.key c.method, ()⟩ (inserted c r)
  | unclaim {c : Construction} {r : Realization} :
      Step (inserted c r) ⟨.removePending c.key.key, ()⟩ (finished c r)
  | countBuilt {c : Construction} {r : Realization} :
      Step (finished c r) ⟨.record (.inflated r.dispatch.kind), ()⟩
        (closing (.cached (.inflated r.dispatch.kind) c.key.key c.method))
  | unclaimRefused {c : Construction} {e : Error} :
      Step (refused c e) ⟨.removePending c.key.key, ()⟩ (closing (.refused c e))
  | unclaimFailed {c : Construction} {e : Error} (fails : K.fails c e) :
      Step (building c) ⟨.removePending c.key.key, ()⟩ (abandoned c e)
  | countFailed {c : Construction} {e : Error} :
      Step (abandoned c e) ⟨.record .failure, ()⟩ (closing (.unresolved c e))
  | nameFailed {c : Construction} {e : Error} {ev : Event} :
      Step (closing (.unresolved c e)) ⟨.emit ev, ()⟩ (closing (.unresolved c e))
  | noteLocked {v : Verdict} {e : Event} (naming : e.isNaming = false) :
      Step (closing v) ⟨.emit e, ()⟩ (closing v)
  | unlock {v : Verdict} : Step (closing v) ⟨.release, ()⟩ (closed v)
  | noteUnlocked {v : Verdict} {e : Event} (naming : e.isNaming = false) :
      Step (closed v) ⟨.emit e, ()⟩ (closed v)

/-- In this phase a request ends with `r`. -/
inductive Ends : Phase → MethodResult → Prop where
  | closed (v : Verdict) : Ends (closed v) (v.result g)
  | invalid {k : MethodKey} {e : Rejection} (invalid : g.validate k = .error e) :
      Ends (missed k) (.error (.invalid e))
  | error (e : Error) : Ends (asked (.error e)) (.error e)

end Phase

/-! ## Programs in phases -/

/-- What a thread can learn from an action, whatever the state. -/
def Action.CanYield : (a : Action) → a.Response → Prop
  | .copyKey k, h => h.key = k
  | _, _ => True

theorem Action.exists_canYield (a : Action) : ∃ x, a.CanYield x := by
  cases a with
  | copyKey k => exact ⟨⟨0, k⟩, rfl⟩
  | allocate d => exact ⟨⟨0⟩, trivial⟩
  | findMethod k | findPending k => exact ⟨none, trivial⟩
  | publish m r => exact ⟨.ok (), trivial⟩
  | _ => exact ⟨(), trivial⟩

/-- From the phase `φ` on, the program goes through the phases of a request, and what it ends with
in a phase is in `post`. -/
def Program.Follows {α : Type} (K : Contract) (g : Engine) (post : Phase → α → Prop) :
    Phase → Program α → Prop
  | φ, .done a => post φ a
  | φ, .act a next => ∀ x, a.CanYield x → ∃ φ', φ.Step K g ⟨a, x⟩ φ' ∧ (next x).Follows K g post φ'
  | φ, .ask c q next =>
    φ = .building c ∧ ∀ x, K.answers q x → (next x).Follows K g post φ

namespace Program

variable {K : Contract} {g : Engine} {α β : Type}

theorem Follows.bind {post : Phase → α → Prop} {post' : Phase → β → Prop} {φ : Phase}
    {p : Program α} {f : α → Program β} (hp : p.Follows K g post φ)
    (hf : ∀ φ' a, post φ' a → (f a).Follows K g post' φ') : (p >>= f).Follows K g post' φ := by
  induction p generalizing φ with
  | done a => exact hf φ a hp
  | act a next ih =>
    intro x hx
    obtain ⟨φ', step, rest⟩ := hp x hx
    exact ⟨φ', step, ih x rest⟩
  | ask c q next ih => exact ⟨hp.1, fun x hx => ih x (hp.2 x hx)⟩

/-- A single action, and what comes after it. -/
theorem Follows.perform {post : Phase → α → Prop} {φ : Phase} {a : Action}
    {f : a.Response → Program α}
    (h : ∀ x, a.CanYield x → ∃ φ', φ.Step K g ⟨a, x⟩ φ' ∧ (f x).Follows K g post φ') :
    (Program.perform a >>= f).Follows K g post φ :=
  h

/-- What a construction asks stands in its building phase. -/
theorem Consults.follows {Q : α → Prop} {c : Construction} {p : Program α}
    (h : p.Consults K.answers c Q) :
    p.Follows K g (fun φ a => φ = .building c ∧ Q a) (.building c) := by
  induction p with
  | done a => exact ⟨rfl, h⟩
  | act a next ih =>
    obtain ⟨⟨e, rfl, naming⟩, rest⟩ := h
    exact fun x _ => ⟨_, .note naming, ih x (rest x)⟩
  | ask c' q next ih => exact ⟨by rw [h.1], fun x hx => ih x (h.2 x hx)⟩

/-- A collaborator has the turn in three phases only: before a request is counted as too deeply
nested, while it asks as a construction, and after a failure. -/
theorem Follows.of_isCalling {post : Phase → α → Prop} {φ : Phase} {p : Program α}
    (h : p.Follows K g post φ) (calling : p.isCalling = true) :
    (∃ c q next, φ = .building c ∧ p = .ask c q next) ∨
      (φ = .asked .placeholder ∨ ∃ c e, φ = .closing (.unresolved c e)) ∧
        ∃ e next, p = .act (.emit e) next := by
  cases p with
  | done a => cases calling
  | ask c q next => exact .inl ⟨c, q, next, h.1, rfl⟩
  | act a next =>
    cases a with
    | emit e =>
      have naming : e.isNaming = true := calling
      obtain ⟨φ', step, -⟩ := h () trivial
      cases step with
      | nameNested => exact .inr ⟨.inl rfl, e, next, rfl⟩
      | nameFailed => exact .inr ⟨.inr ⟨_, _, rfl⟩, e, next, rfl⟩
      | note h | noteLocked h | noteUnlocked h => simp [h] at naming
    | _ => cases calling

/-- A request that neither asks nor ends in its phase does something. -/
theorem Follows.exists_act {φ : Phase} {p : Program MethodResult}
    (h : p.Follows K g (Phase.Ends g) φ) (building : ∀ c, φ ≠ .building c)
    (ends : ∀ r, ¬φ.Ends g r) : ∃ a next x φ', p = .act a next ∧ φ.Step K g ⟨a, x⟩ φ' := by
  cases p with
  | done r => exact absurd h (ends r)
  | ask c q next => exact absurd h.1 (building c)
  | act a next =>
    obtain ⟨x, hx⟩ := a.exists_canYield
    obtain ⟨φ', step, -⟩ := h x hx
    exact ⟨a, next, x, φ', rfl, step⟩

/-- A descriptor that has been completed is inserted next. -/
theorem Follows.of_published {p : Program MethodResult} {c : Construction} {r : Realization}
    (h : p.Follows K g (Phase.Ends g) (.published c r)) :
    ∃ next, p = .act (.addMethod c.key.key c.method) next := by
  obtain ⟨a, next, x, φ', rfl, step⟩ := h.exists_act nofun nofun
  cases step
  exact ⟨next, rfl⟩

/-- A request that has inserted its descriptor takes back the pending entry next. -/
theorem Follows.of_inserted {p : Program MethodResult} {c : Construction} {r : Realization}
    (h : p.Follows K g (Phase.Ends g) (.inserted c r)) :
    ∃ next, p = .act (.removePending c.key.key) next := by
  obtain ⟨a, next, x, φ', rfl, step⟩ := h.exists_act nofun nofun
  cases step
  exact ⟨next, rfl⟩

end Program

/-! ## The phases of the requests -/

namespace Construction

open Program

variable {K : Contract} {g : Engine}

/-- The lock is held, and the result is decided. -/
def Decides (g : Engine) (φ : Phase) (r : MethodResult) : Prop :=
  ∃ v : Verdict, φ = .closing v ∧ r = v.result g

theorem complete_follows {c : Construction} {r : Realization} (builds : K.builds c r) :
    (c.complete r).Follows K g (Decides g) (.building c) := by
  refine Follows.perform fun x _ => ?_
  cases x with
  | error e =>
    refine ⟨_, .refuse, Follows.perform fun _ _ => ⟨_, .unclaimRefused, ?_⟩⟩
    exact ⟨_, rfl, rfl⟩
  | ok =>
    refine ⟨_, .publish builds, Follows.perform fun _ _ => ⟨_, .insert, ?_⟩⟩
    refine Follows.perform fun _ _ => ⟨_, .unclaim, ?_⟩
    refine Follows.perform fun _ _ => ⟨_, .countBuilt, ?_⟩
    refine Follows.perform fun _ _ => ⟨_, .noteLocked rfl, ?_⟩
    exact ⟨_, rfl, rfl⟩

theorem abandon_follows {c : Construction} {e : Error} (fails : K.fails c e) :
    (c.abandon g.names e).Follows K g (Decides g) (.building c) := by
  refine Follows.perform fun _ _ => ⟨_, .unclaimFailed fails, ?_⟩
  refine Follows.perform fun _ _ => ⟨_, .countFailed, ?_⟩
  refine Follows.perform fun _ _ => ⟨_, .nameFailed, ?_⟩
  exact ⟨_, rfl, rfl⟩

theorem run_follows (c : Construction) :
    (c.run g.names).Follows K g (Decides g) (.building c) := by
  refine (K.sound c).follows.bind ?_
  rintro _ owner ⟨rfl, h⟩
  cases owner with
  | error e => exact abandon_follows h
  | ok owner =>
    refine Follows.bind (Consults.follows h) ?_
    rintro _ r ⟨rfl, builds⟩
    exact complete_follows builds

theorem ownKey_follows (k : KeyHandle) (copyKey : Bool) :
    (ownKey k copyKey).Follows K g (fun φ h => φ = .unclaimed k.key ∧ h.key = k.key)
      (.unclaimed k.key) := by
  cases copyKey with
  | false => exact ⟨rfl, rfl⟩
  | true => exact fun h hk => ⟨_, .copyOwnKey, rfl, hk⟩

theorem start_follows (k : KeyHandle) (copyKey : Bool) :
    (start k copyKey).Follows K g (fun φ c => φ = .building c) (.unclaimed k.key) := by
  refine (ownKey_follows k copyKey).bind ?_
  rintro _ h ⟨rfl, hk⟩
  refine Follows.perform fun m _ => ⟨_, .allocate hk, ?_⟩
  exact Follows.perform fun _ _ => ⟨_, .claim, rfl⟩

end Construction

namespace Engine

open Program Construction

variable {K : Contract} {g : Engine}

theorem constructLocked_follows (k : KeyHandle) (copyKey : Bool) :
    (g.constructLocked k copyKey).Follows K g (Decides g) (.locked k.key) := by
  refine Follows.perform fun x _ => ?_
  cases x with
  | some m =>
    refine ⟨_, .rehit, Follows.perform fun _ _ => ⟨_, .countRehit, ?_⟩⟩
    exact ⟨_, rfl, rfl⟩
  | none =>
    refine ⟨_, .missAgain, Follows.perform fun y _ => ?_⟩
    cases y with
    | some m =>
      refine ⟨_, .guard, Follows.perform fun _ _ => ⟨_, .countGuard, ?_⟩⟩
      refine Follows.perform fun _ _ => ⟨_, .noteLocked rfl, ?_⟩
      exact ⟨_, rfl, rfl⟩
    | none =>
      refine ⟨_, .passGuard, (start_follows k copyKey).bind ?_⟩
      rintro _ c rfl
      exact c.run_follows

theorem construct_follows {k : KeyHandle} (copyKey : Bool) (valid : g.validate k.key = .ok ()) :
    (g.construct k copyKey).Follows K g (Phase.Ends g) (.missed k.key) := by
  refine Follows.perform fun _ _ => ⟨_, .lock valid, ?_⟩
  refine (constructLocked_follows k copyKey).bind ?_
  rintro _ _ ⟨v, rfl, rfl⟩
  exact Follows.perform fun _ _ => ⟨_, .unlock, .closed v⟩

theorem request_instantiate_follows (k : KeyHandle) (copyKey : Bool) :
    (g.request (.instantiate k) copyKey).Follows K g (Phase.Ends g) (.asked (.key k.key)) := by
  refine Follows.perform fun x _ => ?_
  cases x with
  | some m =>
    refine ⟨_, .hit, Follows.perform fun _ _ => ⟨_, .countHit, ?_⟩⟩
    exact Follows.perform fun _ _ => ⟨_, .noteUnlocked rfl, .closed _⟩
  | none =>
    refine ⟨_, .miss, ?_⟩
    cases valid : g.validate k.key with
    | error e => exact .invalid valid
    | ok => exact construct_follows copyKey valid

theorem request_tooDeeplyNested_follows (copyKey : Bool) :
    (g.request .tooDeeplyNested copyKey).Follows K g (Phase.Ends g) (.asked .placeholder) := by
  refine Follows.perform fun _ _ => ⟨_, .countNested, ?_⟩
  exact Follows.perform fun m _ => ⟨_, .place, .closed _⟩

theorem get_follows (k : KeyHandle) (copyKey : Bool) :
    (g.get k copyKey).Follows K g (Phase.Ends g) (.asked (g.aimAt k.key)) := by
  unfold get aimAt
  split
  · exact Follows.perform fun _ _ => ⟨_, .nameNested, request_tooDeeplyNested_follows copyKey⟩
  · exact request_instantiate_follows k copyKey

end Engine

/-- Every request goes through the phases. -/
theorem Call.program_follows (K : Contract) (g : Engine) (c : Call) :
    (c.program g).Follows K g (Phase.Ends g) (.asked (c.aim g)) := by
  cases c with
  | get k copyKey => exact Engine.get_follows k copyKey
  | request r copyKey =>
    cases r with
    | instantiate k => exact Engine.request_instantiate_follows k copyKey
    | tooDeeplyNested => exact Engine.request_tooDeeplyNested_follows copyKey
  | virtualTarget v called =>
    simp only [program, aim, Engine.virtualTarget]
    cases virtualKey v called with
    | error e => exact Phase.Ends.error e
    | ok k =>
      refine Program.Follows.perform fun h hk => ⟨_, .copyKey, ?_⟩
      have hk : h.key = k := hk
      exact hk ▸ Engine.get_follows h false

end Monomorph
