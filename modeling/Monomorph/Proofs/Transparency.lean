import Monomorph.Proofs.Preservation
import Monomorph.Proofs.Questions
import Monomorph.Proofs.Replay

/-!
A cache does not show. With collaborators whose answers depend on the questions alone, what a
cached descriptor holds and how a request ends are functions of the key (`Collaborators.owner`,
`Collaborators.realization`). Main statement: `System.Run.cache_transparent`.
-/

namespace Monomorph

namespace Collaborators

variable (C : Collaborators)

/-- The descriptor of an instance, built for itself. -/
def describes (k : MethodKey) (d : Descriptor) : Prop :=
  ∃ h owner, h.key = k ∧ C.owner k = .ok owner ∧
    d = .describing h (some (C.realization k owner))

/-- How a request ends if every instance is built for itself. -/
def Serves (g : Engine) (s : State) : Aim → MethodResult → Prop
  | .key k, r =>
    match g.validate k, C.owner k with
    | .error e, _ => r = .error (.invalid e)
    | .ok _, .error e => r = .error (.unresolvable (g.names.keyName k) e)
    | .ok _, .ok _ => ∃ m d, r = .ok m ∧ s.store.get? m = some d ∧ C.describes k d
  | .placeholder, r => ∃ m, r = .ok m ∧ s.store.get? m = some .placeholder
  | .error e, r => r = .error e

end Collaborators

/-! ## Constructions with these collaborators -/

namespace Construction

open Program

variable (C : Collaborators)

/-- The program asks as `c` and finds the value `v`. -/
def Finds {α : Type} (c : Construction) (v : α) (p : Program α) : Prop :=
  p.Consults (fun q x => x = C.answer q) c (· = v)

variable {C} {c : Construction}

theorem Finds.bind {α β : Type} {v : α} {w : β} {p : Program α} {f : α → Program β}
    (hp : Finds C c v p) (hf : Finds C c w (f v)) : Finds C c w (p >>= f) :=
  Consults.bind hp fun _ ha => ha ▸ hf

theorem finds_query (q : Query) : Finds C c (C.answer q) (query c q) :=
  ⟨rfl, fun _ hx => hx⟩

theorem finds_done {α : Type} (v : α) : Finds C c v (.done v) := rfl

theorem finds_of_eq {α : Type} {v w : α} (h : w = v) : Finds C c v (.done w) := h

theorem resolveDispatch_finds (p : PendingMethod) :
    Finds C c (C.dispatch p.view) (c.resolveDispatch p) := by
  have agrees : ∀ (q : Query) x, x = C.answer q → C.sources.Agrees q x :=
    fun q x hx => hx ▸ C.agrees_answer q
  exact ((c.resolveDispatch_consults p).and_asks (c.resolveDispatch_asks agrees p)).mono
    fun d hd => hd.2

theorem inflateReturnType_finds :
    Finds C c (c.definition.returnType.map fun e => C.inflateType e c.context)
      c.inflateReturnType := by
  unfold inflateReturnType
  cases c.definition.returnType with
  | none => exact finds_done none
  | some e => exact (finds_query (.inflateType e c.context)).bind (finds_done _)

theorem resolveContextData_finds :
    Finds C c (c.context.methodArgs.bind fun _ => c.definition.image.bind fun i =>
      C.contextData i c.definition.token c.context) c.resolveContextData := by
  unfold resolveContextData
  cases c.context.methodArgs with
  | none => exact finds_done none
  | some as =>
    cases c.definition.image with
    | none => exact finds_done none
    | some i => exact finds_query (.contextData i c.definition.token c.context)

theorem realize_finds (owner : RuntimeClass) :
    Finds C c (C.realization c.key.key owner) (c.realize owner) := by
  refine inflateReturnType_finds.bind ?_
  refine (finds_query (.inflateParameters c.definition.parameters c.context)).bind ?_
  refine resolveContextData_finds.bind ?_
  refine (resolveDispatch_finds _).bind ?_
  refine finds_of_eq ?_
  unfold Collaborators.realization isClassLevel context definition
  cases c.key.key.context.methodArgs with
  | none => cases owner.isInstance <;> rfl
  | some as => rfl

theorem realizeOwner_finds : Finds C c (C.owner c.key.key) c.realizeOwner := by
  simp only [realizeOwner, Collaborators.owner, context, definition]
  cases c.key.key.context.classArgs with
  | none => exact finds_done _
  | some as => exact finds_query (.realizeClass c.definition.owner as)

end Construction

/-- What constructions come to with these collaborators, who complete no descriptor themselves. -/
def Collaborators.contract (C : Collaborators) : Contract where
  answers q x := x = C.answer q
  mayPublish := False
  builds c r := ∃ owner, C.owner c.key.key = .ok owner ∧ r = C.realization c.key.key owner
  fails c e := C.owner c.key.key = .error e
  sound c := c.realizeOwner_finds.mono fun x hx => by
    cases x with
    | error e => exact hx.symm
    | ok owner => exact (c.realize_finds owner).mono fun r hr => ⟨owner, hx.symm, hr⟩

/-! ## Runs -/

namespace System

/-- The cache agrees with construction without a cache. -/
structure Transparent (C : Collaborators) (g : Engine) (Y : System) : Prop where
  /-- A cached descriptor is the one that its key describes. -/
  cached : ∀ k m, Y.state.cache.methods.find? k = some m →
    g.validate k = .ok () ∧ ∃ d, Y.state.store.get? m = some d ∧ C.describes k d
  /-- A request ends as it would without a cache. -/
  served : ∀ t f st r, Y.stackOf t = f :: st → f.rest = .done r → f.isRecursive = false →
    C.Serves g Y.state (f.call.aim g) r
  /-- The recursion guard gives a descriptor that has the identity of the key, and nothing else
  yet. -/
  guarded : ∀ t f st r, Y.stackOf t = f :: st → f.rest = .done r → f.isRecursive = true →
    ∃ k m h, f.call.aim g = .key k ∧ r = .ok m ∧ h.key = k ∧
      Y.state.store.get? m = some (.ofKey h)

end System

section Transparent

variable {C : Collaborators} {g : Engine} {X Y : System} {P : ThreadId → List Phase}
  {t : ThreadId} {k : MethodKey} {m : MethodId} {tr : List (ThreadId × Move)}

theorem Built.describes {s : State} (h : Built C.contract g s k m) :
    g.validate k = .ok () ∧ ∃ d, s.store.get? m = some d ∧ C.describes k d := by
  obtain ⟨valid, l, r, rfl, hd, owner, ho, rfl⟩ := h
  exact ⟨valid, _, hd, l, owner, rfl, ho, rfl⟩

theorem Consistent.serves (h : Consistent C.contract g X P) {f : Activity} {st : List Activity}
    {r : MethodResult} (hX : X.stackOf t = f :: st) (rest : f.rest = .done r)
    (recursive : f.isRecursive = false) : C.Serves g X.state (f.call.aim g) r := by
  obtain ⟨φ, φs, -, serves, -⟩ := (h.stands t).exists_serves hX
  rw [serves.aim_eq]
  cases serves.ends rest with
  | closed v =>
    cases v with
    | cached o k m =>
      obtain ⟨valid, d, hd, l, owner, hl, ho, rfl⟩ := (h.built serves.holds).describes
      simp only [Phase.aim, Verdict.aim, Collaborators.Serves, valid, ho]
      exact ⟨m, _, rfl, hd, l, owner, hl, ho, rfl⟩
    | pending k m =>
      rw [serves.isRecursive_of_pending rfl] at recursive
      cases recursive
    | placeholder m => exact ⟨m, rfl, serves.holds⟩
    | unresolved c e =>
      obtain ⟨valid, fails⟩ := serves.reached.warranted
      have ho : C.owner c.key.key = .error e := fails
      simp only [Phase.aim, Verdict.aim, Collaborators.Serves, valid, ho]
      rfl
    | refused c e => exact serves.holds.elim
  | @invalid k e invalid =>
    simp only [Phase.aim, Collaborators.Serves, invalid]
  | error e => rfl

theorem Consistent.ofKey_of_recursive (h : Consistent C.contract g X P) {f : Activity}
    {st : List Activity} {r : MethodResult} (hX : X.stackOf t = f :: st) (rest : f.rest = .done r)
    (recursive : f.isRecursive = true) :
    ∃ k m h, f.call.aim g = .key k ∧ r = .ok m ∧ h.key = k ∧
      X.state.store.get? m = some (.ofKey h) := by
  obtain ⟨φ, φs, -, serves, turn, tail⟩ := (h.stands t).exists_serves hX
  obtain ⟨k, m, rfl, rfl⟩ := serves.pending_of_isRecursive rest recursive
  obtain ⟨c, hc, he⟩ := serves.holds
  obtain ⟨rfl, rfl⟩ := Prod.mk.inj he
  obtain ⟨o, hd, ho⟩ := (tail.underWay turn hc).descriptor
  cases o with
  | none => exact ⟨_, _, c.key, serves.aim_eq, rfl, rfl, hd⟩
  | some r => exact (ho nofun).elim

/-- In every run, whatever its threads request and its collaborators request of them, the cache
agrees with construction without a cache. -/
theorem System.Run.cache_transparent (run : System.Run g C.contract.Permits X tr Y)
    (fresh : X.state.IsFresh) (idle : ∀ t, X.stackOf t = []) : System.Transparent C g Y := by
  obtain ⟨P, h⟩ := run.consistent (.of_isFresh _ g fresh idle)
  exact ⟨fun k m hk => (h.built hk).describes,
    fun t f st r hY rest recursive => h.serves hY rest recursive,
    fun t f st r hY rest recursive => h.ofKey_of_recursive hY rest recursive⟩

/-- What two threads after one key are given. -/
theorem System.Run.cache_transparent_racing :
    ∃ R, System.replay {} .plain Sample.racing ([], ⟨{}, fun _ => []⟩) = some R ∧
      R.2.state.cache.methods.find? (Sample.key Sample.read) = some ⟨0⟩ ∧
      System.Transparent .plain {} R.2 := by
  have facts : (System.replay {} .plain Sample.racing ([], ⟨{}, fun _ => []⟩)).map (fun R =>
      R.2.state.cache.methods.find? (Sample.key Sample.read)) = some (some ⟨0⟩) := by
    decide +kernel
  obtain ⟨R, hR, found⟩ := Option.map_eq_some_iff.1 facts
  have run : System.Run {} Collaborators.plain.contract.Permits ⟨{}, fun _ => []⟩ R.1 R.2 := by
    refine System.replay_run (fun _ _ m hm => ?_) .nil hR
    cases m with
    | answer => exact hm
    | outside | reset => exact hm.elim
    | _ => trivial
  exact ⟨R, hR, found, run.cache_transparent ⟨rfl, rfl⟩ fun _ => rfl⟩

end Transparent

end Monomorph
