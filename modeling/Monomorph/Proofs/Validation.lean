import Monomorph.Proofs.Failure
import Monomorph.Proofs.Uniqueness

/-!
Keys that are checked. A cache that checks its keys does so only where a look into the tables has
found nothing, but no key that is not valid ever gets into the tables, so that it comes to the same
as a check before the look (`Call.checkedProgram`). Main statement: `System.Run.keys_checked`, for
any threads and for runs in which instances may be forgotten at any time.
-/

namespace Monomorph

open Phase

/-! ## Valid keys -/

namespace MethodKey

/-- The key gives no arguments to the method itself, or as many as the method declares parameters,
and at least one. -/
def Applies (k : MethodKey) : Prop :=
  ∀ as, k.context.methodArgs = some as →
    k.definition.params ≠ [] ∧ k.definition.params.length = as.length

/-- Why a key does not apply. -/
inductive Misapplies (k : MethodKey) : Rejection → Prop where
  | notGeneric {as : TypeArgs} (args : k.context.methodArgs = some as)
      (params : k.definition.params = []) : Misapplies k (.methodNotGeneric k.definition as.length)
  | argCount {as : TypeArgs} (args : k.context.methodArgs = some as)
      (params : k.definition.params ≠ []) (count : k.definition.params.length ≠ as.length) :
      Misapplies k (.methodArgCount k.definition as.length)

variable {k : MethodKey} {e : Rejection}

theorem not_applies_of_misapplies (h : k.Misapplies e) : ¬k.Applies := by
  intro applies
  cases h with
  | notGeneric args params => exact (applies _ args).1 params
  | argCount args _ count => exact count (applies _ args).2

/-- The check finds out whether a key applies, and if not, why. -/
theorem validate_cases (k : MethodKey) :
    k.validate = .ok () ∧ k.Applies ∨ ∃ e, k.validate = .error e ∧ k.Misapplies e := by
  unfold validate
  split
  · next args =>
    refine .inl ⟨rfl, fun as args' => ?_⟩
    rw [args] at args'
    cases args'
  · next as args =>
    by_cases params : k.definition.params = []
    · have closed : k.definition.isGeneric = false := by simp [MethodDef.isGeneric, params]
      exact .inr ⟨_, by simp [closed], .notGeneric args params⟩
    · have generic : k.definition.isGeneric = true := by simp [MethodDef.isGeneric, params]
      by_cases count : k.definition.params.length = as.length
      · refine .inl ⟨by simp [generic, count], fun as' args' => ?_⟩
        rw [args] at args'
        cases args'
        exact ⟨params, count⟩
      · exact .inr ⟨_, by simp [generic, count], .argCount args params count⟩

theorem validate_eq_ok_iff : k.validate = .ok () ↔ k.Applies := by
  rcases k.validate_cases with ⟨valid, applies⟩ | ⟨e, invalid, misapplies⟩
  · simp [valid, applies]
  · simp [invalid, not_applies_of_misapplies misapplies]

theorem validate_eq_error_iff : k.validate = .error e ↔ k.Misapplies e := by
  constructor
  · intro invalid
    rcases k.validate_cases with ⟨valid, -⟩ | ⟨e', invalid', misapplies⟩
    · rw [valid] at invalid
      cases invalid
    · rw [invalid'] at invalid
      cases invalid
      exact misapplies
  · intro misapplies
    rcases k.validate_cases with ⟨-, applies⟩ | ⟨e', invalid, misapplies'⟩
    · exact absurd applies (not_applies_of_misapplies misapplies)
    · cases misapplies with
      | notGeneric args params =>
        cases misapplies' with
        | notGeneric args' _ =>
          rw [args] at args'
          cases args'
          exact invalid
        | argCount _ params' => exact absurd params params'
      | argCount args params =>
        cases misapplies' with
        | notGeneric _ params' => exact absurd params' params
        | argCount args' =>
          rw [args] at args'
          cases args'
          exact invalid

end MethodKey

theorem Engine.validate_eq {g : Engine} (checks : g.policy.validateKeys = true) (k : MethodKey) :
    g.validate k = k.validate := by
  simp [validate, checks]

/-! ## A check before the look -/

namespace Engine

open Program

/-- As `request`, but the key is checked before anything else. -/
def checkedRequest (g : Engine) (r : Request) (copyKey : Bool) : Program MethodResult :=
  match r with
  | .tooDeeplyNested => g.request .tooDeeplyNested copyKey
  | .instantiate k =>
    match g.validate k.key with
    | .error e => return .error (.invalid e)
    | .ok _ => do
      match ← perform (.findMethod k.key) with
      | some m =>
        perform (.record .fastHit)
        perform (.emit (.cacheHit k.key.definition.token))
        return .ok m
      | none => g.construct k copyKey

def checkedGet (g : Engine) (k : KeyHandle) (copyKey : Bool) : Program MethodResult := do
  if g.policy.exceeds k.key.depth then
    perform (.emit (.nestingLimitExceeded g.names k.key g.policy.maxNesting))
    g.checkedRequest .tooDeeplyNested copyKey
  else
    g.checkedRequest (.instantiate k) copyKey

def checkedVirtualTarget (g : Engine) (v : SlotMethod) (called : Descriptor) :
    Program MethodResult :=
  match virtualKey v called with
  | .error e => return .error e
  | .ok k => do
    let k ← perform (.copyKey k)
    g.checkedGet k false

end Engine

/-- The request, if its key were checked before the look into the cache. -/
def Call.checkedProgram (g : Engine) : Call → Program MethodResult
  | get k copyKey => g.checkedGet k copyKey
  | request r copyKey => g.checkedRequest r copyKey
  | virtualTarget v called => g.checkedVirtualTarget v called

section Programs

variable {g : Engine} {k : MethodKey} {e : Rejection} {t : ThreadId} {s : State}

/-- For a valid key, the check makes no difference. -/
theorem Engine.checkedRequest_of_valid {h : KeyHandle} (valid : g.validate h.key = .ok ())
    (copyKey : Bool) : g.checkedRequest (.instantiate h) copyKey =
      g.request (.instantiate h) copyKey := by
  simp only [checkedRequest, valid]
  refine congrArg (Program.act (.findMethod h.key)) (funext fun x => ?_)
  cases x with
  | some m => rfl
  | none => simp only [Program.bind, valid]

theorem Engine.request_of_invalid {h : KeyHandle} (invalid : g.validate h.key = .error e)
    (missing : s.cache.methods.find? h.key = none) (copyKey : Bool) :
    (g.request (.instantiate h) copyKey).advance t s = (.finished (.error (.invalid e)), s) := by
  refine (Program.advance_perform t (.findMethod h.key) _ s).trans ?_
  simp only [Action.apply, missing, invalid]
  rfl

theorem Engine.checkedRequest_of_invalid {h : KeyHandle} (invalid : g.validate h.key = .error e)
    (copyKey : Bool) :
    (g.checkedRequest (.instantiate h) copyKey).advance t s =
      (.finished (.error (.invalid e)), s) := by
  unfold checkedRequest
  simp only [invalid]
  rfl

/-- If no key is complete that is not valid, it does not matter when a key is checked. -/
theorem Engine.advance_checkedRequest
    (valid : ∀ k m, s.cache.methods.find? k = some m → g.validate k = .ok ()) (r : Request)
    (copyKey : Bool) :
    (g.request r copyKey).advance t s = (g.checkedRequest r copyKey).advance t s := by
  cases r with
  | tooDeeplyNested => rfl
  | instantiate h =>
    cases hv : g.validate h.key with
    | ok => rw [checkedRequest_of_valid hv]
    | error e =>
      have missing : s.cache.methods.find? h.key = none := by
        refine Option.eq_none_iff_forall_ne_some.2 fun m hm => ?_
        rw [valid h.key m hm] at hv
        cases hv
      rw [request_of_invalid hv missing, checkedRequest_of_invalid hv]

theorem Engine.advance_checkedGet
    (valid : ∀ k m, s.cache.methods.find? k = some m → g.validate k = .ok ()) (h : KeyHandle)
    (copyKey : Bool) : (g.get h copyKey).advance t s = (g.checkedGet h copyKey).advance t s := by
  unfold get checkedGet
  split
  · rfl
  · exact advance_checkedRequest valid _ copyKey

theorem Call.advance_checkedProgram
    (valid : ∀ k m, s.cache.methods.find? k = some m → g.validate k = .ok ()) (c : Call) :
    (c.program g).advance t s = (c.checkedProgram g).advance t s := by
  cases c with
  | get h copyKey => exact Engine.advance_checkedGet valid h copyKey
  | request r copyKey => exact Engine.advance_checkedRequest valid r copyKey
  | virtualTarget v called =>
    simp only [program, checkedProgram, Engine.virtualTarget, Engine.checkedVirtualTarget]
    cases virtualKey v called with
    | error e => rfl
    | ok k =>
      rw [Program.advance_perform, Program.advance_perform]
      exact Engine.advance_checkedGet (s := (Action.apply t s (.copyKey k)).2) valid _ false

/-- Whatever their actions find, the two programs do the same. -/
inductive Program.Agrees {α : Type} : Program α → Program α → Prop where
  | refl (p : Program α) : Agrees p p
  | act {a : Action} {next next' : a.Response → Program α}
      (h : ∀ x, a.CanYield x → Agrees (next x) (next' x)) : Agrees (.act a next) (.act a next')

theorem Engine.get_agrees {h : KeyHandle} (copyKey : Bool)
    (valid : ∀ k, g.aimAt h.key = .key k → g.validate k = .ok ()) :
    (g.get h copyKey).Agrees (g.checkedGet h copyKey) := by
  unfold get checkedGet
  split
  · exact .refl _
  · next shallow =>
    rw [checkedRequest_of_valid (valid h.key (if_neg shallow))]
    exact .refl _

/-- A request for a valid key does the same if the key is checked first. -/
theorem Call.program_agrees {c : Call} (valid : ∀ k, c.aim g = .key k → g.validate k = .ok ()) :
    (c.program g).Agrees (c.checkedProgram g) := by
  cases c with
  | get h copyKey => exact Engine.get_agrees copyKey valid
  | request r copyKey =>
    cases r with
    | tooDeeplyNested => exact .refl _
    | instantiate h =>
      simp only [program, checkedProgram, Engine.checkedRequest_of_valid (valid h.key rfl)]
      exact .refl _
  | virtualTarget v called =>
    simp only [aim] at valid
    simp only [program, checkedProgram, Engine.virtualTarget, Engine.checkedVirtualTarget]
    cases hv : virtualKey v called with
    | error e => exact .refl _
    | ok k =>
      simp only [hv] at valid
      refine .act fun h hk => Engine.get_agrees false ?_
      have same : h.key = k := hk
      rw [same]
      exact valid

end Programs

/-! ## Actions -/

/-- The key of which the action shows that it is or becomes complete, pending or under
construction. -/
def AnsweredAction.shows? : AnsweredAction → Option MethodKey
  | ⟨.findMethod k, some _⟩ => some k
  | ⟨.findPending k, some _⟩ => some k
  | ⟨.allocate d, _⟩ => d.key.map (·.key)
  | ⟨.addPending k _, _⟩ => some k
  | ⟨.addMethod k _, _⟩ => some k
  | _ => none

section Phases

variable {K : Contract} {g : Engine} {a : Aim} {ds : List AnsweredAction} {d : AnsweredAction}
  {φ φ' : Phase}
  {k : MethodKey} {p : Program MethodResult}

/-- A request deals with a valid key, or it has found its key among the complete ones. -/
theorem Phase.Step.valid_of_shows (h : φ.Step K g d φ') (warranted : φ.Warranted K g)
    (hd : d.shows? = some k) :
    (∃ m, d = ⟨.findMethod k, some m⟩) ∨ g.validate k = .ok () := by
  cases h with
  | hit | rehit =>
    cases hd
    exact .inl ⟨_, rfl⟩
  | guard | claim =>
    cases hd
    exact .inr warranted
  | allocate hk =>
    subst hk
    cases hd
    exact .inr warranted
  | insert =>
    cases hd
    exact .inr warranted.1
  | _ => cases hd

/-- A request for a key that is not valid only looks, if all keys that it comes across are valid. -/
theorem Phase.Reached.looking (h : Reached K g a ds φ) (aim : a = .key k)
    (invalid : g.validate k ≠ .ok ())
    (valid : ∀ d ∈ ds, ∀ l, d.shows? = some l → g.validate l = .ok ()) :
    φ = .asked (.key k) ∨ φ = .missed k := by
  induction h with
  | asked => exact .inl (by rw [aim])
  | @step ds d φ φ' reached step ih =>
    have now := valid d List.mem_cons_self
    rcases ih fun d hd => valid d (List.mem_cons_of_mem _ hd) with rfl | rfl
    · cases step with
      | copyKey => exact .inl rfl
      | hit => exact absurd (now _ rfl) invalid
      | miss => exact .inr rfl
    · cases step with
      | lock hk => exact absurd hk invalid

/-- Such a request waits for nobody. -/
theorem Program.Follows.of_looking (h : p.Follows K g (Phase.Ends g) φ)
    (looking : φ = .asked (.key k) ∨ φ = .missed k) (invalid : g.validate k ≠ .ok ()) :
    (∃ a next, p = .act a next ∧ a ≠ .acquire) ∨
      ∃ e, g.validate k = .error e ∧ p = .done (.error (.invalid e)) := by
  cases p with
  | act a next =>
    refine .inl ⟨a, next, rfl, ?_⟩
    rintro rfl
    obtain ⟨φ', step, -⟩ := h () trivial
    rcases looking with rfl | rfl
    · cases step
    · cases step with
      | lock valid => exact invalid valid
  | ask c q next =>
    obtain rfl : φ = .building c := h.1
    rcases looking with looking | looking <;> cases looking
  | done r =>
    have ends : φ.Ends g r := h
    rcases looking with rfl | rfl
    · cases ends
    · cases ends with
      | invalid he => exact .inr ⟨_, he, rfl⟩

end Phases

/-- Who is answered is a construction that waits. -/
theorem Session.Step.answer_cases {g : Engine} {t : ThreadId} {X Y : Session} {c : Construction}
    {q : Query} {x : q.Answer} (h : Step g t X (.answer c q x) Y) :
    ∃ f ∈ X.stack, f.construction? = some c := by
  cases h with
  | @answer s f st c q next rest x =>
    exact ⟨f, List.mem_cons_self, by simp [Activity.construction?, rest]⟩

/-! ## Runs -/

namespace System

variable {g : Engine} {ok : System → ThreadId → Move → Prop} {X Y Z : System}
  {tr : List (ThreadId × Move)} {t : ThreadId} {m : Move}

/-- All keys that the system has dealt with are valid. -/
structure KeysValid (g : Engine) (tr : List (ThreadId × Move)) (Y : System) : Prop where
  cached : ∀ k n, Y.state.cache.methods.find? k = some n → g.validate k = .ok ()
  pending : ∀ k n, Y.state.cache.pending.find? k = some n → g.validate k = .ok ()
  shown : ∀ t d k, (t, .act d) ∈ tr → d.shows? = some k → g.validate k = .ok ()
  asked : ∀ t c q x, (t, .answer c q x) ∈ tr → g.validate c.key.key = .ok ()

/-- An action that a request does now deals with a valid key. -/
theorem KeysValid.shows (h : Y.KeysValid g tr) (course : Y.Course .any g tr) {d : AnsweredAction}
    (move : Step g Y t (.act d) Z) {k : MethodKey} (hd : d.shows? = some k) :
    g.validate k = .ok () := by
  obtain ⟨f, next, hf, rest, takes⟩ := move.own.act_cases
  obtain ⟨φ, courses⟩ := course.courses t f hf
  obtain ⟨φ', step, -⟩ := courses.step rest takes
  rcases step.valid_of_shows courses.reached.warranted hd with ⟨n, rfl⟩ | valid
  · have found : some n = Y.state.cache.methods.find? k := takes.response_eq
    exact h.cached k n found.symm
  · exact valid

theorem KeysValid.step (h : Y.KeysValid g tr) (course : Y.Course .any g tr)
    (move : Step g Y t m Z) : Z.KeysValid g ((t, m) :: tr) := by
  have shown : ∀ u d k, (u, .act d) ∈ (t, m) :: tr → d.shows? = some k → g.validate k = .ok () := by
    intro u d k hd hk
    rcases List.mem_cons.1 hd with hd | hd
    · cases hd
      exact h.shows course move hk
    · exact h.shown u d k hd hk
  -- What is new in the tables is shown by the action that has put it there.
  refine ⟨?_, ?_, shown, ?_⟩
  · intro k n hk
    rcases move.own.find?_cases with ⟨d, rfl, f, -, next, -, takes⟩ | kept
    · rcases takes.methods_find? hk with hk | rfl
      · exact h.cached k n hk
      · exact shown t _ k List.mem_cons_self rfl
    · exact h.cached k n ((kept k n).1 hk)
  · intro k n hk
    rcases move.own.find?_cases with ⟨d, rfl, f, -, next, -, takes⟩ | kept
    · rcases takes.pending_find? hk with hk | rfl
      · exact h.pending k n hk
      · exact shown t _ k List.mem_cons_self rfl
    · exact h.pending k n ((kept k n).2 hk)
  · intro u c q x hx
    rcases List.mem_cons.1 hx with hx | hx
    · cases hx
      obtain ⟨f, hf, asks⟩ := move.own.answer_cases
      obtain ⟨φ, courses⟩ := course.courses t f hf
      have warranted := courses.reached.warranted
      rw [courses.construction?_eq asks] at warranted
      exact warranted
    · exact h.asked u c q x hx

theorem Run.keys_valid (run : Run g ok X tr Y) (fresh : X.state.IsFresh)
    (idle : ∀ u, X.stackOf u = []) : Y.KeysValid g tr := by
  induction run with
  | nil =>
    refine ⟨?_, ?_, by simp, by simp⟩
    · intro k n hk
      rw [fresh.methods] at hk
      cases hk
    · intro k n hk
      rw [fresh.pending] at hk
      cases hk
  | step run _ move ih =>
    exact ih.step (run.course_any fresh idle) move

/-- A key that is not valid cannot be got past the check. -/
structure KeysChecked (g : Engine) (tr : List (ThreadId × Move)) (Y : System) : Prop where
  /-- A key is accepted exactly if it applies, and otherwise the rejection says why. -/
  judged : ∀ k, (g.validate k = .ok () ↔ k.Applies) ∧
    ∀ e, g.validate k = .error e ↔ k.Misapplies e
  cached : ∀ k n, Y.state.cache.methods.find? k = some n → k.Applies
  pending : ∀ k n, Y.state.cache.pending.find? k = some n → k.Applies
  /-- Nothing is found, allocated or entered for any other key. -/
  dealt : ∀ t d k, (t, .act d) ∈ tr → d.shows? = some k → k.Applies
  asked : ∀ t c q x, (t, .answer c q x) ∈ tr → c.key.key.Applies
  consulting : ∀ t, ∀ f ∈ Y.stackOf t, ∀ c, f.construction? = some c → c.key.key.Applies
  /-- A request for such a key is turned away at once, and changes nothing. -/
  turned_away : ∀ (c : Call) k e, c.aim g = .key k → k.Misapplies e → ∀ t, ∃ n,
    (c.program g).advance t Y.state =
      (.finished (.error (.invalid e)), { Y.state with store.nextKey := n })
  /-- So it is if others go on meanwhile: it only looks, waits for nobody, and ends with the
  rejection. -/
  looking : ∀ t, ∀ f ∈ Y.stackOf t, ∀ k e, f.call.aim g = .key k → k.Misapplies e →
    f.actions.all AnsweredAction.isLookup = true ∧
      ((∃ a next, f.rest = .act a next ∧ a ≠ .acquire) ∨ f.rest = .done (.error (.invalid e)))
  accepted : ∀ t, ∀ f ∈ Y.stackOf t, ∀ e, f.rest = .done (.error (.invalid e)) →
    ∃ k, f.call.aim g = .key k ∧ k.Misapplies e
  /-- All this is as if keys were checked first: for keys that apply by what a request does, and
  altogether by where it gets to from here. -/
  agrees : ∀ c : Call, (∀ k, c.aim g = .key k → k.Applies) →
    (c.program g).Agrees (c.checkedProgram g)
  first : ∀ (c : Call) t, (c.program g).advance t Y.state = (c.checkedProgram g).advance t Y.state

/-- In every run of any threads in which keys are checked, whatever the collaborators answer and
request, and also if instances are forgotten at any time. -/
theorem Run.keys_checked (run : Run g ok X tr Y) (checks : g.policy.validateKeys = true)
    (fresh : X.state.IsFresh) (idle : ∀ u, X.stackOf u = []) : KeysChecked g tr Y := by
  have course : Y.Course .any g tr :=
    run.course (fun _ _ m _ => Contract.any_admits m) fresh idle
  have keys : Y.KeysValid g tr := run.keys_valid fresh idle
  have applies : ∀ k, g.validate k = .ok () ↔ k.Applies := by
    intro k
    rw [Engine.validate_eq checks]
    exact MethodKey.validate_eq_ok_iff
  have misapplies : ∀ k e, g.validate k = .error e ↔ k.Misapplies e := by
    intro k e
    rw [Engine.validate_eq checks]
    exact MethodKey.validate_eq_error_iff
  constructor
  · exact fun k => ⟨applies k, misapplies k⟩
  · exact fun k n hk => (applies k).1 (keys.cached k n hk)
  · exact fun k n hk => (applies k).1 (keys.pending k n hk)
  · exact fun t d k hd hk => (applies k).1 (keys.shown t d k hd hk)
  · exact fun t c q x hx => (applies c.key.key).1 (keys.asked t c q x hx)
  · intro t f hf c hc
    obtain ⟨φ, courses⟩ := course.courses t f hf
    have warranted := courses.reached.warranted
    rw [courses.construction?_eq hc] at warranted
    exact (applies c.key.key).1 warranted
  · intro c k e aim he t
    obtain ⟨h, copyKey, n, rfl, advance⟩ := c.advance_eq aim t Y.state
    refine ⟨n, advance.trans (Engine.request_of_invalid ((misapplies h.key e).2 he) ?_ copyKey)⟩
    refine Option.eq_none_iff_forall_ne_some.2 fun m hm => ?_
    exact MethodKey.not_applies_of_misapplies he ((applies h.key).1 (keys.cached h.key m hm))
  · intro t f hf k e aim he
    have invalid : g.validate k = .error e := (misapplies k e).2 he
    have wrong : g.validate k ≠ .ok () := by simp [invalid]
    obtain ⟨φ, courses⟩ := course.courses t f hf
    have reached := courses.reached
    -- All that the request has come across is valid, so it cannot have found its own key.
    have looking : φ = .asked (.key k) ∨ φ = .missed k := by
      refine reached.looking aim wrong fun d hd l hl => ?_
      obtain ⟨u, hu⟩ := course.done t f hf d hd
      exact keys.shown u d l hu hl
    rw [aim] at reached
    refine ⟨reached.isLookup nofun (looking.imp id fun missed => ⟨k, missed⟩), ?_⟩
    rcases courses.follows.of_looking looking wrong with acts | ⟨e', he', rest⟩
    · exact .inl acts
    · rw [invalid] at he'
      cases he'
      exact .inr rest
  · intro t f hf e rest
    obtain ⟨φ, courses⟩ := course.courses t f hf
    have ends := courses.ends rest
    cases ends.fails courses.reached (course.described t f hf) with
    | invalid k e =>
      cases ends with
      | invalid invalid => exact ⟨k, courses.reached.aim_eq.symm, (misapplies k e).1 invalid⟩
  · exact fun c valid => Call.program_agrees fun k aim => (applies k).2 (valid k aim)
  · exact fun c t => Call.advance_checkedProgram keys.cached c

end System

namespace Sample

/-- A method with a parameter of its own. -/
def convert : MethodDef :=
  { read with serial := 3, name := "Convert", params := [{ name := "U", number := 0 }] }

/-- The instance of a method with two arguments for the method itself. -/
def crowdedKey (m : MethodDef) : MethodKey where
  definition := m
  context := ⟨some (.cons (.named (.definition cell)) .nil),
    some (.cons (.named (.definition cell)) (.cons (.named (.definition cell)) .nil))⟩

/-- While an instance is built, an argument too many is given to one method, and arguments to
another one that takes none. The latter is a virtual call that is about to be turned away. -/
def crowding : List (ThreadId × Cue) :=
  (.call (.get ⟨0, key read⟩ false) :: goOn 6 ++
    .call (.request (.instantiate ⟨1, crowdedKey convert⟩) true) :: goOn 2 ++
    .call (.virtualTarget (.descriptor (.ofKey ⟨2, key write⟩))
      (.ofKey ⟨3, crowdedKey convert⟩)) :: goOn 2).map fun q => (0, q)

end Sample

/-- Two requests for keys that do not apply, while a construction waits. -/
theorem System.Run.keys_checked_crowding :
    ∃ R, replay {} .plain Sample.crowding ([], {state := {}}) = some R ∧
      (R.2.stackOf 0).map (fun f => (f.rest.isDone, f.call.aim {})) =
        [(true, .key (Sample.crowdedKey Sample.write)), (false, .key (Sample.key Sample.read))] ∧
      (Sample.crowdedKey Sample.write).Misapplies (.methodNotGeneric Sample.write 2) ∧
      (Sample.crowdedKey Sample.convert).Misapplies (.methodArgCount Sample.convert 2) ∧
      KeysChecked {} R.1 R.2 := by
  have facts : (replay {} .plain Sample.crowding ([], {state := {}})).map (fun R =>
      (R.2.stackOf 0).map fun f => (f.rest.isDone, f.call.aim {})) =
        some [(true, .key (Sample.crowdedKey Sample.write)),
          (false, .key (Sample.key Sample.read))] := by
    decide +kernel
  obtain ⟨R, hR, hf⟩ := Option.map_eq_some_iff.1 facts
  have run : Run {} (fun _ _ _ => True) {state := {}} R.1 R.2 :=
    replay_run (fun _ _ _ _ => trivial) .nil hR
  have crowded : (Sample.crowdedKey Sample.convert).Misapplies (.methodArgCount Sample.convert 2) :=
    MethodKey.Misapplies.argCount (k := Sample.crowdedKey Sample.convert) rfl nofun (by decide)
  have closed : (Sample.crowdedKey Sample.write).Misapplies (.methodNotGeneric Sample.write 2) :=
    MethodKey.Misapplies.notGeneric (k := Sample.crowdedKey Sample.write) rfl rfl
  exact ⟨R, hR, hf, closed, crowded, run.keys_checked rfl ⟨rfl, rfl⟩ fun _ => rfl⟩

end Monomorph
