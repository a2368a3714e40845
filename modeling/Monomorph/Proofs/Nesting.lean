import Monomorph.Proofs.Course
import Monomorph.Proofs.Depth
import Monomorph.Proofs.Replay
import Monomorph.Proofs.Uniqueness

/-!
The nesting limit. If all requests look at the limit, no key beyond it is ever complete, pending or
under construction; and a request for a key beyond it is answered with a placeholder of its own,
whatever else has been asked for, and leaves the tables and the lock alone. Main statement:
`System.Run.nesting_limited`, for any threads and for runs in which instances may be forgotten at
any time.
-/

namespace Monomorph

/-! ## Requests that look at the limit -/

/-- The request looks at the nesting limit. -/
def Call.IsLimited : Call → Prop
  | get _ _ => True
  | virtualTarget _ _ => True
  | request _ _ => False

instance : DecidablePred Call.IsLimited
  | .get _ _ => isTrue trivial
  | .virtualTarget _ _ => isTrue trivial
  | .request _ _ => isFalse id

theorem Policy.exceeds_iff {p : Policy} {n : Nat} : p.exceeds n = true ↔ p.maxNesting < n := by
  simp [exceeds]

theorem Engine.depth_le_of_aimAt {g : Engine} {k l : MethodKey} (h : g.aimAt l = .key k) :
    k.depth ≤ g.policy.maxNesting := by
  unfold aimAt at h
  split at h
  · cases h
  · next shallow =>
    cases h
    rw [Policy.exceeds_iff] at shallow
    omega

/-- What a limited request is after is within the limit. -/
theorem Call.IsLimited.depth_le {g : Engine} {c : Call} {k : MethodKey} (h : c.IsLimited)
    (aim : c.aim g = .key k) : k.depth ≤ g.policy.maxNesting := by
  cases c with
  | get l copyKey => exact Engine.depth_le_of_aimAt aim
  | virtualTarget v called =>
    simp only [Call.aim] at aim
    split at aim
    · exact Engine.depth_le_of_aimAt aim
    · cases aim
  | request => exact h.elim

/-- A request that has begun a construction is after its key. -/
theorem Phase.IsOf.aim_eq {c : Construction} {φ : Phase} (h : φ.IsOf c) :
    φ.aim = .key c.key.key := by
  have ended : ∀ v : Verdict, v.IsOf c → v.aim = .key c.key.key := by
    intro v hv
    cases v with
    | cached =>
      obtain ⟨rfl, -⟩ := hv
      rfl
    | unresolved | refused =>
      cases hv
      rfl
    | pending | placeholder => cases hv
  cases φ with
  | closing v | closed v => exact ended v h
  | allocated | building | published | inserted | finished | refused | abandoned =>
    cases h
    rfl
  | _ => cases h

/-! ## Requests for the placeholder -/

/-- What a request for the placeholder does: it counts itself, allocates, copies a key and reports
events. -/
def AnsweredAction.ServesPlaceholder : AnsweredAction → Prop
  | ⟨.copyKey _, _⟩ => True
  | ⟨.emit _, _⟩ => True
  | ⟨.record o, _⟩ => o = .degenerate
  | ⟨.allocate d, _⟩ => d = .placeholder
  | _ => False

/-- A request for the placeholder that has done so much may be in this phase. -/
def Phase.ServesPlaceholder (ds : List AnsweredAction) : Phase → Prop
  | asked a => a = .placeholder
  | placing => True
  | closed (.placeholder m) => ⟨.allocate .placeholder, m⟩ ∈ ds
  | _ => False

section Phases

variable {K : Contract} {g : Engine} {ds : List AnsweredAction} {d : AnsweredAction} {φ φ' : Phase}
  {t : ThreadId}
  {s s' : State}

theorem Phase.Step.serves_placeholder (h : φ.Step K g d φ') (hφ : φ.ServesPlaceholder ds) :
    d.ServesPlaceholder ∧ φ'.ServesPlaceholder (d :: ds) := by
  cases h with
  | copyKey => exact ⟨trivial, hφ⟩
  | nameNested => exact ⟨trivial, rfl⟩
  | countNested => exact ⟨rfl, trivial⟩
  | place => exact ⟨rfl, List.mem_cons_self⟩
  | hit | miss => cases hφ
  | @noteUnlocked v =>
    cases v with
    | placeholder => exact ⟨trivial, List.mem_cons_of_mem _ hφ⟩
    | cached | pending | unresolved | refused => exact hφ.elim
  | _ => exact hφ.elim

theorem Phase.Reached.serves_placeholder (h : Reached K g .placeholder ds φ) :
    (∀ d ∈ ds, d.ServesPlaceholder) ∧ φ.ServesPlaceholder ds := by
  generalize ha : Aim.placeholder = a at h
  induction h with
  | asked => exact ⟨by simp, ha.symm⟩
  | step _ step ih =>
    obtain ⟨done, places⟩ := ih
    obtain ⟨now, places'⟩ := step.serves_placeholder places
    exact ⟨List.forall_mem_cons.2 ⟨now, done⟩, places'⟩

/-- What a request for the placeholder does leaves the tables and the lock alone. -/
theorem AnsweredAction.ServesPlaceholder.tables_kept (h : d.ServesPlaceholder)
    (takes : d.Takes t s s') :
    s'.cache.methods = s.cache.methods ∧ s'.cache.pending = s.cache.pending ∧ s'.lock = s.lock := by
  rw [takes.state_eq]
  obtain ⟨a, x⟩ := d
  cases a with
  | copyKey | emit | record | allocate => exact ⟨rfl, rfl, rfl⟩
  | _ => exact h.elim

/-- In these phases a request has been counted as degenerate, or it has not come to that yet. -/
theorem Phase.ServesPlaceholder.outcomes_eq (h : φ.ServesPlaceholder ds) :
    φ.outcomes = [] ∨ φ.outcomes = [.degenerate] := by
  cases φ with
  | asked => exact .inl rfl
  | placing => exact .inr rfl
  | closed v =>
    cases v with
    | placeholder => exact .inr rfl
    | cached | pending | unresolved | refused => exact h.elim
  | _ => exact h.elim

/-- In these phases a request ends with the placeholder that it has allocated, and is counted. -/
theorem Phase.ServesPlaceholder.gives_placeholder {r : MethodResult} (h : φ.ServesPlaceholder ds)
    (ends : φ.Ends g r) :
    ∃ m, r = .ok m ∧ ⟨.allocate .placeholder, m⟩ ∈ ds ∧ φ.outcomes = [.degenerate] := by
  cases ends with
  | closed v =>
    cases v with
    | placeholder m => exact ⟨m, rfl, h, rfl⟩
    | cached | pending | unresolved | refused => exact h.elim
  | invalid => exact h.elim
  | error => cases h

/-- In these phases a request does not wait for anybody. -/
theorem Phase.ServesPlaceholder.not_waiting {p : Program MethodResult} (h : φ.ServesPlaceholder ds)
    (follows : p.Follows K g (Phase.Ends g) φ) (t : ThreadId) (s : State) :
    (∃ a next, p = .act a next ∧ a.isEnabled t s = true) ∨ ∃ r, p = .done r := by
  cases p with
  | done r => exact .inr ⟨r, rfl⟩
  | ask c q next =>
    obtain rfl : φ = .building c := follows.1
    exact h.elim
  | act a next =>
    refine .inl ⟨a, next, rfl, ?_⟩
    cases a with
    | acquire =>
      obtain ⟨φ', step, -⟩ := follows () trivial
      exact (step.serves_placeholder h).1.elim
    | _ => rfl

end Phases

/-- A placeholder that a request has allocated was so before, or is in the store now. -/
theorem Activity.Goes.placeholder {t : ThreadId} {f f' : Activity} {s s' : State} {mv : Move}
    {m : MethodId} (h : f.Goes t s mv f' s') (hm : ⟨.allocate .placeholder, m⟩ ∈ f'.actions) :
    ⟨.allocate .placeholder, m⟩ ∈ f.actions ∨ s'.store.get? m = some .placeholder := by
  cases h with
  | act rest takes =>
    rcases List.mem_cons.1 hm with rfl | hm
    · rw [takes.state_eq, show m = s.store.next from takes.response_eq]
      exact .inr (s.store.get?_allocate_next .placeholder)
    · exact .inl hm
  | answer => exact .inl hm

/-! ## Runs -/

namespace System

variable {g : Engine} {ok : System → ThreadId → Move → Prop} {X Y : System}
  {tr : List (ThreadId × Move)} {t : ThreadId} {f : Activity} {φ : Phase}

/-- A placeholder that a request has allocated stays as it is. -/
theorem Run.placeholder (run : Run g ok X tr Y) (idle : ∀ u, X.stackOf u = [])
    (hf : f ∈ Y.stackOf t) {m : MethodId} (hm : ⟨.allocate .placeholder, m⟩ ∈ f.actions) :
    Y.state.store.get? m = some .placeholder := by
  induction run generalizing t f with
  | nil =>
    rw [idle] at hf
    cases hf
  | step _ _ move ih =>
    have store := move.own.store_extends_any
    rcases move.mem_stackOf hf with hf | ⟨c, -, rfl⟩ | ⟨f₀, hf₀, goes⟩
    · exact store.complete (ih hf hm) rfl
    · cases hm
    · rcases goes.placeholder hm with old | new
      · exact store.complete (ih hf₀ old) rfl
      · exact new

/-- All keys that the system deals with are within the limit. -/
structure KeysWithin (n : Nat) (Y : System) : Prop where
  cached : ∀ k m, Y.state.cache.methods.find? k = some m → k.depth ≤ n
  pending : ∀ k m, Y.state.cache.pending.find? k = some m → k.depth ≤ n
  /-- The construction of a request that calls a collaborator, if it asks a question or if it names
  its key after a failure. -/
  consulting : ∀ t, ∀ f ∈ Y.stackOf t, ∀ c : Construction,
    f.construction? = some c ∨ c.AllocatedBy f.actions → c.key.key.depth ≤ n

theorem Course.keys_within (h : Y.Course .any g tr) (limited : ∀ c ∈ calls tr, c.IsLimited) :
    KeysWithin g.policy.maxNesting Y := by
  have asked : ∀ k, (∃ c ∈ calls tr, c.aim g = .key k) → k.depth ≤ g.policy.maxNesting := by
    rintro k ⟨c, hc, aim⟩
    exact (limited c hc).depth_le aim
  refine ⟨fun k m hk => asked k (h.asked k m (.inl hk)),
    fun k m hk => asked k (h.asked k m (.inr hk)), ?_⟩
  intro t f hf c hc
  refine asked c.key.key ⟨f.call, h.made t f hf, ?_⟩
  obtain ⟨φ, courses⟩ := h.courses t f hf
  rw [← courses.reached.aim_eq]
  rcases hc with asks | allocates
  · rw [courses.construction?_eq asks]
    rfl
  · exact (courses.reached.isOf allocates).aim_eq

/-- Among other requests, the request is answered with a placeholder of its own, waits for nobody,
and has nothing to do with the tables and the lock. -/
structure AnswersWithPlaceholder (Y : System) (f : Activity) : Prop where
  tables_kept : ∀ d ∈ f.actions, ∀ u s s', d.Takes u s s' → s'.cache.methods = s.cache.methods ∧
    s'.cache.pending = s.cache.pending ∧ s'.lock = s.lock
  counted : f.outcomes = [] ∨ f.outcomes = [.degenerate]
  not_waiting : ∀ u s, (∃ a next, f.rest = .act a next ∧ a.isEnabled u s = true) ∨
    ∃ r, f.rest = .done r
  gives : ∀ r, f.rest = .done r → ∃ m, r = .ok m ∧ ⟨.allocate .placeholder, m⟩ ∈ f.actions ∧
    Y.state.store.get? m = some .placeholder ∧ f.outcomes = [.degenerate]

theorem Run.answers_with_placeholder (run : Run g ok X tr Y) (fresh : X.state.IsFresh)
    (idle : ∀ u, X.stackOf u = []) (hf : f ∈ Y.stackOf t) (aim : f.call.aim g = .placeholder) :
    Y.AnswersWithPlaceholder f := by
  have course := run.course_any fresh idle
  obtain ⟨φ, courses⟩ := course.courses t f hf
  have reached := courses.reached
  have counts : f.outcomes = φ.outcomes := reached.outcomes
  rw [aim] at reached
  obtain ⟨done, places⟩ := reached.serves_placeholder
  refine ⟨fun d hd u s s' takes => (done d hd).tables_kept takes, counts ▸ places.outcomes_eq,
    fun u s => places.not_waiting courses.follows u s, ?_⟩
  intro r rest
  obtain ⟨m, hr, hm, counted⟩ := places.gives_placeholder (courses.ends rest)
  exact ⟨m, hr, hm, run.placeholder idle hf hm, counts.trans counted⟩

end System

/-- The request is answered at once, with a descriptor of its own that has no key and cannot be
invoked. It is counted as degenerate, and nothing else changes. -/
def Program.GivesPlaceholderAt (t : ThreadId) (s : State) (e : Event) (p : Program MethodResult) :
    Prop :=
  ∃ d : Descriptor, d.key = none ∧ d.state = .complete ∧ d.entryPoint = .error .nestingTooDeep ∧
    s.store.get? s.store.next = none ∧ (s.store.allocate d).get? s.store.next = some d ∧
    p.advance t s = (.finished (.ok s.store.next), { s with
      cache.counters.degenerate := s.cache.counters.degenerate + 1
      store := s.store.allocate d
      events := s.events ++ [e] })

theorem Engine.get_givesPlaceholderAt {g : Engine} {h : KeyHandle}
    (deep : g.policy.maxNesting < h.key.depth) (copyKey : Bool) (t : ThreadId) (s : State) :
    (g.get h copyKey).GivesPlaceholderAt t s
      (.nestingLimitExceeded g.names h.key g.policy.maxNesting) := by
  have unused : s.store.get? s.store.next = none := by simp [Store.get?, Store.next]
  refine ⟨.placeholder, rfl, rfl, rfl, unused, s.store.get?_allocate_next _, ?_⟩
  unfold get
  rw [if_pos (Policy.exceeds_iff.2 deep)]
  rfl

namespace System

/-- The nesting limit cannot be got round. -/
structure NestingLimited (g : Engine) (tr : List (ThreadId × Move)) (Y : System) : Prop where
  /-- What is limited is the length of the descents through the argument lists of a key. -/
  measured : ∀ (k : MethodKey) n, k.depth ≤ n ↔ ∀ ls, k.Descends ls → ls.length ≤ n
  /-- If every request looks at the limit, all keys are within it. -/
  within : (∀ c ∈ calls tr, c.IsLimited) → Y.KeysWithin g.policy.maxNesting
  /-- A request for a key beyond the limit is answered with a placeholder, even if there is an
  instance of the key, and even if the key is not valid. -/
  answered : ∀ h : KeyHandle, g.policy.maxNesting < h.key.depth → ∀ copyKey t,
    (g.get h copyKey).GivesPlaceholderAt t Y.state
      (.nestingLimitExceeded g.names h.key g.policy.maxNesting)
  /-- So it is if others go on meanwhile. -/
  answered_among_others : ∀ t, ∀ f ∈ Y.stackOf t, ∀ h copyKey, f.call = .get h copyKey →
    g.policy.maxNesting < h.key.depth → Y.AnswersWithPlaceholder f

/-- In every run of any threads, whatever the collaborators answer and request, and also if
instances are forgotten at any time. -/
theorem Run.nesting_limited {g : Engine} {X Y : System} {tr : List (ThreadId × Move)}
    (run : Run g (fun _ _ _ => True) X tr Y) (fresh : X.state.IsFresh)
    (idle : ∀ u, X.stackOf u = []) : NestingLimited g tr Y where
  measured k n := k.depth_le_iff
  within limited :=
    (run.course (fun _ _ m _ => Contract.any_admits m) fresh idle).keys_within limited
  answered h deep copyKey t := Engine.get_givesPlaceholderAt deep copyKey t Y.state
  answered_among_others t f hf h copyKey hc deep := by
    refine run.answers_with_placeholder fresh idle hf ?_
    rw [hc]
    exact if_pos (Policy.exceeds_iff.2 deep)

end System

namespace Sample

/-- At most one level of instantiation. -/
def shallow : Engine where
  policy := { maxNesting := 1 }

/-- Cells in cells, so many levels of them. -/
def tower : Nat → RuntimeClass
  | 0 => .definition cell
  | n + 1 => .realized n (.definition cell) (.cons (.named (tower n)) .nil)

/-- The class has a tower as its argument. -/
def towerKey (n : Nat) (m : MethodDef) : MethodKey where
  definition := m
  context := ⟨some (.cons (.named (tower n)) .nil), none⟩

/-- While an instance is built, a deeper one is requested by name and through a slot; another
thread requests it, too. -/
def deepening : List (ThreadId × Cue) :=
  ((.call (.get ⟨0, key read⟩ false) :: goOn 6 ++ .call (.get ⟨1, towerKey 1 read⟩ true) ::
    goOn 4 ++ .call (.virtualTarget (.descriptor (.ofKey ⟨2, towerKey 1 write⟩))
      (.ofKey ⟨3, key read⟩)) :: goOn 18).map fun q => (0, q)) ++
    (.call (.get ⟨4, towerKey 1 read⟩ false) :: goOn 4).map fun q => (1, q)

end Sample

/-- A limit of one level, which three requests exceed. -/
theorem System.Run.nesting_limited_deepening :
    ∃ R, replay Sample.shallow .plain Sample.deepening ([], {state := {}}) = some R ∧
      R.2.state.cache.methods.find? (Sample.key Sample.read) = some ⟨0⟩ ∧
      R.2.state.cache.counters.degenerate = 3 ∧ (∀ c ∈ calls R.1, c.IsLimited) ∧
      NestingLimited Sample.shallow R.1 R.2 := by
  have facts : (replay Sample.shallow .plain Sample.deepening ([], {state := {}})).map
      (fun R : List (ThreadId × Move) × System =>
        (R.2.state.cache.methods.find? (Sample.key Sample.read),
          R.2.state.cache.counters.degenerate, decide (∀ c ∈ calls R.1, c.IsLimited))) =
        some (some ⟨0⟩, 3, true) := by
    decide +kernel
  obtain ⟨R, hR, hf⟩ := Option.map_eq_some_iff.1 facts
  obtain ⟨found, hf⟩ := Prod.mk.inj hf
  obtain ⟨counted, limited⟩ := Prod.mk.inj hf
  have run : Run Sample.shallow (fun _ _ _ => True) {state := {}} R.1 R.2 :=
    replay_run (fun _ _ _ _ => trivial) .nil hR
  exact ⟨R, hR, found, counted, of_decide_eq_true limited,
    run.nesting_limited ⟨rfl, rfl⟩ fun _ => rfl⟩

end Monomorph
