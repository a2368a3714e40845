import Monomorph.Proofs.Insertion
import Monomorph.Proofs.Ownership
import Monomorph.Proofs.Replay

/-!
One descriptor per key. Main statement: `Session.Run.one_descriptor_per_key`, for every run of one
thread in which no instance is forgotten. Collaborators may make any requests while they are at
work, to any depth, and constructions may fail and be begun again.
-/

namespace Monomorph

/-! ## Requests for a complete instance -/

namespace Program

theorem advance_perform {α : Type} (t : ThreadId) (a : Action) (f : a.Response → Program α)
    (s : State) : (perform a >>= f).advance t s = (f (a.apply t s).1).advance t (a.apply t s).2 :=
  rfl

end Program

/-- The request is answered with `m` at once: no question is asked and no key is named. -/
def Program.AnswersAt (t : ThreadId) (s : State) (k : MethodKey) (m : MethodId)
    (p : Program MethodResult) : Prop :=
  ∃ s', p.advance t s = (.finished (.ok m), s') ∧
    s'.cache.methods = s.cache.methods ∧ s'.cache.pending = s.cache.pending ∧
    s'.store.descriptors = s.store.descriptors ∧
    s'.events = s.events ++ [.cacheHit k.definition.token]

variable {g : Engine} {t : ThreadId} {s : State} {k : MethodKey} {m : MethodId}

theorem Engine.request_answersAt {h : KeyHandle} (copyKey : Bool)
    (hk : s.cache.methods.find? h.key = some m) :
    (g.request (.instantiate h) copyKey).AnswersAt t s h.key m := by
  have answer : (g.request (.instantiate h) copyKey).advance t s =
      (.finished (.ok m), { s with
        cache.counters := s.cache.counters.record .fastHit
        events := s.events ++ [.cacheHit h.key.definition.token] }) := by
    refine (Program.advance_perform t (.findMethod h.key) _ s).trans ?_
    simp only [Action.apply, hk]
    rfl
  exact ⟨_, answer, rfl, rfl, rfl, rfl⟩

theorem Engine.get_eq {h : KeyHandle} (copyKey : Bool) (aim : g.aimAt h.key = .key k) :
    h.key = k ∧ g.get h copyKey = g.request (.instantiate h) copyKey := by
  unfold aimAt at aim
  split at aim
  · cases aim
  · next deep =>
    cases aim
    exact ⟨rfl, if_neg deep⟩

/-- A call that is after a key comes to a request for it, at most after it has copied the key. -/
theorem Call.advance_eq {c : Call} (aim : c.aim g = .key k) (t : ThreadId) (s : State) :
    ∃ h copyKey n, h.key = k ∧ (c.program g).advance t s =
      (g.request (.instantiate h) copyKey).advance t { s with store.nextKey := n } := by
  cases c with
  | get h copyKey =>
    obtain ⟨hk, program⟩ := Engine.get_eq copyKey aim
    exact ⟨h, copyKey, s.store.nextKey, hk, congrArg (·.advance t s) program⟩
  | request r copyKey =>
    cases r with
    | instantiate h =>
      cases aim
      exact ⟨h, copyKey, s.store.nextKey, rfl, rfl⟩
    | tooDeeplyNested => cases aim
  | virtualTarget v called =>
    simp only [Call.aim] at aim
    simp only [program, Engine.virtualTarget]
    cases hv : virtualKey v called with
    | error e => simp [hv] at aim
    | ok l =>
      simp only [hv] at aim
      rw [Program.advance_perform]
      obtain ⟨hk, program⟩ := Engine.get_eq (h := (s.store.copyKey l).1) false aim
      refine ⟨_, false, s.store.nextKey + 1, hk, ?_⟩
      exact congrArg (Program.advance t · (Action.apply t s (.copyKey l)).2) program

/-- Every request for a key with a complete instance is answered with it at once. -/
theorem Call.answersAt {c : Call} (aim : c.aim g = .key k)
    (hk : s.cache.methods.find? k = some m) : (c.program g).AnswersAt t s k m := by
  obtain ⟨h, copyKey, n, rfl, advance⟩ := c.advance_eq aim t s
  unfold Program.AnswersAt
  rw [advance]
  exact Engine.request_answersAt copyKey hk

/-! ## What has been completed -/

namespace Session

variable {K : Contract} {X Y : Session} {φs : List Phase} {tr : List Move} {mv : Move}
  {r : Realization}

theorem NoReset.resetsIdle {m : Move} (h : NoReset X m) : ResetsIdle X m := by
  cases m with
  | reset => exact absurd rfl h
  | _ => trivial

/-- What has been completed is inserted, or will be by the next action. -/
def InsertsCompleted (X : Session) (m : MethodId) (r : Realization) : Prop :=
  ∃ h, X.state.store.get? m = some (.describing h (some r)) ∧
    (X.state.cache.methods.find? h.key = some m ∨
      ∃ f st next, X.stack = f :: st ∧ f.rest = .act (.addMethod h.key m) next)

/-- What is to be inserted next is inserted. -/
theorem Step.find?_of_addMethod (h : Step g t X mv Y) {f : Activity} {st : List Activity}
    {next : Unit → Program MethodResult} (hX : X.stack = f :: st)
    (rest : f.rest = .act (.addMethod k m) next) : Y.state.cache.methods.find? k = some m := by
  cases h with
  | request | hold | unhold => cases hX
  | nest c calling =>
    cases hX
    rw [rest] at calling
    cases calling
  | outside turn | reset turn =>
    cases hX
    have calling : f.rest.isCalling = true := turn
    rw [rest] at calling
    cases calling
  | answer rest' | finish rest' =>
    cases hX
    rw [rest] at rest'
    cases rest'
  | @act s s' f' st' d next' rest' takes =>
    cases hX
    rw [rest] at rest'
    obtain ⟨a, x⟩ := d
    cases rest'
    rw [takes.state_eq]
    exact Table.find?_insert_self _ _ _

theorem InsertsCompleted.step (hs : X.InsertsCompleted m r) (h : Step g t X mv Y)
    (stands : Stands K g X.state X.stack φs) (hm : mv ≠ .reset) : Y.InsertsCompleted m r := by
  obtain ⟨l, hd, hl⟩ := hs
  refine ⟨l, (h.store_extends stands).complete hd rfl, .inl ?_⟩
  rcases hl with hl | ⟨f, st, next, hX, rest⟩
  · exact h.find?_of_some stands hm hl
  · exact h.find?_of_addMethod hX rest

theorem Step.inserts_completed (h : Step g t X (.act ⟨.publish m r, .ok ()⟩) Y)
    (sound : X.Sound K g φs) :
    Y.InsertsCompleted m r := by
  have pending := sound.pending
  cases h with
  | act rest takes =>
    obtain ⟨φ, φs, rfl, serves, -⟩ := sound.stands.exists_serves rfl
    obtain ⟨φ', step, follows⟩ := serves.step rest takes
    rw [Phase.constructions_cons] at pending
    have holds := step.holds takes serves.holds fun _ => pending
    cases step with
    | publish =>
      obtain ⟨next, hr⟩ := follows.of_published
      exact ⟨_, holds.2, .inr ⟨_, _, next, rfl, hr⟩⟩

theorem Run.inserts_completed (run : Run g t NoReset X tr Y) (fresh : X.state.IsFresh)
    (idle : X.stack = [])
    (hm : .act ⟨.publish m r, .ok ()⟩ ∈ tr) : Y.InsertsCompleted m r := by
  induction run with
  | nil => cases hm
  | step run allowed move ih =>
    obtain ⟨P, h⟩ :=
      (run.mono fun _ _ h => NoReset.resetsIdle h).consistent_any fresh idle
    rcases List.mem_cons.1 hm with rfl | hm
    · exact move.inserts_completed h.sound
    · exact (ih hm).step move h.sound.stands allowed

/-- Two descriptors that have been completed for one key are the same. -/
theorem InsertsCompleted.method_eq {m' : MethodId} {r' : Realization} (hs : X.InsertsCompleted m r)
    (hs' : X.InsertsCompleted m' r') (sound : X.Sound K g φs) {h h' : KeyHandle}
    (hm : X.state.store.get? m = some (.describing h (some r)))
    (hm' : X.state.store.get? m' = some (.describing h' (some r'))) (hk : h.key = h'.key) :
    m = m' := by
  obtain ⟨l, hd, hl⟩ := hs
  obtain ⟨l', hd', hl'⟩ := hs'
  obtain rfl : h = l := Descriptor.eq_of_describing (Option.some.inj (hm.symm.trans hd))
  obtain rfl : h' = l' := Descriptor.eq_of_describing (Option.some.inj (hm'.symm.trans hd'))
  rw [← hk] at hl'
  rcases hl with found | ⟨f, st, next, hX, rest⟩
  · rcases hl' with found' | ⟨f, st, next, hX, rest⟩
    · rw [found] at found'
      exact Option.some.inj found'
    · rw [sound.missing_of_addMethod hX rest] at found
      cases found
  · rcases hl' with found' | ⟨f', st', next', hX', rest'⟩
    · rw [sound.missing_of_addMethod hX rest] at found'
      cases found'
    · rw [hX] at hX'
      cases hX'
      rw [rest] at rest'
      cases rest'
      rfl

/-- Whenever a collaborator is at work, what has been completed is inserted. -/
theorem InsertsCompleted.find?_of_isOpen (hs : X.InsertsCompleted m r) (turn : IsOpen X.stack) :
    ∃ h, X.state.store.get? m = some (.describing h (some r)) ∧
      X.state.cache.methods.find? h.key = some m := by
  obtain ⟨l, hd, hl | ⟨f, st, next, hX, rest⟩⟩ := hs
  · exact ⟨l, hd, hl⟩
  · rw [hX] at turn
    have calling : f.rest.isCalling = true := turn
    rw [rest] at calling
    cases calling

/-! ## The recursion guard -/

/-- The recursion guard gives what a waiting request has allocated. -/
theorem Sound.exists_allocates (h : X.Sound K g φs) {f : Activity} {st : List Activity}
    (hX : X.stack = f :: st) (rest : f.rest = .done (.ok m)) (aim : f.call.aim g = .key k)
    (recursive : f.isRecursive = true) :
    ∃ a ∈ st, ∃ c : Construction, c.entry = (k, m) ∧ c.AllocatedBy a.actions := by
  obtain ⟨φ, φs, -, serves, -, tail⟩ := h.stands.exists_serves hX
  obtain ⟨c, hc, he⟩ := serves.exists_entry rest aim recursive
  obtain ⟨a, ha, allocates⟩ := tail.exists_allocates hc
  exact ⟨a, ha, c, he, allocates⟩

/-- A request that succeeds gives what it has allocated. -/
theorem Sound.eq_of_allocates (h : X.Sound K g φs) {f : Activity} {st : List Activity}
    {c : Construction} (hX : X.stack = f :: st) (rest : f.rest = .done (.ok m))
    (allocates : c.AllocatedBy f.actions) :
    m = c.method ∧ X.state.cache.methods.find? c.key.key = some m := by
  obtain ⟨φ, φs, -, serves, -⟩ := h.stands.exists_serves hX
  exact serves.eq_of_allocates rest allocates

/-! ## Runs -/

/-- A key has one descriptor, whoever asks for it. -/
structure OneDescriptor (g : Engine) (t : ThreadId) (tr : List Move) (Y : Session) : Prop where
  inserted_once : ∀ k, tr.countP (Move.adds k) ≤ 1
  /-- Constructions complete at most one descriptor of a key. -/
  completed_once : ∀ m r m' r' h h', .act ⟨.publish m r, .ok ()⟩ ∈ tr →
    .act ⟨.publish m' r', .ok ()⟩ ∈ tr → Y.state.store.get? m = some (.describing h (some r)) →
    Y.state.store.get? m' = some (.describing h' (some r')) → h.key = h'.key → m = m'
  /-- Whenever a collaborator is at work, all that a construction has completed is inserted. -/
  published : IsOpen Y.stack → ∀ m r, .act ⟨.publish m r, .ok ()⟩ ∈ tr →
    ∃ h, Y.state.store.get? m = some (.describing h (some r)) ∧
      Y.state.cache.methods.find? h.key = some m
  kept : ∀ k m, Y.state.cache.methods.find? k = some m → ∀ tr' Z, Run g t NoReset Y tr' Z →
    Z.state.cache.methods.find? k = some m
  /-- Later requests are answered with it, and call no collaborator. -/
  answered : ∀ k m, Y.state.cache.methods.find? k = some m → ∀ c : Call, c.aim g = .key k →
    (c.program g).AnswersAt t Y.state k m
  /-- The recursion guard gives the descriptor that a waiting request has allocated, which is the
  instance if this request succeeds. -/
  guarded : ∀ f st k m, Y.stack = f :: st → f.rest = .done (.ok m) → f.call.aim g = .key k →
    f.isRecursive = true → ∃ a ∈ st, ∃ c : Construction, c.entry = (k, m) ∧
      c.AllocatedBy a.actions ∧ ∀ tr' Z b st' n, Run g t NoReset Y tr' Z → Z.stack = b :: st' →
        b.rest = .done (.ok n) → c.AllocatedBy b.actions →
        n = m ∧ Z.state.cache.methods.find? k = some m

/-- In every run of one thread, a key has one descriptor. -/
theorem Run.one_descriptor_per_key (run : Run g t NoReset X tr Y) (fresh : X.state.IsFresh)
    (idle : X.stack = []) : OneDescriptor g t tr Y := by
  have start : Run g t ResetsIdle X [] X := .nil
  obtain ⟨P₀, h₀⟩ := start.consistent_any fresh idle
  obtain ⟨P, h⟩ := (run.mono fun _ _ h => NoReset.resetsIdle h).consistent_any fresh idle
  refine ⟨?_, ?_, ?_, ?_, fun k m hk c aim => Call.answersAt aim hk, ?_⟩
  · intro k
    have once := run.alone_noReset.countP_adds_le_one h₀ k
    rw [List.countP_map] at once
    exact once
  · intro m r m' r' l l' hr hr' hm hm' hk
    have first := run.inserts_completed fresh idle hr
    have second := run.inserts_completed fresh idle hr'
    exact first.method_eq second h.sound hm hm' hk
  · exact fun turn m r hr => (run.inserts_completed fresh idle hr).find?_of_isOpen turn
  · exact fun k m hk tr' Z run' => run'.alone_noReset.find?_of_some h hk
  · intro f st k m hY rest aim recursive
    obtain ⟨a, ha, c, he, allocates⟩ := h.sound.exists_allocates hY rest aim recursive
    refine ⟨a, ha, c, he, allocates, fun tr' Z b st' n run' hZ rest' allocates' => ?_⟩
    obtain ⟨P', h'⟩ := run'.alone_noReset.consistent_any h
    obtain ⟨rfl, hk⟩ := h'.sound.eq_of_allocates hZ rest' allocates'
    cases he
    exact ⟨rfl, hk⟩

/-- The instance of a key that its own construction asks for. -/
theorem Run.one_descriptor_per_key_reentrant :
    ∃ R, replay {} 0 .plain Sample.reentrant ([], ⟨{}, []⟩) = some R ∧
      R.2.state.cache.counters.recursionHits = 1 ∧
      R.2.state.cache.methods.find? (Sample.key Sample.read) = some ⟨0⟩ ∧
      OneDescriptor {} 0 R.1 R.2 := by
  have facts : (replay {} 0 .plain Sample.reentrant ([], ⟨{}, []⟩)).map (fun R =>
      (R.2.state.cache.counters.recursionHits,
        R.2.state.cache.methods.find? (Sample.key Sample.read))) = some (1, some ⟨0⟩) := by
    decide +kernel
  obtain ⟨R, hR, hf⟩ := Option.map_eq_some_iff.1 facts
  obtain ⟨hits, found⟩ := Prod.mk.inj hf
  have run : Run {} 0 NoReset ⟨{}, []⟩ R.1 R.2 :=
    replay_run (fun _ m hm hr => by subst hr; exact hm) .nil hR
  exact ⟨R, hR, hits, found, run.one_descriptor_per_key ⟨rfl, rfl⟩ rfl⟩

end Session

end Monomorph
