import Monomorph.Proofs.Replay
import Monomorph.Proofs.Twins

/-!
A cache that has forgotten its instances is as good as a new one. From there on, its runs and the
runs of a new cache are twins: they give results that correspond one to one, where the one counts on
from what it has counted before. Nothing that it has given before comes back, and all of that stays
as it is. Main statement: `System.Run.reset_acts_as_new`.
-/

namespace Monomorph

open Phase

/-! ## What requests give has been allocated -/

/-- The descriptor that the action finds or allocates. -/
def AnsweredAction.gives? : AnsweredAction → Option MethodId
  | ⟨.findMethod _, x⟩ => x
  | ⟨.findPending _, x⟩ => x
  | ⟨.allocate _, m⟩ => some m
  | _ => none

/-- The descriptor that a request ends with. -/
def Verdict.method? : Verdict → Option MethodId
  | cached _ _ m => some m
  | pending _ m => some m
  | placeholder m => some m
  | unresolved _ _ => none
  | refused _ _ => none

/-- The descriptor that a request in this phase deals with. -/
def Phase.method? : Phase → Option MethodId
  | hit _ m => some m
  | rehit _ m => some m
  | guarded _ m => some m
  | closing v => v.method?
  | closed v => v.method?
  | φ => φ.attempt?.map (·.method)

section Phases

variable {K : Contract} {g : Engine} {a : Aim} {ds : List AnsweredAction} {d : AnsweredAction}
  {φ φ' : Phase}
  {m : MethodId}

theorem Phase.Step.method? (h : φ.Step K g d φ') (hm : φ'.method? = some m) :
    d.gives? = some m ∨ φ.method? = some m := by
  cases h <;> first | exact .inl hm | exact .inr hm

/-- A request has found or allocated what it deals with. -/
theorem Phase.Reached.exists_gives (h : Reached K g a ds φ) (hm : φ.method? = some m) :
    ∃ d ∈ ds, d.gives? = some m := by
  induction h with
  | asked => cases hm
  | step _ step ih =>
    rcases step.method? hm with hd | hm
    · exact ⟨_, List.mem_cons_self, hd⟩
    · obtain ⟨d, hd, gives⟩ := ih hm
      exact ⟨d, List.mem_cons_of_mem _ hd, gives⟩

theorem Phase.Ends.method? {m : MethodId} (h : φ.Ends g (.ok m)) : φ.method? = some m := by
  generalize hr : Except.ok m = r at h
  cases h with
  | closed v => cases v <;> cases hr <;> rfl
  | _ => cases hr

/-- What a request enters into a table is what it deals with. -/
theorem Phase.Step.method?_of_adds {k : MethodKey} (h : φ.Step K g d φ')
    (hd : d = ⟨.addMethod k m, ()⟩ ∨ d = ⟨.addPending k m, ()⟩) : φ.method? = some m := by
  cases h with
  | insert | claim =>
    obtain ⟨-, rfl⟩ : _ = k ∧ _ = m := by simpa using hd
    rfl
  | _ => simp at hd

end Phases

theorem Store.Extends.exists_get? {p : MethodId → Prop} {s s' : Store} {m : MethodId}
    (h : s.Extends p s') (hm : ∃ d, s.get? m = some d) : ∃ d, s'.get? m = some d := by
  obtain ⟨d, hd⟩ := hm
  rcases h m d hd with hd' | ⟨-, -, r, hd'⟩
  · exact ⟨_, hd'⟩
  · exact ⟨_, hd'⟩

namespace System

variable {g : Engine} {ok : System → ThreadId → Move → Prop} {X Y Z : System}
  {tr : List (ThreadId × Move)} {t : ThreadId} {m : Move} {n : MethodId}

/-- What is in the tables and what requests have come across has been allocated. -/
structure Allocated (tr : List (ThreadId × Move)) (Y : System) : Prop where
  tables : ∀ k n, Y.state.cache.methods.find? k = some n ∨
    Y.state.cache.pending.find? k = some n → ∃ d, Y.state.store.get? n = some d
  given : ∀ t d n, (t, .act d) ∈ tr → d.gives? = some n → ∃ d, Y.state.store.get? n = some d

/-- What a request deals with has been allocated. -/
theorem Allocated.of_method? (h : Allocated tr Y) (course : Y.Course .any g tr) {f : Activity}
    {φ : Phase} (hf : f ∈ Y.stackOf t) (courses : f.Courses .any g φ) (hn : φ.method? = some n) :
    ∃ d, Y.state.store.get? n = some d := by
  obtain ⟨d, hd, gives⟩ := courses.reached.exists_gives hn
  obtain ⟨u, hu⟩ := course.done t f hf d hd
  exact h.given u d n hu gives

theorem Allocated.step (h : Allocated tr Y) (course : Y.Course .any g tr)
    (move : Step g Y t m Z) : Allocated ((t, m) :: tr) Z := by
  have store := move.own.store_extends_any
  constructor
  · intro k n hn
    refine store.exists_get? ?_
    rcases move.own.find?_cases with ⟨d, -, f, hf, next, rest, takes⟩ | kept
    · obtain ⟨φ, courses⟩ := course.courses t f hf
      obtain ⟨φ', step, -⟩ := courses.step rest takes
      rcases hn with hn | hn
      · rcases takes.methods_find? hn with hn | hd
        · exact h.tables k n (.inl hn)
        · exact h.of_method? course hf courses (step.method?_of_adds (.inl hd))
      · rcases takes.pending_find? hn with hn | hd
        · exact h.tables k n (.inr hn)
        · exact h.of_method? course hf courses (step.method?_of_adds (.inr hd))
    · exact h.tables k n (hn.imp (kept k n).1 (kept k n).2)
  · intro u d n hd gives
    rcases List.mem_cons.1 hd with hd | hd
    · cases hd
      obtain ⟨f, next, hf, rest, takes⟩ := move.own.act_cases
      obtain ⟨a, x⟩ := d
      cases a with
      | findMethod k =>
        have found : x = Y.state.cache.methods.find? k := takes.response_eq
        exact store.exists_get? (h.tables k n (.inl (found ▸ gives)))
      | findPending k =>
        have found : x = Y.state.cache.pending.find? k := takes.response_eq
        exact store.exists_get? (h.tables k n (.inr (found ▸ gives)))
      | allocate d =>
        have place : x = Y.state.store.next := takes.response_eq
        obtain rfl : x = n := Option.some.inj gives
        rw [show Z.state = _ from takes.state_eq, place]
        exact ⟨d, Y.state.store.get?_allocate_next d⟩
      | _ => cases gives
    · exact store.exists_get? (h.given u d n hd gives)

theorem Run.allocated (run : Run g ok X tr Y) (fresh : X.state.IsFresh)
    (idle : ∀ u, X.stackOf u = []) : Allocated tr Y := by
  induction run with
  | nil =>
    refine ⟨?_, by simp⟩
    rintro k n (hn | hn)
    · rw [fresh.methods] at hn
      cases hn
    · rw [fresh.pending] at hn
      cases hn
  | step run _ move ih =>
    exact ih.step (run.course_any fresh idle) move

end System

/-- What a run has given has been allocated. -/
theorem System.Run.exists_of_finish {g : Engine} {ok : System → ThreadId → Move → Prop}
    {X Y : System} {tr : List (ThreadId × Move)} (run : System.Run g ok X tr Y)
    (fresh : X.state.IsFresh) (idle : ∀ u, X.stackOf u = []) {u : ThreadId} {f : Activity}
    {n : MethodId} (hf : (u, Move.finish f (.ok n)) ∈ tr) :
    ∃ d, Y.state.store.get? n = some d := by
  induction run with
  | nil => cases hf
  | @step tr Y Z t m run _ move ih =>
    refine move.own.store_extends_any.exists_get? ?_
    rcases List.mem_cons.1 hf with hf | hf
    · cases hf
      have course := run.course_any fresh idle
      obtain ⟨hf, rest⟩ := move.own.finish_cases
      obtain ⟨φ, courses⟩ := course.courses u f hf
      exact (run.allocated fresh idle).of_method? course hf courses (courses.ends rest).method?
    · exact ih hf

/-! ## What is not compared stays as it is -/

namespace Session

variable {g : Engine} {t : ThreadId} {X Y : Session} {m : Move}

/-- A descriptor is completed by a request that publishes it, or by code outside the cache. -/
theorem Step.store_extends_published (h : Step g t X m Y) :
    X.state.store.Extends (fun n => ∃ r, m = .act ⟨.publish n r, .ok ()⟩ ∨
      m = .outside (.publish n r)) Y.state.store := by
  rcases h.state_cases with ⟨d, rfl, f, -, next, -, takes⟩ | ⟨a, rfl, outside, hs⟩ | ⟨hs, -⟩
  · exact takes.store_extends.mono fun n ⟨r, hd⟩ => ⟨r, .inl (by rw [hd])⟩
  · rw [hs]
    exact (Action.quiet_of_isOutside outside fun n r ha => ⟨r, .inr (by rw [ha])⟩).store
  · rw [hs]
    exact .refl _ _

end Session

namespace Twins

variable {g : Engine} {t : ThreadId} {M N : Mark} {A A' Y Y' : Session} {tr tr' : List Move}
  {n : MethodId}

/-- No request completes a descriptor that is not compared. -/
theorem not_published (h : Twins g t M N A A' tr Y tr' Y') (start : A.Like M N A')
    (hn : n.index < M.size) (r : Realization) (x : Except Error Unit) :
    Move.act ⟨.publish n r, x⟩ ∉ tr := by
  induction h with
  | nil => exact List.not_mem_nil
  | both twins move move' same ih =>
    have like := ((twins.like start).step_both move move' same).2
    intro hm
    rcases List.mem_cons.1 hm with rfl | hm
    · cases like with
      | act h =>
        cases h with
        | publish hn' => exact absurd hn'.1 (Nat.not_le.2 hn)
    · exact ih hm
  | left _ _ silent ih =>
    intro hm
    rcases List.mem_cons.1 hm with rfl | hm
    · cases silent
    · exact ih hm
  | right _ _ _ ih => exact ih

/-- A descriptor that is not compared stays as it is, unless it is pending and code outside the
cache completes it. -/
theorem get?_kept (h : Twins g t M N A A' tr Y tr' Y') (start : A.Like M N A')
    (hn : n.index < M.size) {d : Descriptor} (hd : A.state.store.get? n = some d) :
    Y.state.store.get? n = some d ∨ d.realization = none ∧
      (∃ r, Move.outside (.publish n r) ∈ tr) ∧
        ∃ r, Y.state.store.get? n = some { d with realization := some r } := by
  -- Requests complete nothing that is not compared, so this is about one of the runs alone.
  have unpublished := h.not_published start hn
  have run := h.run
  clear h
  induction run with
  | nil => exact .inl hd
  | @step tr Y Z m run _ move ih =>
    have store := move.store_extends_published
    rcases ih fun r x hx => unpublished r x (List.mem_cons_of_mem _ hx) with
      kept | ⟨pending, ⟨r, published⟩, r', complete⟩
    · rcases store n d kept with kept | ⟨⟨r, rfl | rfl⟩, pending, complete⟩
      · exact .inl kept
      · exact absurd List.mem_cons_self (unpublished r _)
      · exact .inr ⟨pending, ⟨r, List.mem_cons_self⟩, complete⟩
    · exact .inr ⟨pending, ⟨r, List.mem_cons_of_mem _ published⟩, r', store.complete complete rfl⟩

end Twins

/-! ## Two caches without instances -/

/-- All instances are forgotten. -/
def State.reset (s : State) : State := { s with cache := s.cache.reset }

theorem State.isFresh_reset (s : State) : s.reset.IsFresh := ⟨rfl, rfl⟩

theorem Store.index_lt_of_get? {s : Store} {n : MethodId} {d : Descriptor}
    (h : s.get? n = some d) : n.index < s.descriptors.size :=
  (Array.getElem?_eq_some_iff.1 h).1

/-- Two caches without instances are alike from now on. -/
theorem State.IsFresh.like {s s' : State} (h : s.IsFresh) (h' : s'.IsFresh)
    (lock : s.lock = s'.lock) : s.Like s.mark s'.mark s' where
  methods := by
    rw [h.methods, h'.methods]
    exact .nil
  pending := by
    rw [h.pending, h'.pending]
    exact .nil
  counters := ⟨{}, rfl, rfl⟩
  store := {
    next := ⟨Nat.le_refl _, Nat.add_comm _ _⟩
    get? := by
      intro m n hm
      have unused : s.store.get? m = none := Array.getElem?_eq_none hm.1
      have unused' : s'.store.get? n = none := Array.getElem?_eq_none hm.symm.1
      rw [unused, unused']
      exact .none }
  lock := lock
  events := ⟨[], (List.append_nil _).symm, (List.append_nil _).symm⟩

theorem MethodResult.Like.leftUnique (M N : Mark) : Relator.LeftUnique (MethodResult.Like M N) := by
  intro r r' z h h'
  cases h with
  | ok h =>
    cases h' with
    | ok h' => exact congrArg Except.ok ((h.eq_iff h').2 rfl)
  | error =>
    cases h' with
    | error => rfl

/-- Results correspond one to one. -/
theorem MethodResult.Like.biUnique (M N : Mark) : Relator.BiUnique (MethodResult.Like M N) :=
  ⟨leftUnique M N, fun _ _ _ h h' => leftUnique N M h.symm h'.symm⟩

/-- What a run with a twin gives is compared. -/
theorem Twins.le_of_mem_results {g : Engine} {t : ThreadId} {M N : Mark} {A A' Y Y' : Session}
    {tr tr' : List Move} {n : MethodId} (h : Twins g t M N A A' tr Y tr' Y') (start : A.Like M N A')
    (hn : .ok n ∈ Monomorph.results tr) : M.size ≤ n.index := by
  have each : List.Forall₂ (fun r r' => (∀ n, r = .ok n → M.size ≤ n.index) ∧
      MethodResult.Like M N r r') (Monomorph.results tr) (Monomorph.results tr') := by
    refine (h.results start).imp fun r r' like => ⟨?_, like⟩
    rintro n rfl
    cases like with
    | ok hm => exact hm.1
  exact ((List.forall₂_and_left _ _).1 each).1 _ hn n rfl

theorem rewritten_id (cs : List Call) : rewritten (fun _ c => c) cs = cs := by
  induction cs with
  | nil => rfl
  | cons c cs ih => exact congrArg (List.cons c) ih

/-! ## After a reset -/

/-- What two runs that start at `M` and `N` have in common. -/
structure Session.KeepsUp (M N : Mark) (tr : List Move) (Y : Session) (tr' : List Move)
    (Y' : Session) : Prop where
  moves : List.Forall₂ (Move.Like M N) (visible M tr) (visible N tr')
  results : List.Forall₂ (MethodResult.Like M N) (results tr) (results tr')
  like : Y.Like M N Y'
  counters : Y.state.cache.counters = M.counters.add Y'.state.cache.counters
  methods_size : Y.state.cache.methods.size = Y'.state.cache.methods.size
  pending_size : Y.state.cache.pending.size = Y'.state.cache.pending.size

namespace System

/-- After a reset of `Z`, the thread `t` finds the cache as good as a new one, in the state `s'`. -/
structure ResetAsNew (g : Engine) (t : ThreadId) (tr₀ : List (ThreadId × Move)) (Z : System)
    (s' : State) : Prop where
  forgets : Session.Step g t (Z.session t) .reset ⟨Z.state.reset, []⟩
  /-- To any run after the reset there is one of the new cache, with the same requests and the same
  answers of collaborators, -/
  follows : ∀ tr Y, Session.Run g t (fun _ _ => True) ⟨Z.state.reset, []⟩ tr Y → ∃ tr' Y',
    Twins g t Z.state.mark s'.mark ⟨Z.state.reset, []⟩ ⟨s', []⟩ tr Y tr' Y' ∧
      requested tr' = requested tr
  /-- and the other way round. -/
  leads : ∀ tr' Y', Session.Run g t (fun _ _ => True) ⟨s', []⟩ tr' Y' → ∃ tr Y,
    Twins g t Z.state.mark s'.mark ⟨Z.state.reset, []⟩ ⟨s', []⟩ tr Y tr' Y' ∧
      requested tr = requested tr'
  /-- All such runs give the same at each step, and the counters go on from those of `Z`. -/
  keeps_up : ∀ tr Y tr' Y',
    Twins g t Z.state.mark s'.mark ⟨Z.state.reset, []⟩ ⟨s', []⟩ tr Y tr' Y' →
      Session.KeepsUp Z.state.mark s'.mark tr Y tr' Y'
  one_to_one : Relator.BiUnique (MethodResult.Like Z.state.mark s'.mark)
  /-- No descriptor that was given before the reset is given after it. -/
  anew : ∀ tr Y, Session.Run g t (fun _ _ => True) ⟨Z.state.reset, []⟩ tr Y →
    ∀ n, .ok n ∈ results tr → ∀ u f, (u, .finish f (.ok n)) ∉ tr₀
  /-- The descriptors from before stay as they are. Only code outside the cache may complete one
  that was left pending. -/
  kept : ∀ tr Y, Session.Run g t (fun _ _ => True) ⟨Z.state.reset, []⟩ tr Y →
    ∀ n d, Z.state.store.get? n = some d →
      Y.state.store.get? n = some d ∨ d.realization = none ∧
        (∃ r, Move.outside (.publish n r) ∈ tr) ∧
          ∃ r, Y.state.store.get? n = some { d with realization := some r }

/-- Whatever any threads have done before, in any interleaving. -/
theorem Run.reset_acts_as_new {g : Engine} {X Z : System} {tr₀ : List (ThreadId × Move)}
    (run : Run g (fun _ _ _ => True) X tr₀ Z) (fresh : X.state.IsFresh)
    (idle : ∀ u, X.stackOf u = []) (done : ∀ u, Z.stackOf u = []) (t : ThreadId) (s' : State)
    (new : s'.cache = {}) (lock : s'.lock = Z.state.lock) : ResetAsNew g t tr₀ Z s' := by
  have fresh' : s'.IsFresh := ⟨by rw [new], by rw [new]⟩
  have start : Session.Like Z.state.mark s'.mark ⟨Z.state.reset, []⟩ ⟨s', []⟩ :=
    ⟨Z.state.isFresh_reset.like fresh' lock.symm, .nil⟩
  have follows : ∀ tr Y, Session.Run g t (fun _ _ => True) ⟨Z.state.reset, []⟩ tr Y → ∃ tr' Y',
      Twins g t Z.state.mark s'.mark ⟨Z.state.reset, []⟩ ⟨s', []⟩ tr Y tr' Y' ∧
        requested tr' = requested tr := by
    intro tr Y later
    obtain ⟨tr', Y', twins, same⟩ := later.exists_twin start fun _ c => Call.Like.refl c
    exact ⟨tr', Y', twins, same.trans (rewritten_id _)⟩
  refine ⟨?_, follows, ?_, ?_, MethodResult.Like.biUnique _ _, ?_, ?_⟩
  · rw [session, done t]
    exact .reset trivial
  · intro tr' Y' later
    obtain ⟨tr, Y, twins, same⟩ := later.exists_twin start.symm fun _ c => Call.Like.refl c
    exact ⟨tr, Y, twins.symm, same.trans (rewritten_id _)⟩
  · intro tr Y tr' Y' twins
    have like := twins.like start
    obtain ⟨c, hc, hc'⟩ := like.state.counters
    have zero : s'.mark.counters = {} := congrArg Cache.counters new
    rw [zero, Counters.zero_add] at hc'
    exact ⟨twins.moves start, twins.results start, like, hc' ▸ hc, like.state.methods.size_eq,
      like.state.pending.size_eq⟩
  · intro tr Y later n hn u f hf
    obtain ⟨tr', Y', twins, -⟩ := follows tr Y later
    obtain ⟨d, hd⟩ := run.exists_of_finish fresh idle hf
    -- What has been given is in the store of `Z`, and what is compared comes after that store.
    exact absurd (Store.index_lt_of_get? hd) (Nat.not_lt.2 (twins.le_of_mem_results start hn))
  · intro tr Y later n d hd
    obtain ⟨tr', Y', twins, -⟩ := follows tr Y later
    exact twins.get?_kept start (Store.index_lt_of_get? hd) hd

/-- One instance has been built, and it has been asked for meanwhile. -/
theorem Run.reset_acts_as_new_reentrant :
    ∃ R, Session.replay {} 0 .plain Sample.reentrant ([], ⟨{}, []⟩) = some R ∧
      R.2.state.cache.methods.size = 1 ∧ R.2.state.cache.counters.recursionHits = 1 ∧
      ResetAsNew {} 0 (R.1.map fun m => (0, m)) (R.2.alone 0) { lock := R.2.state.lock } := by
  have facts : (Session.replay {} 0 .plain Sample.reentrant ([], ⟨{}, []⟩)).map
      (fun R => (R.2.stack.length, R.2.state.cache.methods.size,
        R.2.state.cache.counters.recursionHits)) = some (0, 1, 1) := by
    decide +kernel
  obtain ⟨R, hR, hf⟩ := Option.map_eq_some_iff.1 facts
  obtain ⟨len, size, hits⟩ : _ ∧ _ ∧ _ := by simpa only [Prod.mk.injEq] using hf
  have run : Session.Run {} 0 (fun _ _ => True) ⟨{}, []⟩ R.1 R.2 :=
    Session.replay_run (fun _ _ _ => trivial) .nil hR
  have done : ∀ u, (R.2.alone 0).stackOf u = [] := by
    intro u
    simp [Session.alone, List.eq_nil_of_length_eq_zero len]
  refine ⟨R, hR, size, hits, ?_⟩
  exact (run.alone.mono fun _ _ _ _ => trivial).reset_acts_as_new ⟨rfl, rfl⟩
    (by simp [Session.alone])
    done 0 _ rfl rfl

end System

end Monomorph
