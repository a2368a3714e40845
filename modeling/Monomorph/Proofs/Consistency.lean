import Monomorph.Proofs.Standing

/-!
The invariant of a cache that is used by many threads. Every request on a stack is in a phase
(`Stands`), and the state is as the phases of all threads say (`Consistent`). That all runs keep it
is shown in `Preservation.lean`.
-/

namespace Monomorph

open Phase

/-! ## Requests -/

/-- The constructions of requests in these phases. -/
def Phase.constructions (φs : List Phase) : List Construction := φs.filterMap Phase.construction?

/-- How many of the requests in these phases hold the lock. -/
def Phase.lockCount (φs : List Phase) : Nat := φs.countP Phase.locks

/-- The request is in the phase `φ`, and the constructions `below` wait for it. -/
structure Activity.Serves (K : Contract) (g : Engine) (s : State) (below : List Construction)
    (f : Activity) (φ : Phase) : Prop where
  follows : f.rest.Follows K g (Phase.Ends g) φ
  reached : Phase.Reached K g (f.call.aim g) f.actions φ
  holds : φ.Holds K s below

namespace Activity.Serves

variable {K : Contract} {g : Engine} {s s' : State} {below : List Construction} {f : Activity}
  {φ : Phase}

/-- The next action of a request is a step of its phase. -/
theorem step (h : f.Serves K g s below φ) {d : AnsweredAction} {t : ThreadId}
    {next : d.action.Response → Program MethodResult} (rest : f.rest = .act d.action next)
    (takes : d.Takes t s s') :
    ∃ φ', φ.Step K g d φ' ∧ (next d.response).Follows K g (Phase.Ends g) φ' := by
  have follows := h.follows
  rw [rest] at follows
  exact follows d.response takes.canYield

theorem ends (h : f.Serves K g s below φ) {r : MethodResult} (rest : f.rest = .done r) :
    φ.Ends g r := by
  have follows := h.follows
  rw [rest] at follows
  exact follows

theorem aim_eq (h : f.Serves K g s below φ) : f.call.aim g = φ.aim := h.reached.aim_eq.symm

theorem outcomes_eq (h : f.Serves K g s below φ) : f.outcomes = φ.outcomes := h.reached.outcomes

theorem closed_of_ok (h : f.Serves K g s below φ) {m : MethodId} (rest : f.rest = .done (.ok m)) :
    (∃ o k, φ = .closed (.cached o k m)) ∨ (∃ k, φ = .closed (.pending k m)) ∨
      φ = .closed (.placeholder m) := by
  generalize hr : Except.ok m = r at rest
  cases h.ends rest with
  | closed v =>
    cases v with
    | cached o k n =>
      cases hr
      exact .inl ⟨o, k, rfl⟩
    | pending k n =>
      cases hr
      exact .inr (.inl ⟨k, rfl⟩)
    | placeholder n =>
      cases hr
      exact .inr (.inr rfl)
    | unresolved | refused => cases hr
  | invalid | error => cases hr

theorem isRecursive_of_pending (h : f.Serves K g s below φ) {k : MethodKey} {m : MethodId}
    (hφ : φ = .closed (.pending k m)) : f.isRecursive = true := by
  simp [isRecursive, h.outcomes_eq, hφ, Phase.outcomes, Verdict.outcomes]

theorem isRecursive_of_cached (h : f.Serves K g s below φ) {o : Outcome} {k : MethodKey}
    {m : MethodId} (hφ : φ = .closed (.cached o k m)) : f.isRecursive = false := by
  subst hφ
  rcases h.reached.warranted with rfl | rfl | ⟨κ, rfl⟩ <;>
    simp [isRecursive, h.outcomes_eq, Phase.outcomes, Verdict.outcomes]

theorem pending_of_isRecursive (h : f.Serves K g s below φ) {r : MethodResult}
    (rest : f.rest = .done r) (hf : f.isRecursive = true) :
    ∃ k m, φ = .closed (.pending k m) ∧ r = .ok m := by
  cases h.ends rest with
  | closed v =>
    cases v with
    | pending k m => exact ⟨k, m, rfl, rfl⟩
    | cached o k m =>
      rw [h.isRecursive_of_cached rfl] at hf
      cases hf
    | placeholder | unresolved | refused =>
      simp [isRecursive, h.outcomes_eq, Phase.outcomes, Verdict.outcomes] at hf
  | invalid | error => simp [isRecursive, h.outcomes_eq, Phase.outcomes] at hf

/-- A request that ends well gives the descriptor that it has allocated, if it has allocated one,
and that is the instance of its key then. -/
theorem eq_of_allocates (h : f.Serves K g s below φ) {c : Construction} {m : MethodId}
    (rest : f.rest = .done (.ok m)) (hc : c.AllocatedBy f.actions) :
    m = c.method ∧ s.cache.methods.find? c.key.key = some m := by
  have isOf := h.reached.isOf hc
  rcases h.closed_of_ok rest with ⟨o, l, rfl⟩ | ⟨l, rfl⟩ | rfl
  · obtain ⟨rfl, rfl⟩ := isOf
    exact ⟨rfl, h.holds⟩
  · cases isOf
  · cases isOf

/-- A request that was not answered by the recursion guard gives the instance of its key. -/
theorem find?_eq_some (h : f.Serves K g s below φ) {k : MethodKey} {m : MethodId}
    (rest : f.rest = .done (.ok m)) (aim : f.call.aim g = .key k) (hf : f.isRecursive = false) :
    s.cache.methods.find? k = some m := by
  rw [h.aim_eq] at aim
  rcases h.closed_of_ok rest with ⟨o, l, rfl⟩ | ⟨l, hφ⟩ | rfl
  · cases aim
    exact h.holds
  · rw [h.isRecursive_of_pending hφ] at hf
    cases hf
  · cases aim

/-- The recursion guard gives the descriptor of a construction that waits. -/
theorem exists_entry (h : f.Serves K g s below φ) {k : MethodKey} {m : MethodId}
    (rest : f.rest = .done (.ok m)) (aim : f.call.aim g = .key k) (hf : f.isRecursive = true) :
    ∃ c ∈ below, c.entry = (k, m) := by
  obtain ⟨l, n, rfl, hr⟩ := h.pending_of_isRecursive rest hf
  rw [h.aim_eq] at aim
  cases aim
  cases hr
  exact h.holds

/-- A request that waits is in the midst of a construction if it asks, and in none if it names a
key. -/
theorem construction?_eq (h : f.Serves K g s below φ) (calling : f.rest.isCalling = true) :
    f.construction? = φ.construction? := by
  unfold construction?
  rcases h.follows.of_isCalling calling with
    ⟨c, q, next, rfl, hr⟩ | ⟨rfl | ⟨c, e, rfl⟩, e', next, hr⟩
  · simp [hr, Phase.construction?]
  · simp [hr, Phase.construction?]
  · simp [hr, Phase.construction?]

end Activity.Serves

/-! ## Stacks -/

/-- The requests of a stack are in these phases, and all but the innermost wait for a
collaborator. -/
inductive Stands (K : Contract) (g : Engine) (s : State) : List Activity → List Phase → Prop where
  | nil : Stands K g s [] []
  | cons {f : Activity} {fs : List Activity} {φ : Phase} {φs : List Phase}
      (serves : f.Serves K g s (constructions φs) φ) (turn : IsOpen fs)
      (tail : Stands K g s fs φs) : Stands K g s (f :: fs) (φ :: φs)

section Stacks

variable {K : Contract} {g : Engine} {s s' : State} {f : Activity} {fs : List Activity} {φ : Phase}
  {φs : List Phase}

theorem Phase.lockCount_cons (φ : Phase) (φs : List Phase) :
    lockCount (φ :: φs) = lockCount φs + φ.locks.toNat := by
  cases h : φ.locks <;> simp [lockCount, h]

theorem Phase.constructions_cons (φ : Phase) (φs : List Phase) :
    constructions (φ :: φs) = φ.construction?.toList ++ constructions φs :=
  filterMap_cons_toList _ φ φs

/-- All construction is under the lock. -/
theorem Phase.constructions_eq_nil (h : lockCount φs = 0) : constructions φs = [] := by
  rw [constructions, List.filterMap_eq_nil_iff]
  intro φ hφ
  cases hc : φ.construction? with
  | none => rfl
  | some c => exact absurd (locks_of_construction? hc) (List.countP_eq_zero.1 h φ hφ)

namespace Stands

theorem eq_nil (h : Stands K g s fs φs) (hfs : fs = []) : φs = [] := by
  subst hfs
  cases h
  rfl

/-- The innermost request and its phase, and those that wait for it. -/
theorem exists_serves (h : Stands K g s fs φs) {st : List Activity} (hfs : fs = f :: st) :
    ∃ φ ψs, φs = φ :: ψs ∧ f.Serves K g s (constructions ψs) φ ∧ IsOpen st ∧
      Stands K g s st ψs := by
  subst hfs
  cases h with
  | cons serves turn tail => exact ⟨_, _, rfl, serves, turn, tail⟩

/-- The requests further down stand as well. -/
theorem suffix {above : List Activity} (h : Stands K g s (above ++ fs) φs) :
    ∃ ψs, Stands K g s fs ψs := by
  induction above generalizing φs with
  | nil => exact ⟨φs, h⟩
  | cons a above ih =>
    obtain ⟨-, ψs, -, -, -, tail⟩ := h.exists_serves rfl
    exact ih tail

theorem quiet (h : Stands K g s fs φs) (hq : s.Quiet (fun _ => K.mayPublish) s') :
    Stands K g s' fs φs := by
  induction h with
  | nil => exact .nil
  | cons serves turn _ ih =>
    exact .cons ⟨serves.follows, serves.reached, hq.phase_holds serves.holds⟩ turn ih

/-- Requests without the lock stand while a request with the lock goes on. -/
theorem of_insert {p : MethodId → Prop} (h : Stands K g s fs φs) (free : lockCount φs = 0)
    (methods : ∀ {k m}, s.cache.methods.find? k = some m → s'.cache.methods.find? k = some m)
    (store : s.store.Extends p s'.store) : Stands K g s' fs φs := by
  induction h with
  | nil => exact .nil
  | @cons f fs φ φs serves turn _ ih =>
    rw [lockCount_cons] at free
    have hφ : φ.locks = false := by
      cases h : φ.locks with
      | false => rfl
      | true => simp [h] at free
    refine .cons ⟨serves.follows, serves.reached, ?_⟩ turn (ih (by omega))
    exact serves.holds.of_insert hφ methods store

/-- Requests that wait stand as long as their constructions do. -/
theorem of_underWay (h : Stands K g s fs φs) (turn : IsOpen fs)
    (hc : ∀ c ∈ constructions φs, c.UnderWay K s → c.UnderWay K s') : Stands K g s' fs φs := by
  induction h with
  | nil => exact .nil
  | @cons f fs φ φs serves turn' _ ih =>
    refine .cons ⟨serves.follows, serves.reached, ?_⟩ turn' (ih turn' fun c hφ => hc c ?_)
    · rcases serves.follows.of_isCalling turn with
        ⟨c, -, -, rfl, -⟩ | ⟨rfl | ⟨c, e, rfl⟩, -⟩
      · exact hc c List.mem_cons_self serves.holds
      · trivial
      · trivial
    · rw [constructions_cons]
      exact List.mem_append_right _ hφ

theorem constructions_eq (h : Stands K g s fs φs) (turn : IsOpen fs) :
    fs.filterMap Activity.construction? = constructions φs := by
  induction h with
  | nil => rfl
  | @cons f fs φ φs serves turn' _ ih =>
    rw [List.filterMap_cons, serves.construction?_eq turn, ih turn', constructions_cons]
    cases φ.construction? <;> rfl

/-- The descriptor of a construction has been allocated by a request of the stack. -/
theorem exists_allocates (h : Stands K g s fs φs) {c : Construction}
    (hc : c ∈ constructions φs) : ∃ f ∈ fs, c.AllocatedBy f.actions := by
  induction h with
  | nil => cases hc
  | @cons f fs φ φs serves _ _ ih =>
    rw [constructions_cons] at hc
    rcases List.mem_append.1 hc with hc | hc
    · have hφ : φ.construction? = some c := by simpa using hc
      exact ⟨f, List.mem_cons_self, serves.reached.allocates (begun?_of_construction? hφ)⟩
    · obtain ⟨f', hf, ha⟩ := ih hc
      exact ⟨f', List.mem_cons_of_mem _ hf, ha⟩

/-- While a collaborator is at work, all constructions of the stack are under way. -/
theorem underWay (h : Stands K g s fs φs) (turn : IsOpen fs) {c : Construction}
    (hc : c ∈ constructions φs) : c.UnderWay K s := by
  induction h with
  | nil => cases hc
  | @cons f fs φ φs serves turn' _ ih =>
    rw [constructions_cons] at hc
    rcases serves.follows.of_isCalling turn with ⟨c', -, -, rfl, -⟩ | ⟨rfl | ⟨_, _, rfl⟩, -⟩
    · rcases List.mem_cons.1 hc with rfl | hc
      · exact serves.holds
      · exact ih turn' hc
    · exact ih turn' hc
    · exact ih turn' hc

end Stands

end Stacks

/-! ## The invariant -/

/-- `m` is a complete descriptor for the valid key `k`. -/
def Built (K : Contract) (g : Engine) (s : State) (k : MethodKey) (m : MethodId) : Prop :=
  g.validate k = .ok () ∧ ∃ h r, h.key = k ∧
    s.store.get? m = some (.describing h (some r)) ∧ K.builds ⟨h, m⟩ r

/-- The state agrees with the phases `P` of all requests. -/
structure Consistent (K : Contract) (g : Engine) (X : System) (P : ThreadId → List Phase) :
    Prop where
  stands : ∀ t, Stands K g X.state (X.stackOf t) (P t)
  lock : ∀ t, lockCount (P t) ≤ X.state.lock.holds t
  pending : ∀ t, (∀ u, u ≠ t → X.state.lock.holds u = 0) →
    X.state.cache.pending.entries = (constructions (P t)).map Construction.entry
  built : ∀ {k m}, X.state.cache.methods.find? k = some m → Built K g X.state k m

theorem Built.extends {K : Contract} {g : Engine} {s s' : State} {k : MethodKey} {m : MethodId}
    {p : MethodId → Prop} (h : Built K g s k m) (store : s.store.Extends p s'.store) :
    Built K g s' k m := by
  obtain ⟨valid, l, r, hl, hd, builds⟩ := h
  exact ⟨valid, l, r, hl, store.complete hd rfl, builds⟩

namespace Consistent

variable {K : Contract} {g : Engine} {X : System} {P : ThreadId → List Phase} {t u : ThreadId}
  {φ : Phase} {φs : List Phase}

/-- All threads but the holder of the lock are without construction. -/
theorem constructions_of_holds (h : Consistent K g X P) (hu : X.state.lock.holds u = 0) :
    constructions (P u) = [] := by
  have held := h.lock u
  apply constructions_eq_nil
  omega

/-- A request that has to have the lock has it. -/
theorem holds_of_locks (h : Consistent K g X P) (hP : P t = φ :: φs) (hφ : φ.locks = true) :
    X.state.lock.holds t ≠ 0 := by
  have held := h.lock t
  rw [hP, lockCount_cons, hφ] at held
  intro ht
  simp [ht] at held

theorem holds_of_ne (h : Consistent K g X P) (hP : P t = φ :: φs) (hφ : φ.locks = true)
    (hu : u ≠ t) : X.state.lock.holds u = 0 :=
  MetadataLock.holds_eq_zero_of_ne (h.holds_of_locks hP hφ) hu

/-- The pending instances are those of the thread that nobody keeps from construction. -/
theorem pending_eq (h : Consistent K g X P) (hP : P t = φ :: φs)
    (alone : ∀ u, u ≠ t → X.state.lock.holds u = 0) : X.state.cache.pending.entries =
      (φ.construction?.toList ++ constructions φs).map Construction.entry := by
  rw [h.pending t alone, hP, constructions_cons]

/-- The construction of the innermost request is for a key of its own. -/
theorem key_ne_of_mem_constructions (h : Consistent K g X P) (hP : P t = φ :: φs)
    {c c' : Construction}
    (hc : φ.construction? = some c) (hc' : c' ∈ constructions φs) : c.key.key ≠ c'.key.key := by
  have hd := X.state.cache.pending.keys_pairwise
  rw [h.pending_eq hP fun u hu => h.holds_of_ne hP (locks_of_construction? hc) hu, hc] at hd
  have hne := (List.pairwise_cons.1 hd).1 _ (List.mem_map_of_mem hc')
  intro hk
  simp [Construction.entry, hk] at hne

end Consistent

/-- No instance is known yet. The counters, the descriptors, the lock and the events are as they
are. -/
structure State.IsFresh (s : State) : Prop where
  methods : s.cache.methods = {}
  pending : s.cache.pending = {}

/-- A fresh cache that serves no request is consistent. -/
theorem Consistent.of_isFresh (K : Contract) (g : Engine) {X : System} (fresh : X.state.IsFresh)
    (idle : ∀ t, X.stackOf t = []) : Consistent K g X fun _ => [] where
  stands t := idle t ▸ .nil
  lock _ := Nat.zero_le _
  pending _ _ := by
    rw [fresh.pending]
    rfl
  built hk := by
    rw [fresh.methods] at hk
    cases hk

end Monomorph
