import Monomorph.Proofs.Consistency

/-!
Every move that keeps the contract leaves a consistent system consistent (`Consistent.step`), so all
runs do (`System.Run.consistent`, and `Session.Run.consistent` for a thread alone).
-/

namespace Monomorph

open Phase

namespace Consistent

variable {K : Contract} {g : Engine} {X Y : System} {P : ThreadId → List Phase} {t : ThreadId}

/-- What has to be checked of a move of the thread `t`. -/
theorem update (h : Consistent K g X P) (φs : List Phase)
    (others : ∀ u, u ≠ t → Y.stackOf u = X.stackOf u) (own : Stands K g Y.state (Y.stackOf t) φs)
    (rest : ∀ u, u ≠ t → Stands K g Y.state (X.stackOf u) (P u))
    (held : lockCount φs ≤ Y.state.lock.holds t)
    (free : ∀ u, u ≠ t → Y.state.lock.holds u = X.state.lock.holds u)
    (entries : (∀ u, u ≠ t → Y.state.lock.holds u = 0) →
      Y.state.cache.pending.entries = (constructions φs).map Construction.entry)
    (kept : X.state.lock.holds t = 0 → Y.state.cache.pending = X.state.cache.pending)
    (built : ∀ {k m}, Y.state.cache.methods.find? k = some m → Built K g Y.state k m) :
    Consistent K g Y fun u => if u = t then φs else P u where
  stands u := by
    by_cases hu : u = t
    · subst hu
      simpa using own
    · simpa [hu, others u hu] using rest u hu
  lock u := by
    by_cases hu : u = t
    · subst hu
      simpa using held
    · simpa [hu, free u hu] using h.lock u
  pending u alone := by
    by_cases hu : u = t
    · subst hu
      simpa using entries alone
    · have hY : Y.state.lock.holds t = 0 := alone t (Ne.symm hu)
      simp only [hu, if_false]
      by_cases hX : X.state.lock.holds t = 0
      · rw [kept hX]
        refine h.pending u fun v hv => ?_
        by_cases hvt : v = t
        · rw [hvt, hX]
        · rw [← free v hvt, alone v hv]
      · -- `t` has given the lock back, so no construction is left anywhere
        have hu' : X.state.lock.holds u = 0 := MetadataLock.holds_eq_zero_of_ne hX hu
        have none : lockCount φs = 0 := by omega
        rw [h.constructions_of_holds hu', entries fun v hv => ?_, constructions_eq_nil none]
        rw [free v hv, MetadataLock.holds_eq_zero_of_ne hX hv]
  built := built

/-- A move that changes nothing in the tables keeps the constructions of its thread. -/
theorem update_quiet (h : Consistent K g X P) (φs : List Phase)
    (others : ∀ u, u ≠ t → Y.stackOf u = X.stackOf u) (own : Stands K g Y.state (Y.stackOf t) φs)
    (quiet : X.state.Quiet (fun _ => K.mayPublish) Y.state)
    (held : lockCount φs ≤ Y.state.lock.holds t)
    (free : ∀ u, u ≠ t → Y.state.lock.holds u = X.state.lock.holds u)
    (same : constructions φs = constructions (P t)) :
    Consistent K g Y fun u => if u = t then φs else P u := by
  refine h.update φs others own (fun u _ => (h.stands u).quiet quiet) held free ?_ ?_ ?_
  · intro hu
    have hX : ∀ u, u ≠ t → X.state.lock.holds u = 0 := by
      intro u ht
      rw [← free u ht, hu u ht]
    rw [quiet.pending, same, h.pending t hX]
  · exact fun _ => quiet.pending
  · intro k m hk
    rw [quiet.methods] at hk
    exact (h.built hk).extends quiet.store

/-! ## An action -/

section AnsweredAction

variable {f : Activity} {fs : List Activity} {d : AnsweredAction} {φ φ' : Phase} {φs : List Phase}

/-- The requests of the thread itself stand. -/
theorem own_act (h : Consistent K g X P) (hP : P t = φ :: φs)
    {next : d.action.Response → Program MethodResult} (step : φ.Step K g d φ')
    (takes : d.Takes t X.state Y.state) (follows : (next d.response).Follows K g (Phase.Ends g) φ')
    (serves : f.Serves K g X.state (constructions φs) φ) (turn : IsOpen fs)
    (tail : Stands K g X.state fs φs) :
    Stands K g Y.state ({ f with actions := d :: f.actions, rest := next d.response } :: fs)
      (φ' :: φs) := by
  refine .cons ⟨follows, serves.reached.step step, ?_⟩ turn (tail.of_underWay turn ?_)
  · refine step.holds takes serves.holds fun hφ => ?_
    exact h.pending_eq hP fun u hu => h.holds_of_ne hP hφ hu
  · intro c hc underWay
    exact step.underWay takes serves.holds underWay fun c' hc' =>
      h.key_ne_of_mem_constructions hP hc' hc

/-- The requests of another thread do not mind: they have no lock, or this request has none. -/
theorem other_act (h : Consistent K g X P) (hP : P t = φ :: φs) (step : φ.Step K g d φ')
    (takes : d.Takes t X.state Y.state) (holds : φ.Holds K X.state (constructions φs))
    {u : ThreadId} (hu : u ≠ t) : Stands K g Y.state (X.stackOf u) (P u) := by
  cases hφ : φ.locks with
  | false => exact (h.stands u).quiet (step.quiet takes hφ _)
  | true =>
    have held := h.lock u
    rw [h.holds_of_ne hP hφ hu] at held
    have free : lockCount (P u) = 0 := by omega
    refine (h.stands u).of_insert free ?_ (step.store_extends takes)
    intro k m hk
    exact step.find?_of_some takes holds hk

/-- What a request inserts is a complete descriptor of its key. -/
theorem built_act (h : Consistent K g X P) (step : φ.Step K g d φ')
    (takes : d.Takes t X.state Y.state) (holds : φ.Holds K X.state (constructions φs))
    (warranted : φ.Warranted K g) {k : MethodKey} {m : MethodId}
    (hk : Y.state.cache.methods.find? k = some m) : Built K g Y.state k m := by
  have store := step.store_extends takes
  rcases step.methods_eq takes with ⟨hm, -⟩ | ⟨c, r, rfl, -, hm⟩
  · rw [hm] at hk
    exact (h.built hk).extends store
  · rw [hm] at hk
    by_cases hc : k = c.key.key
    · subst hc
      rw [Table.find?_insert_self] at hk
      cases hk
      obtain ⟨valid, builds⟩ := warranted
      have built : Built K g X.state c.key.key c.method := ⟨valid, c.key, r, rfl, holds.2, builds⟩
      exact built.extends store
    · rw [Table.find?_insert_of_ne _ _ hc] at hk
      exact (h.built hk).extends store

/-- An action of the innermost request. -/
theorem act (h : Consistent K g X P) {next : d.action.Response → Program MethodResult}
    (hX : X.stackOf t = f :: fs) (rest : f.rest = .act d.action next)
    (takes : d.Takes t X.state Y.state)
    (hY : Y.stackOf t = { f with actions := d :: f.actions, rest := next d.response } :: fs)
    (others : ∀ u, u ≠ t → Y.stackOf u = X.stackOf u) : ∃ P', Consistent K g Y P' := by
  obtain ⟨φ, φs, hP, serves, turn, tail⟩ := (h.stands t).exists_serves hX
  obtain ⟨φ', step, follows⟩ := serves.step rest takes
  have held : φ.locks = true → X.state.lock.holds t ≠ 0 := h.holds_of_locks hP
  have free : ∀ u, u ≠ t → Y.state.lock.holds u = X.state.lock.holds u :=
    fun u hu => step.holds_of_ne takes held hu
  refine ⟨_, h.update (φ' :: φs) others ?_ ?_ ?_ free ?_ ?_ ?_⟩
  · rw [hY]
    exact h.own_act hP step takes follows serves turn tail
  · exact fun u hu => h.other_act hP step takes serves.holds hu
  · have hl := h.lock t
    have hd := step.holds_self takes held
    rw [hP, lockCount_cons] at hl
    rw [lockCount_cons]
    omega
  · intro alone
    rw [constructions_cons]
    refine step.pending_entries takes serves.holds (h.pending_eq hP ?_)
    intro u hu
    rw [← free u hu, alone u hu]
  · intro ht
    cases hφ : φ.locks with
    | false => exact (step.quiet takes hφ fun _ => False).pending
    | true => exact absurd ht (held hφ)
  · exact fun hk => h.built_act step takes serves.holds serves.reached.warranted hk

end AnsweredAction

/-! ## The other moves -/

/-- A request begins. -/
theorem call (h : Consistent K g X P) (c : Call) (turn : IsOpen (X.stackOf t))
    (hY : Y.session t = ⟨X.state, .made c g X.state :: X.stackOf t⟩)
    (others : ∀ u, u ≠ t → Y.stackOf u = X.stackOf u) : ∃ P', Consistent K g Y P' := by
  obtain ⟨hs, hY⟩ := Session.mk.inj hY
  refine ⟨_, h.update_quiet (.asked (c.aim g) :: P t) others ?_ ?_ ?_ ?_ rfl⟩
  · rw [hY, hs]
    exact .cons ⟨c.program_follows K g, .asked, trivial⟩ turn (h.stands t)
  · exact hs ▸ .of_eq _ rfl rfl
  · rw [lockCount_cons, hs]
    exact h.lock t
  · intro u _
    rw [hs]

/-- A construction has an answer. -/
theorem answer (h : Consistent K g X P) {f : Activity} {fs : List Activity} {c : Construction}
    {q : Query} {next : q.Answer → Program MethodResult} {x : q.Answer} (hx : K.answers q x)
    (hX : X.stackOf t = f :: fs) (rest : f.rest = .ask c q next)
    (hY : Y.session t = ⟨X.state, { f with rest := next x } :: fs⟩)
    (others : ∀ u, u ≠ t → Y.stackOf u = X.stackOf u) : ∃ P', Consistent K g Y P' := by
  obtain ⟨hs, hY⟩ := Session.mk.inj hY
  obtain ⟨φ, φs, hP, serves, turn, tail⟩ := (h.stands t).exists_serves hX
  have follows := serves.follows
  rw [rest] at follows
  refine ⟨_, h.update_quiet (φ :: φs) others ?_ ?_ ?_ ?_ (by rw [hP])⟩
  · rw [hY, hs]
    exact .cons ⟨follows.2 x hx, serves.reached, serves.holds⟩ turn tail
  · exact hs ▸ .of_eq _ rfl rfl
  · rw [hs, ← hP]
    exact h.lock t
  · intro u _
    rw [hs]

/-- A request ends; it does so without the lock. -/
theorem finish (h : Consistent K g X P) {f : Activity} {fs : List Activity} {r : MethodResult}
    (hX : X.stackOf t = f :: fs) (rest : f.rest = .done r) (hY : Y.session t = ⟨X.state, fs⟩)
    (others : ∀ u, u ≠ t → Y.stackOf u = X.stackOf u) : ∃ P', Consistent K g Y P' := by
  obtain ⟨hs, hY⟩ := Session.mk.inj hY
  obtain ⟨φ, φs, hP, serves, turn, tail⟩ := (h.stands t).exists_serves hX
  have free : φ.locks = false ∧ φ.construction? = none := by
    cases serves.ends rest <;> exact ⟨rfl, rfl⟩
  refine ⟨_, h.update_quiet φs others ?_ ?_ ?_ ?_ ?_⟩
  · rw [hY, hs]
    exact tail
  · exact hs ▸ .of_eq _ rfl rfl
  · have held := h.lock t
    rw [hP, lockCount_cons, free.1] at held
    rw [hs]
    exact held
  · intro u _
    rw [hs]
  · rw [hP, constructions_cons, free.2]
    rfl

/-- Code outside the cache changes the state where that matters to no phase. -/
theorem outside (h : Consistent K g X P) (hY : Y.stackOf t = X.stackOf t)
    (others : ∀ u, u ≠ t → Y.stackOf u = X.stackOf u)
    (quiet : X.state.Quiet (fun _ => K.mayPublish) Y.state)
    (held : lockCount (P t) ≤ Y.state.lock.holds t)
    (free : ∀ u, u ≠ t → Y.state.lock.holds u = X.state.lock.holds u) :
    ∃ P', Consistent K g Y P' :=
  ⟨_, h.update_quiet (P t) others (hY ▸ (h.stands t).quiet quiet) quiet held free rfl⟩

/-- No construction is in progress in any thread. -/
theorem constructions_of_idle (h : Consistent K g X P) (turn : IsOpen (X.stackOf t))
    (idle : (X.session t).constructions = []) (others : ∀ u, u ≠ t → X.stackOf u = [])
    (u : ThreadId) : constructions (P u) = [] := by
  by_cases hu : u = t
  · subst hu
    rw [← (h.stands u).constructions_eq turn]
    exact idle
  · rw [(h.stands u).eq_nil (others u hu)]
    rfl

/-- All instances are forgotten while no construction is in progress. -/
theorem reset (h : Consistent K g X P) (turn : IsOpen (X.stackOf t))
    (idle : (X.session t).constructions = []) (others : ∀ u, u ≠ t → X.stackOf u = [])
    (hs : Y.state = { X.state with cache := X.state.cache.reset })
    (hY : ∀ u, Y.stackOf u = X.stackOf u) : Consistent K g Y P where
  stands u := by
    have turn' : IsOpen (X.stackOf u) := by
      by_cases hu : u = t
      · exact hu ▸ turn
      · rw [others u hu]
        trivial
    rw [hY]
    refine (h.stands u).of_underWay turn' fun c hc => ?_
    rw [h.constructions_of_idle turn idle others] at hc
    cases hc
  lock u := hs ▸ h.lock u
  pending u _ := by
    rw [hs, h.constructions_of_idle turn idle others]
    rfl
  built hk := by
    rw [hs] at hk
    cases hk

end Consistent

/-! ## Runs -/

/-- The move keeps the contract. Instances may only be forgotten while no construction is in
progress. -/
def Contract.Permits (K : Contract) (X : System) (t : ThreadId) : Move → Prop
  | .answer _ q x => K.answers q x
  | .outside (.publish _ _) => K.mayPublish
  | .reset => (X.session t).constructions = [] ∧ ∀ u, u ≠ t → X.stackOf u = []
  | _ => True

variable {K : Contract} {g : Engine} {X Y : System} {t : ThreadId} {m : Move}

theorem Consistent.step {P : ThreadId → List Phase} (h : Consistent K g X P)
    (move : System.Step g X t m Y) (ok : K.Permits X t m) : ∃ P', Consistent K g Y P' := by
  obtain ⟨own, others⟩ := move
  generalize hS : X.session t = S at own
  generalize hT : Y.session t = T at own
  cases own with
  | request c =>
    obtain ⟨rfl, hX⟩ := Session.mk.inj hS
    exact h.call c (hX ▸ trivial) (hX ▸ hT) others
  | nest c calling =>
    obtain ⟨rfl, hX⟩ := Session.mk.inj hS
    exact h.call c (hX ▸ calling) (hX ▸ hT) others
  | act rest takes =>
    obtain ⟨rfl, hX⟩ := Session.mk.inj hS
    obtain ⟨rfl, hY⟩ := Session.mk.inj hT
    exact h.act hX rest takes hY others
  | answer rest x =>
    obtain ⟨rfl, hX⟩ := Session.mk.inj hS
    exact h.answer ok hX rest hT others
  | finish rest =>
    obtain ⟨rfl, hX⟩ := Session.mk.inj hS
    exact h.finish hX rest hT others
  | @outside _ _ a turn outside =>
    obtain ⟨rfl, hX⟩ := Session.mk.inj hS
    obtain ⟨hs, hY⟩ := Session.mk.inj hT
    have hl : Y.state.lock = X.state.lock := by
      rw [hs]
      exact Action.lock_of_isOutside outside
    refine h.outside (hY.trans hX.symm) others ?_ (hl ▸ h.lock t) fun u _ => by rw [hl]
    rw [hs]
    refine Action.quiet_of_isOutside outside ?_
    rintro m r rfl
    exact ok
  | hold available =>
    obtain ⟨rfl, hX⟩ := Session.mk.inj hS
    obtain ⟨hs, hY⟩ := Session.mk.inj hT
    refine h.outside (hY.trans hX.symm) others (hs ▸ ⟨rfl, rfl, .refl _ X.state.store⟩) ?_ ?_
    · rw [hs, show _ = _ from MetadataLock.holds_acquire_self available]
      exact Nat.le_succ_of_le (h.lock t)
    · intro u hu
      rw [hs]
      exact MetadataLock.holds_acquire_of_ne available hu
  | unhold held =>
    obtain ⟨rfl, hX⟩ := Session.mk.inj hS
    obtain ⟨hs, hY⟩ := Session.mk.inj hT
    refine h.outside (hY.trans hX.symm) others (hs ▸ ⟨rfl, rfl, .refl _ X.state.store⟩) ?_ ?_
    · rw [(h.stands t).eq_nil hX]
      exact Nat.zero_le _
    · intro u hu
      rw [hs]
      exact MetadataLock.holds_release_of_ne (by simpa [MetadataLock.isHeldBy] using held) hu
  | reset turn =>
    obtain ⟨rfl, hX⟩ := Session.mk.inj hS
    obtain ⟨hs, hY⟩ := Session.mk.inj hT
    refine ⟨P, h.reset (hX ▸ turn) ok.1 ok.2 hs fun u => ?_⟩
    by_cases hu : u = t
    · rw [hu, hX]
      exact hY
    · exact others u hu

theorem System.Run.consistent {P : ThreadId → List Phase} {tr : List (ThreadId × Move)}
    (run : System.Run g K.Permits X tr Y) (h : Consistent K g X P) : ∃ P', Consistent K g Y P' := by
  induction run with
  | nil => exact ⟨P, h⟩
  | step _ allowed move ih =>
    obtain ⟨P', h'⟩ := ih
    exact h'.step move allowed

/-! ## A thread alone -/

/-- What the invariant says if no other thread has a request to serve. -/
structure Session.Sound (K : Contract) (g : Engine) (X : Session) (φs : List Phase) : Prop where
  stands : Stands K g X.state X.stack φs
  pending : X.state.cache.pending.entries = (Phase.constructions φs).map Construction.entry
  built : ∀ {k m}, X.state.cache.methods.find? k = some m → Built K g X.state k m

theorem Consistent.sound {X : Session} {P : ThreadId → List Phase}
    (h : Consistent K g (X.alone t) P) : X.Sound K g (P t) where
  stands := by simpa using h.stands t
  built hk := h.built hk
  pending := by
    obtain ⟨o, ho⟩ := X.state.lock.exists_holder
    have hP : constructions (P t) = constructions (P o) := by
      by_cases hto : t = o
      · rw [hto]
      · have idle : P o = [] := (h.stands o).eq_nil (X.alone_stackOf_of_ne (Ne.symm hto))
        rw [h.constructions_of_holds (ho t hto), idle]
        rfl
    rw [hP]
    exact h.pending o ho

/-- The invariant holds in the runs of one thread. -/
theorem Session.Run.consistent {ok : Session → Move → Prop} {X Y : Session} {tr : List Move}
    (run : Session.Run g t ok X tr Y) (keeps : ∀ Z m, ok Z m → K.Permits (Z.alone t) t m)
    (fresh : X.state.IsFresh) (idle : X.stack = []) : ∃ P, Consistent K g (Y.alone t) P := by
  have start : Consistent K g (X.alone t) fun _ => [] := by
    refine .of_isFresh K g fresh fun u => ?_
    by_cases hu : u = t
    · simpa [hu] using idle
    · exact X.alone_stackOf_of_ne hu
  have run' : System.Run g K.Permits (X.alone t) (tr.map fun m => (t, m)) (Y.alone t) := by
    refine run.alone.mono ?_
    rintro Z u m ⟨rfl, others, hm⟩
    have permits := keeps _ _ hm
    cases m with
    | reset => exact ⟨by simpa using permits.1, others⟩
    | outside a => cases a <;> exact permits
    | answer => exact permits
    | _ => trivial
  exact run'.consistent start

/-- What has ended was in a phase in which requests end. -/
theorem Session.Run.exists_reached_of_finish {ok : Session → Move → Prop} {X Y : Session}
    {tr : List Move}
    (run : Session.Run g t ok X tr Y) (keeps : ∀ Z m, ok Z m → K.Permits (Z.alone t) t m)
    (fresh : X.state.IsFresh) (idle : X.stack = []) {f : Activity} {r : MethodResult}
    (hf : Move.finish f r ∈ tr) :
    ∃ φ, Phase.Reached K g (f.call.aim g) f.actions φ ∧ φ.Ends g r := by
  induction run with
  | nil => cases hf
  | @step tr Y Z m run _ move ih =>
    rcases List.mem_cons.1 hf with rfl | hf
    · obtain ⟨P, h⟩ := run.consistent keeps fresh idle
      cases move with
      | finish rest =>
        obtain ⟨φ, φs, -, serves, -⟩ := h.sound.stands.exists_serves rfl
        exact ⟨φ, serves.reached, serves.ends rest⟩
    · exact ih hf

end Monomorph
