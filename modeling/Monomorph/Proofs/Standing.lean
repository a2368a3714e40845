import Monomorph.Proofs.History

/-!
What a phase says about the state. `Phase.Holds` lists it phase by phase; `Phase.Step.holds` states
that a request keeps it true by its own actions. What other requests do is of two kinds: a `Quiet`
change leaves both tables alone and matters to no phase, and a request that has the lock may
insert, which matters to no phase without the lock (`Phase.Holds.of_insert`).
-/

namespace Monomorph

/-! ## Descriptors -/

/-- The descriptor of an instance, as far as it has been built. -/
def Descriptor.describing (h : KeyHandle) (o : Option Realization) : Descriptor :=
  { Descriptor.ofKey h with realization := o }

@[simp] theorem Descriptor.describing_realization (h : KeyHandle) (o : Option Realization) :
    (describing h o).realization = o := rfl

theorem Descriptor.eq_of_describing {h h' : KeyHandle} {o o' : Option Realization}
    (he : describing h o = describing h' o') : h = h' :=
  Option.some.inj (congrArg Descriptor.key he)

/-- All descriptors of `s` are in `s'`, as they are; those in `p` may have been completed. -/
def Store.Extends (p : MethodId → Prop) (s s' : Store) : Prop :=
  ∀ m d, s.get? m = some d → s'.get? m = some d ∨
    p m ∧ d.realization = none ∧ ∃ r, s'.get? m = some { d with realization := some r }

namespace Store

variable {p q : MethodId → Prop} {s s' : Store} {m : MethodId}

theorem Extends.refl (p : MethodId → Prop) (s : Store) : s.Extends p s :=
  fun _ _ hd => .inl hd

theorem Extends.mono (h : s.Extends p s') (hpq : ∀ m, p m → q m) : s.Extends q s' :=
  fun m d hd => (h m d hd).imp_right fun ⟨hm, hr⟩ => ⟨hpq m hm, hr⟩

theorem extends_allocate (p : MethodId → Prop) (s : Store) (d : Descriptor) :
    s.Extends p (s.allocate d) :=
  fun _ _ hd => .inl (get?_allocate_of_some hd)

theorem extends_publish {r : Realization} (h : s.publish m r = .ok s') :
    s.Extends (· = m) s' := by
  obtain ⟨others, own⟩ := publish_eq_ok h
  intro n d hd
  by_cases hn : n = m
  · subst hn
    rcases own with ⟨hm, -⟩ | ⟨d', hd', hr, hs⟩
    · rw [hm] at hd
      cases hd
    · rw [hd'] at hd
      cases hd
      exact .inr ⟨rfl, hr, r, hs⟩
  · exact .inl (by rw [others n hn, hd])

/-- A complete descriptor stays as it is. -/
theorem Extends.complete {d : Descriptor} {r : Realization} (h : s.Extends p s')
    (hd : s.get? m = some d) (hr : d.realization = some r) : s'.get? m = some d := by
  rcases h m d hd with hd | ⟨-, hn, -⟩
  · exact hd
  · rw [hr] at hn
    cases hn

theorem Extends.describing {k : KeyHandle} {o : Option Realization} (h : s.Extends p s')
    (hd : s.get? m = some (.describing k o)) :
    ∃ o', s'.get? m = some (.describing k o') ∧ (o' = o ∨ p m) := by
  rcases h m _ hd with hd | ⟨hp, -, r, hd⟩
  · exact ⟨o, hd, .inl rfl⟩
  · exact ⟨some r, hd, .inr hp⟩

end Store

/-! ## What holds in a phase -/

/-- The entry of a construction among the pending ones. -/
def Construction.entry (c : Construction) : MethodKey × MethodId := (c.key.key, c.method)

/-- The key of the construction has no complete instance, and its descriptor is not completed, by
the cache at least. -/
structure Construction.UnderWay (K : Contract) (s : State) (c : Construction) : Prop where
  missing : s.cache.methods.find? c.key.key = none
  descriptor : ∃ o, s.store.get? c.method = some (.describing c.key o) ∧ (o ≠ none → K.mayPublish)

/-- What holds for a request that ends so; `below` are the constructions that wait for it. -/
def Verdict.Holds (K : Contract) (s : State) (below : List Construction) : Verdict → Prop
  | cached _ k m => s.cache.methods.find? k = some m
  | pending k m => ∃ c ∈ below, c.entry = (k, m)
  | placeholder m => s.store.get? m = some .placeholder
  | unresolved _ _ => True
  | refused _ _ => K.mayPublish

def Phase.Holds (K : Contract) (s : State) (below : List Construction) : Phase → Prop
  | asked _ => True
  | placing => True
  | hit k m => s.cache.methods.find? k = some m
  | missed _ => True
  | locked _ => True
  | rehit k m => s.cache.methods.find? k = some m
  | absent k => s.cache.methods.find? k = none
  | guarded k m => ∃ c ∈ below, c.entry = (k, m)
  | unclaimed k => s.cache.methods.find? k = none ∧ s.cache.pending.find? k = none
  | allocated c => c.UnderWay K s ∧ s.cache.pending.find? c.key.key = none
  | building c => c.UnderWay K s
  | published c r =>
    s.cache.methods.find? c.key.key = none ∧
      s.store.get? c.method = some (.describing c.key (some r))
  | inserted c _ => s.cache.methods.find? c.key.key = some c.method
  | finished c _ => s.cache.methods.find? c.key.key = some c.method
  | refused c _ => s.cache.methods.find? c.key.key = none ∧ K.mayPublish
  | abandoned _ _ => True
  | closing v => v.Holds K s below
  | closed v => v.Holds K s below

theorem Phase.locks_of_construction? {φ : Phase} {c : Construction} (h : φ.construction? = some c) :
    φ.locks = true := by
  cases φ <;> first | rfl | cases h

/-! ## Changes that matter to no phase -/

/-- Both tables are as they were, and no descriptor outside of `p` has been completed. -/
structure State.Quiet (p : MethodId → Prop) (s s' : State) : Prop where
  methods : s'.cache.methods = s.cache.methods
  pending : s'.cache.pending = s.cache.pending
  store : s.store.Extends p s'.store

namespace State.Quiet

variable {K : Contract} {p : MethodId → Prop} {s s' : State} {below : List Construction}

/-- The tables and the store are untouched. -/
theorem of_eq (p : MethodId → Prop) (hc : s'.cache = s.cache) (hs : s'.store = s.store) :
    s.Quiet p s' :=
  ⟨by rw [hc], by rw [hc], hs ▸ .refl p s.store⟩

theorem underWay {c : Construction} (h : s.Quiet (fun _ => K.mayPublish) s') (hc : c.UnderWay K s) :
    c.UnderWay K s' := by
  refine ⟨by rw [h.methods]; exact hc.missing, ?_⟩
  obtain ⟨o, hd, ho⟩ := hc.descriptor
  obtain ⟨o', hd', rfl | hp⟩ := h.store.describing hd
  · exact ⟨o', hd', ho⟩
  · exact ⟨o', hd', fun _ => hp⟩

theorem verdict_holds {v : Verdict} (h : s.Quiet (fun _ => K.mayPublish) s')
    (hv : v.Holds K s below) : v.Holds K s' below := by
  cases v with
  | cached o k m =>
    unfold Verdict.Holds
    rw [h.methods]
    exact hv
  | placeholder m => exact h.store.complete hv rfl
  | pending | unresolved | refused => exact hv

theorem phase_holds {φ : Phase} (h : s.Quiet (fun _ => K.mayPublish) s')
    (hφ : φ.Holds K s below) : φ.Holds K s' below := by
  cases φ with
  | hit | rehit | absent | inserted | finished =>
    unfold Phase.Holds
    rw [h.methods]
    exact hφ
  | unclaimed =>
    unfold Phase.Holds
    rw [h.methods, h.pending]
    exact hφ
  | allocated c => exact ⟨h.underWay hφ.1, by rw [h.pending]; exact hφ.2⟩
  | building c => exact h.underWay hφ
  | published c r => exact ⟨by rw [h.methods]; exact hφ.1, h.store.complete hφ.2 rfl⟩
  | closing v | closed v => exact h.verdict_holds hφ
  | refused => exact ⟨by rw [h.methods]; exact hφ.1, hφ.2⟩
  | asked | placing | missed | locked | guarded | abandoned => exact hφ

end State.Quiet

/-- What code outside the cache does to the state is quiet. -/
theorem Action.quiet_of_isOutside {p : MethodId → Prop} {a : Action} {t : ThreadId} {s : State}
    (h : a.isOutside = true) (hp : ∀ m r, a = .publish m r → p m) : s.Quiet p (a.apply t s).2 := by
  cases a with
  | emit e => exact .of_eq p rfl rfl
  | copyKey k => exact ⟨rfl, rfl, .refl p s.store⟩
  | allocate d => exact ⟨rfl, rfl, s.store.extends_allocate p d⟩
  | publish m r =>
    simp only [apply]
    split
    · next store hs =>
      exact ⟨rfl, rfl, (Store.extends_publish hs).mono fun n hn => hn ▸ hp m r rfl⟩
    · exact .of_eq p rfl rfl
  | _ => cases h

theorem Action.lock_of_isOutside {a : Action} {t : ThreadId} {s : State}
    (h : a.isOutside = true) : (a.apply t s).2.lock = s.lock := by
  cases a with
  | publish m r =>
    simp only [apply]
    split <;> rfl
  | emit | copyKey | allocate => rfl
  | _ => cases h

/-! ## The actions of a request -/

namespace AnsweredAction.Takes

variable {d : AnsweredAction} {t : ThreadId} {s s' : State}

theorem response_eq (h : d.Takes t s s') : d.response = (d.action.apply t s).1 :=
  (congrArg Prod.fst h.apply_eq).symm

theorem state_eq (h : d.Takes t s s') : s' = (d.action.apply t s).2 :=
  (congrArg Prod.snd h.apply_eq).symm

theorem canYield (h : d.Takes t s s') : d.action.CanYield d.response := by
  rw [h.response_eq]
  cases d.action <;> first | rfl | trivial

theorem publish_ok {m : MethodId} {r : Realization}
    (h : Takes ⟨.publish m r, .ok ()⟩ t s s') :
    ∃ store, s.store.publish m r = .ok store ∧ s' = { s with store := store } := by
  have h := h.apply_eq
  simp only [Action.apply] at h
  split at h
  · next store hs =>
    cases h
    exact ⟨store, hs, rfl⟩
  · cases h

theorem publish_error {m : MethodId} {r : Realization} {e : Error}
    (h : Takes ⟨.publish m r, .error e⟩ t s s') :
    s.store.publish m r = .error e ∧ s' = s := by
  have h := h.apply_eq
  simp only [Action.apply] at h
  split at h
  · cases h
  · next e hs =>
    cases h
    exact ⟨hs, rfl⟩

/-- A descriptor that has been completed was pending before. -/
theorem describing_of_publish {m : MethodId} {r : Realization} {k : KeyHandle}
    {o : Option Realization} (h : Takes ⟨.publish m r, .ok ()⟩ t s s')
    (hd : s.store.get? m = some (.describing k o)) :
    o = none ∧ s'.store.get? m = some (.describing k (some r)) := by
  obtain ⟨store, hs, rfl⟩ := h.publish_ok
  rcases (Store.publish_eq_ok hs).2 with ⟨hn, -⟩ | ⟨d, hd', ho, hs⟩
  · rw [hn] at hd
    cases hd
  · rw [hd] at hd'
    cases hd'
    exact ⟨ho, hs⟩

/-- A descriptor that cannot be completed is complete. -/
theorem describing_of_refuse {m : MethodId} {r : Realization} {e : Error} {k : KeyHandle}
    {o : Option Realization} (h : Takes ⟨.publish m r, .error e⟩ t s s')
    (hd : s.store.get? m = some (.describing k o)) :
    o ≠ none ∧ e = .alreadyRealized k.key.definition.token := by
  obtain ⟨d, r', hd', hr, he⟩ := Store.publish_eq_error h.publish_error.1
  rw [hd] at hd'
  cases hd'
  exact ⟨by simpa using Option.isSome_iff_ne_none.1 (Option.isSome_of_eq_some hr), he⟩

/-- Publication changes descriptors only, whether it succeeds or not. -/
theorem publish_frame {m : MethodId} {r : Realization} {x : Except Error Unit}
    (h : Takes ⟨.publish m r, x⟩ t s s') : s'.cache = s.cache ∧ s'.lock = s.lock := by
  rw [h.state_eq]
  simp only [Action.apply]
  split <;> exact ⟨rfl, rfl⟩

end AnsweredAction.Takes

namespace Phase.Step

variable {K : Contract} {g : Engine} {d : AnsweredAction} {φ φ' : Phase} {t : ThreadId}
  {s s' : State}

/-- Without the lock, and while it is taken, nothing happens that matters to a phase. -/
theorem quiet (h : φ.Step K g d φ') (takes : d.Takes t s s') (free : φ.locks = false)
    (p : MethodId → Prop) : s.Quiet p s' := by
  rw [takes.state_eq]
  cases h with
  | copyKey | nameNested | countNested | hit | miss | countHit | lock | noteUnlocked =>
    exact ⟨rfl, rfl, .refl p s.store⟩
  | place => exact ⟨rfl, rfl, s.store.extends_allocate p _⟩
  | _ => cases free

/-- A request completes its own descriptor and no other. -/
theorem store_extends (h : φ.Step K g d φ') (takes : d.Takes t s s') :
    s.store.Extends (fun m => ∃ c, φ = .building c ∧ m = c.method) s'.store := by
  cases h with
  | publish =>
    obtain ⟨store, hs, rfl⟩ := takes.publish_ok
    exact (Store.extends_publish hs).mono fun m hm => ⟨_, rfl, hm⟩
  | refuse =>
    obtain ⟨-, rfl⟩ := takes.publish_error
    exact .refl _ _
  | place | allocate =>
    rw [takes.state_eq]
    exact s.store.extends_allocate _ _
  | _ =>
    rw [takes.state_eq]
    exact .refl _ s.store

/-- A request inserts once its descriptor is complete, and removes nothing. -/
theorem methods_eq (h : φ.Step K g d φ') (takes : d.Takes t s s') :
    (s'.cache.methods = s.cache.methods ∧ ∀ k, d.adds k = false) ∨
      ∃ c r, φ = .published c r ∧ d = ⟨.addMethod c.key.key c.method, ()⟩ ∧
        s'.cache.methods = s.cache.methods.insert c.key.key c.method := by
  cases h with
  | insert =>
    rw [takes.state_eq]
    exact .inr ⟨_, _, rfl, rfl, rfl⟩
  | publish | refuse =>
    rw [takes.publish_frame.1]
    exact .inl ⟨rfl, fun _ => rfl⟩
  | _ =>
    rw [takes.state_eq]
    exact .inl ⟨rfl, fun _ => rfl⟩

/-- The pending entry of a request comes and goes with its construction. -/
theorem pending_entries (h : φ.Step K g d φ') (takes : d.Takes t s s') {below : List Construction}
    (hφ : φ.Holds K s below) (hp : s.cache.pending.entries =
      (φ.construction?.toList ++ below).map Construction.entry) :
    s'.cache.pending.entries = (φ'.construction?.toList ++ below).map Construction.entry := by
  cases h with
  | claim =>
    rw [takes.state_eq]
    exact (Table.entries_insert_new _ hφ.2).trans (congrArg _ hp)
  | unclaim | unclaimRefused | unclaimFailed =>
    rw [takes.state_eq]
    exact Table.entries_erase_head hp
  | publish | refuse =>
    rw [takes.publish_frame.1]
    exact hp
  | _ =>
    rw [takes.state_eq]
    exact hp

theorem holds_self (h : φ.Step K g d φ') (takes : d.Takes t s s')
    (held : φ.locks = true → s.lock.holds t ≠ 0) :
    s.lock.holds t + φ'.locks.toNat = s'.lock.holds t + φ.locks.toNat := by
  cases h with
  | lock =>
    rw [takes.state_eq]
    exact (MetadataLock.holds_acquire_self takes.enabled).symm
  | unlock =>
    rw [takes.state_eq]
    exact (MetadataLock.holds_release_self (held rfl)).symm
  | publish | refuse =>
    rw [takes.publish_frame.2]
    rfl
  | _ =>
    rw [takes.state_eq]
    rfl

theorem holds_of_ne (h : φ.Step K g d φ') (takes : d.Takes t s s')
    (held : φ.locks = true → s.lock.holds t ≠ 0) {u : ThreadId} (hu : u ≠ t) :
    s'.lock.holds u = s.lock.holds u := by
  cases h with
  | lock =>
    rw [takes.state_eq]
    exact MetadataLock.holds_acquire_of_ne takes.enabled hu
  | unlock =>
    rw [takes.state_eq]
    exact MetadataLock.holds_release_of_ne (held rfl) hu
  | publish | refuse => rw [takes.publish_frame.2]
  | _ =>
    rw [takes.state_eq]
    rfl

/-- A complete instance stays the one of its key. -/
theorem find?_of_some (h : φ.Step K g d φ') (takes : d.Takes t s s') {below : List Construction}
    (hφ : φ.Holds K s below) {k : MethodKey} {m : MethodId}
    (hk : s.cache.methods.find? k = some m) : s'.cache.methods.find? k = some m := by
  rcases h.methods_eq takes with ⟨hm, -⟩ | ⟨c, r, rfl, -, hm⟩
  · rw [hm, hk]
  · have hne : k ≠ c.key.key := by
      rintro rfl
      rw [hφ.1] at hk
      cases hk
    rw [hm, Table.find?_insert_of_ne _ _ hne, hk]

/-- What a phase says of the state stays true by the actions of its request. -/
theorem holds (h : φ.Step K g d φ') (takes : d.Takes t s s') {below : List Construction}
    (hφ : φ.Holds K s below) (hp : φ.locks = true → s.cache.pending.entries =
      (φ.construction?.toList ++ below).map Construction.entry) : φ'.Holds K s' below := by
  cases h with
  | copyKey | nameNested | countNested | miss | lock | unclaimFailed | countFailed | nameFailed =>
    trivial
  | @place m =>
    rw [takes.state_eq, show m = s.store.next from takes.response_eq]
    exact s.store.get?_allocate_next .placeholder
  | hit | rehit | missAgain =>
    rw [takes.state_eq]
    exact takes.response_eq.symm
  | guard =>
    have hm := Table.mem_entries_of_find? takes.response_eq.symm
    rw [hp rfl] at hm
    exact List.mem_map.1 hm
  | passGuard =>
    rw [takes.state_eq]
    exact ⟨hφ, takes.response_eq.symm⟩
  | copyOwnKey =>
    rw [takes.state_eq]
    exact hφ
  | @allocate k h m hk =>
    subst hk
    rw [takes.state_eq, show m = s.store.next from takes.response_eq]
    exact ⟨⟨hφ.1, none, s.store.get?_allocate_next _, fun hn => absurd rfl hn⟩, hφ.2⟩
  | claim =>
    rw [takes.state_eq]
    exact ⟨hφ.1.missing, hφ.1.descriptor⟩
  | note =>
    rw [takes.state_eq]
    exact ⟨hφ.missing, hφ.descriptor⟩
  | publish =>
    obtain ⟨o, hd, -⟩ := hφ.descriptor
    refine ⟨?_, (takes.describing_of_publish hd).2⟩
    rw [takes.publish_frame.1]
    exact hφ.missing
  | refuse =>
    obtain ⟨o, hd, ho⟩ := hφ.descriptor
    refine ⟨?_, ho (takes.describing_of_refuse hd).1⟩
    rw [takes.publish_frame.1]
    exact hφ.missing
  | insert =>
    rw [takes.state_eq]
    exact Table.find?_insert_self _ _ _
  | unclaim | countHit | countRehit | countGuard | countBuilt =>
    rw [takes.state_eq]
    exact hφ
  | unclaimRefused => exact hφ.2
  | @noteLocked v | @unlock v | @noteUnlocked v =>
    rw [takes.state_eq]
    exact State.Quiet.verdict_holds ⟨rfl, rfl, .refl _ s.store⟩ hφ

/-- The constructions that wait for a request are not affected by it. -/
theorem underWay (h : φ.Step K g d φ') (takes : d.Takes t s s') {below : List Construction}
    (hφ : φ.Holds K s below) {c : Construction} (hc : c.UnderWay K s)
    (distinct : ∀ c', φ.construction? = some c' → c'.key.key ≠ c.key.key) : c.UnderWay K s' := by
  refine ⟨?_, ?_⟩
  · rcases h.methods_eq takes with ⟨hm, -⟩ | ⟨c', r, rfl, -, hm⟩
    · rw [hm, hc.missing]
    · rw [hm, Table.find?_insert_of_ne _ _ (distinct c' rfl).symm, hc.missing]
  · obtain ⟨o, hd, ho⟩ := hc.descriptor
    obtain ⟨o', hd', rfl | ⟨c', rfl, hm⟩⟩ := (h.store_extends takes).describing hd
    · exact ⟨o', hd', ho⟩
    · obtain ⟨o', hd', -⟩ := hφ.descriptor
      rw [hm, hd'] at hd
      have hk := Descriptor.eq_of_describing (Option.some.inj hd)
      exact absurd (congrArg (·.key) hk) (distinct c' rfl)

end Phase.Step

/-- A phase without the lock does not mind what the request with the lock does. -/
theorem Phase.Holds.of_insert {K : Contract} {s s' : State} {below : List Construction} {φ : Phase}
    {p : MethodId → Prop} (hφ : φ.Holds K s below) (free : φ.locks = false)
    (methods : ∀ {k m}, s.cache.methods.find? k = some m → s'.cache.methods.find? k = some m)
    (store : s.store.Extends p s'.store) : φ.Holds K s' below := by
  cases φ with
  | asked | placing | missed => trivial
  | hit k m => exact methods hφ
  | closed v =>
    cases v with
    | cached => exact methods hφ
    | placeholder m => exact store.complete hφ rfl
    | pending | unresolved | refused => exact hφ
  | _ => cases free

end Monomorph
