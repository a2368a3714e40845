import Mathlib.Data.List.Forall2
import Monomorph.Proofs.Session

/-!
Likeness of two states, as they come about in two runs that do the same. Each run is compared from a
`Mark` on: descriptors correspond by how many have been allocated since, counters by what has been
counted since, and which copy of a key somebody has does not matter. Main statement:
`State.Like.apply`, by which like actions lead from like states to like states, and with like
responses.
-/

namespace Monomorph

/-! ## Marks -/

/-- Where the comparison of a run starts. -/
structure Mark where
  /-- Descriptors from this place on are compared. -/
  size : Nat := 0
  counters : Counters := {}
  events : List Event := []

/-- The comparison starts here. -/
def State.mark (s : State) : Mark where
  size := s.store.descriptors.size
  counters := s.cache.counters
  events := s.events

namespace Counters

/-- What both have counted. -/
def add (c d : Counters) : Counters where
  inflated := c.inflated + d.inflated
  fastHits := c.fastHits + d.fastHits
  recheckHits := c.recheckHits + d.recheckHits
  recursionHits := c.recursionHits + d.recursionHits
  failures := c.failures + d.failures
  degenerate := c.degenerate + d.degenerate
  byKind k := c.byKind k + d.byKind k

@[simp] theorem zero_add (c : Counters) : add {} c = c := by
  simp [add]

theorem record_add (c d : Counters) (o : Outcome) : (c.add d).record o = c.add (d.record o) := by
  cases o with
  | inflated k =>
    have kinds : ∀ l, (if l = k then c.byKind l + (d.byKind l + 1) else c.byKind l + d.byKind l) =
        c.byKind l + if l = k then d.byKind l + 1 else d.byKind l := by
      intro l
      split <;> rfl
    simp only [add, record, Nat.add_assoc, kinds]
  | _ => simp [add, record, Nat.add_assoc]

end Counters

variable {M N : Mark}

/-! ## Descriptors -/

/-- The places are equally far from the marks. -/
def MethodId.Like (M N : Mark) (m n : MethodId) : Prop :=
  M.size ≤ m.index ∧ m.index + N.size = n.index + M.size

namespace MethodId.Like

variable {m n m' n' : MethodId}

theorem symm (h : m.Like M N n) : n.Like N M m := by
  obtain ⟨hm, hn⟩ := h
  exact ⟨by omega, hn.symm⟩

/-- Places correspond one to one. -/
theorem eq_iff (h : m.Like M N n) (h' : m'.Like M N n') : m = m' ↔ n = n' := by
  obtain ⟨i⟩ := m
  obtain ⟨j⟩ := n
  obtain ⟨i'⟩ := m'
  obtain ⟨j'⟩ := n'
  simp only [MethodId.Like, MethodId.mk.injEq] at *
  omega

theorem exists_of_le (N : Mark) (h : M.size ≤ m.index) : ∃ n, m.Like M N n :=
  ⟨⟨m.index - M.size + N.size⟩, h, by simp only; omega⟩

/-- Compared from the beginning, only a place itself is like it. -/
theorem eq (h : m.Like {} {} n) : m = n := by
  obtain ⟨i⟩ := m
  obtain ⟨j⟩ := n
  simpa [MethodId.Like] using h

theorem refl (m : MethodId) : m.Like {} {} m := ⟨Nat.zero_le _, rfl⟩

end MethodId.Like

/-- They differ at most in the copies of the key that they have. -/
structure Descriptor.Like (d d' : Descriptor) : Prop where
  key : d.key.map (·.key) = d'.key.map (·.key)
  rest : { d with key := none } = { d' with key := none }

namespace Descriptor.Like

variable {d d' : Descriptor}

theorem refl (d : Descriptor) : d.Like d := ⟨rfl, rfl⟩

theorem symm (h : d.Like d') : d'.Like d := ⟨h.key.symm, h.rest.symm⟩

theorem token (h : d.Like d') : d.token = d'.token := congrArg (·.token) h.rest

theorem realization (h : d.Like d') : d.realization = d'.realization :=
  congrArg (·.realization) h.rest

theorem context (h : d.Like d') : d.context = d'.context := by
  have key := congrArg (Option.map (·.context)) h.key
  rw [Option.map_map, Option.map_map] at key
  exact key

theorem complete (h : d.Like d') (r : Realization) :
    { d with realization := some r }.Like { d' with realization := some r } :=
  ⟨h.key, congrArg (fun d => { d with realization := some r }) h.rest⟩

theorem ofKey {h h' : KeyHandle} (hk : h.key = h'.key) :
    (Descriptor.ofKey h).Like (Descriptor.ofKey h') := by
  obtain ⟨i, k⟩ := h
  obtain ⟨i', k'⟩ := h'
  cases hk
  exact ⟨rfl, rfl⟩

end Descriptor.Like

/-! ## Tables -/

/-- They have the same keys in the same order, and to each key values in `R`. -/
def Table.Like {κ ν ν' : Type} [BEq κ] (R : ν → ν' → Prop) (T : Table κ ν) (T' : Table κ ν') :
    Prop :=
  List.Forall₂ (fun e e' => e.1 = e'.1 ∧ R e.2 e'.2) T.entries T'.entries

namespace Table.Like

variable {κ ν ν' : Type} [BEq κ] {R : ν → ν' → Prop} {T : Table κ ν} {T' : Table κ ν'}

theorem size_eq (h : T.Like R T') : T.size = T'.size := List.Forall₂.length_eq h

theorem find? (h : T.Like R T') (k : κ) : Option.Rel R (T.find? k) (T'.find? k) := by
  unfold Table.Like at h
  unfold Table.find?
  generalize T.entries = es, T'.entries = es' at h
  induction h with
  | nil => exact .none
  | @cons e e' es es' he _ ih =>
    rw [List.find?_cons, List.find?_cons, ← he.1]
    cases k == e.1 with
    | true => exact .some he.2
    | false => exact ih

theorem erase (h : T.Like R T') (k : κ) : (T.erase k).Like R (T'.erase k) := by
  refine List.rel_filter (fun e e' he => ?_) h
  simp [he.1]

theorem insert {v : ν} {v' : ν'} (h : T.Like R T') (k : κ) (hv : R v v') :
    (T.insert k v).Like R (T'.insert k v') :=
  .cons ⟨rfl, hv⟩ (h.erase k)

theorem symm {R' : ν' → ν → Prop} (h : T.Like R T') (hR : ∀ v v', R v v' → R' v' v) :
    T'.Like R' T :=
  List.Forall₂.flip (h.imp fun _ _ he => ⟨he.1.symm, hR _ _ he.2⟩)

theorem eq {R : ν → ν → Prop} {T T' : Table κ ν} (h : T.Like R T')
    (hR : ∀ v v', R v v' → v = v') : T = T' := by
  apply Table.ext
  rw [← List.forall₂_eq_eq_eq]
  exact h.imp fun e e' he => Prod.ext he.1 (hR _ _ he.2)

theorem refl {R : ν → ν → Prop} (hR : ∀ v, R v v) (T : Table κ ν) : T.Like R T :=
  List.forall₂_same.2 fun e _ => ⟨rfl, hR e.2⟩

end Table.Like

/-! ## Actions -/

/-- The same has been done, and like responses have been learned; no key has been copied. -/
inductive AnsweredAction.Like (M N : Mark) : AnsweredAction → AnsweredAction → Prop where
  | findMethod (k : MethodKey) {x y : Option MethodId} (h : Option.Rel (MethodId.Like M N) x y) :
      Like M N ⟨.findMethod k, x⟩ ⟨.findMethod k, y⟩
  | findPending (k : MethodKey) {x y : Option MethodId} (h : Option.Rel (MethodId.Like M N) x y) :
      Like M N ⟨.findPending k, x⟩ ⟨.findPending k, y⟩
  | record (o : Outcome) : Like M N ⟨.record o, ()⟩ ⟨.record o, ()⟩
  | emit (e : Event) : Like M N ⟨.emit e, ()⟩ ⟨.emit e, ()⟩
  | acquire : Like M N ⟨.acquire, ()⟩ ⟨.acquire, ()⟩
  | release : Like M N ⟨.release, ()⟩ ⟨.release, ()⟩
  | allocate {d d' : Descriptor} {m n : MethodId} (hd : d.Like d') (h : m.Like M N n) :
      Like M N ⟨.allocate d, m⟩ ⟨.allocate d', n⟩
  | addPending (k : MethodKey) {m n : MethodId} (h : m.Like M N n) :
      Like M N ⟨.addPending k m, ()⟩ ⟨.addPending k n, ()⟩
  | removePending (k : MethodKey) : Like M N ⟨.removePending k, ()⟩ ⟨.removePending k, ()⟩
  | publish {m n : MethodId} (h : m.Like M N n) (r : Realization) (x : Except Error Unit) :
      Like M N ⟨.publish m r, x⟩ ⟨.publish n r, x⟩
  | addMethod (k : MethodKey) {m n : MethodId} (h : m.Like M N n) :
      Like M N ⟨.addMethod k m, ()⟩ ⟨.addMethod k n, ()⟩

/-- The actions do the same. -/
def Action.Like (M N : Mark) (a a' : Action) : Prop :=
  ∃ x x', AnsweredAction.Like M N ⟨a, x⟩ ⟨a', x'⟩

/-- The action has no counterpart: it only copies a key, or it completes a descriptor that is not
compared. -/
def Action.isSilent (M : Mark) : Action → Bool
  | .copyKey _ => true
  | .publish m _ => decide (m.index < M.size)
  | _ => false

theorem rel_symm {α β : Type} {R : α → β → Prop} {R' : β → α → Prop} {x : Option α} {y : Option β}
    (hR : ∀ a b, R a b → R' b a) (h : Option.Rel R x y) : Option.Rel R' y x := by
  cases h with
  | none => exact .none
  | some h => exact .some (hR _ _ h)

theorem AnsweredAction.Like.symm {d d' : AnsweredAction} (h : d.Like M N d') : d'.Like N M d := by
  cases h with
  | findMethod k h => exact .findMethod k (rel_symm (fun _ _ => .symm) h)
  | findPending k h => exact .findPending k (rel_symm (fun _ _ => .symm) h)
  | allocate hd h => exact .allocate hd.symm h.symm
  | addPending k h => exact .addPending k h.symm
  | addMethod k h => exact .addMethod k h.symm
  | publish h r x => exact .publish h.symm r x
  | record o => exact .record o
  | emit e => exact .emit e
  | removePending k => exact .removePending k
  | acquire => exact .acquire
  | release => exact .release

/-! ## Descriptors that are compared -/

/-- What is compared of two stores. -/
structure Store.Like (M N : Mark) (s s' : Store) : Prop where
  next : s.next.Like M N s'.next
  get? : ∀ m n, m.Like M N n → Option.Rel Descriptor.Like (s.get? m) (s'.get? n)

namespace Store

variable {s s' store store' : Store} {m n : MethodId} {d d' : Descriptor} {r : Realization}

theorem get?_allocate (s : Store) (d : Descriptor) (m : MethodId) :
    (s.allocate d).get? m = if m = s.next then some d else s.get? m := by
  obtain ⟨i⟩ := m
  simp [get?, allocate, next, Array.getElem?_push]

/-- The next place and the next serial number stay. -/
theorem next_publish (h : s.publish m r = .ok store) :
    store.next = s.next ∧ store.nextKey = s.nextKey := by
  unfold publish at h
  split at h
  · unfold Descriptor.publish at h
    split at h
    · cases h
      exact ⟨by simp [next], rfl⟩
    · cases h
  · cases h
    exact ⟨rfl, rfl⟩

theorem publish_of_none (hd : s.get? m = none) (r : Realization) : s.publish m r = .ok s := by
  simp only [publish, hd]
  rfl

theorem publish_of_pending (hd : s.get? m = some d) (hr : d.realization = none) (r : Realization) :
    ∃ store, s.publish m r = .ok store ∧ store.get? m = some { d with realization := some r } := by
  have published : ∃ store, s.publish m r = .ok store := by
    simp only [publish, hd, Descriptor.publish, hr]
    exact ⟨_, rfl⟩
  obtain ⟨store, hs⟩ := published
  refine ⟨store, hs, ?_⟩
  rcases (publish_eq_ok hs).2 with ⟨hn, -⟩ | ⟨d', hd', -, complete⟩
  · rw [hn] at hd
    cases hd
  · rw [hd] at hd'
    cases hd'
    exact complete

theorem publish_of_complete {r' : Realization} (hd : s.get? m = some d)
    (hr : d.realization = some r') (r : Realization) :
    s.publish m r = .error (.alreadyRealized d.token) := by
  simp only [publish, hd, Descriptor.publish, hr]
  rfl

namespace Like

theorem symm (h : s.Like M N s') : s'.Like N M s where
  next := h.next.symm
  get? m n hm := rel_symm (fun _ _ => .symm) (h.get? n m hm.symm)

theorem allocate (h : s.Like M N s') (hd : d.Like d') :
    (s.allocate d).Like M N (s'.allocate d') where
  next := by
    have next := h.next
    simp only [MethodId.Like, Store.next, Store.allocate, Array.size_push] at *
    omega
  get? m n hm := by
    rw [get?_allocate, get?_allocate]
    by_cases new : m = s.next
    · rw [if_pos new, if_pos ((hm.eq_iff h.next).1 new)]
      exact .some hd
    · rw [if_neg new, if_neg (mt (hm.eq_iff h.next).2 new)]
      exact h.get? m n hm

/-- Like descriptors are completed alike, or they are both complete already. -/
theorem publish (h : s.Like M N s') (hm : m.Like M N n) (r : Realization) :
    (∃ e, s.publish m r = .error e ∧ s'.publish n r = .error e) ∨
      ∃ store store', s.publish m r = .ok store ∧ s'.publish n r = .ok store' ∧
        store.Like M N store' := by
  have own := h.get? m n hm
  generalize hd : s.get? m = o, hd' : s'.get? n = o' at own
  cases own with
  | none => exact .inr ⟨s, s', publish_of_none hd r, publish_of_none hd' r, h⟩
  | @some d d' like =>
    cases hr : d.realization with
    | some r' =>
      have hr' : d'.realization = some r' := like.realization ▸ hr
      refine .inl ⟨_, publish_of_complete hd hr r, ?_⟩
      rw [like.token]
      exact publish_of_complete hd' hr' r
    | none =>
      have hr' : d'.realization = none := like.realization ▸ hr
      obtain ⟨store, hs, complete⟩ := publish_of_pending hd hr r
      obtain ⟨store', hs', complete'⟩ := publish_of_pending hd' hr' r
      -- Places correspond one to one, so what is not published in one is not in the other.
      refine .inr ⟨store, store', hs, hs', ?_, fun m' n' hm' => ?_⟩
      · rw [(next_publish hs).1, (next_publish hs').1]
        exact h.next
      · by_cases same : m' = m
        · obtain rfl := (hm'.eq_iff hm).1 same
          rw [same, complete, complete']
          exact .some (like.complete r)
        · rw [(publish_eq_ok hs).1 m' same,
            (publish_eq_ok hs').1 n' (mt (hm'.eq_iff hm).2 same)]
          exact h.get? m' n' hm'

/-- What is not compared may be completed. -/
theorem publish_left (h : s.Like M N s') (hm : m.index < M.size)
    (hs : s.publish m r = .ok store) : store.Like M N s' where
  next := by
    rw [(next_publish hs).1]
    exact h.next
  get? m' n' hm' := by
    have other : m' ≠ m := by
      rintro rfl
      exact absurd hm'.1 (Nat.not_le.2 hm)
    rw [(publish_eq_ok hs).1 m' other]
    exact h.get? m' n' hm'

end Like

end Store

/-! ## States -/

/-- The states are the same, as far as they have come from the marks. -/
structure State.Like (M N : Mark) (s s' : State) : Prop where
  methods : s.cache.methods.Like (MethodId.Like M N) s'.cache.methods
  pending : s.cache.pending.Like (MethodId.Like M N) s'.cache.pending
  counters : ∃ c, s.cache.counters = M.counters.add c ∧ s'.cache.counters = N.counters.add c
  store : s.store.Like M N s'.store
  lock : s.lock = s'.lock
  events : ∃ es, s.events = M.events ++ es ∧ s'.events = N.events ++ es

namespace State.Like

variable {s s' : State} {a a' : Action} {t : ThreadId}

theorem symm (h : s.Like M N s') : s'.Like N M s where
  methods := h.methods.symm fun _ _ => .symm
  pending := h.pending.symm fun _ _ => .symm
  counters := h.counters.imp fun _ hc => hc.symm
  store := h.store.symm
  lock := h.lock.symm
  events := h.events.imp fun _ he => he.symm

theorem isEnabled_eq (h : s.Like M N s') (ha : a.Like M N a') :
    a.isEnabled t s = a'.isEnabled t s' := by
  obtain ⟨x, x', ha⟩ := ha
  cases ha with
  | acquire =>
    unfold Action.isEnabled
    rw [h.lock]
  | _ => rfl

/-- What is done alike in like states has like results. -/
theorem apply (h : s.Like M N s') (ha : a.Like M N a') (t : ThreadId) :
    AnsweredAction.Like M N ⟨a, (a.apply t s).1⟩ ⟨a', (a'.apply t s').1⟩ ∧
      (a.apply t s).2.Like M N (a'.apply t s').2 := by
  obtain ⟨x, x', ha⟩ := ha
  cases ha with
  | findMethod k => exact ⟨.findMethod k (h.methods.find? k), h⟩
  | findPending k => exact ⟨.findPending k (h.pending.find? k), h⟩
  | record o =>
    obtain ⟨c, hc, hc'⟩ := h.counters
    refine ⟨.record o, { h with counters := ⟨c.record o, ?_, ?_⟩ }⟩
    · rw [← Counters.record_add, ← hc]
      rfl
    · rw [← Counters.record_add, ← hc']
      rfl
  | emit e =>
    obtain ⟨es, hes, hes'⟩ := h.events
    refine ⟨.emit e, { h with events := ⟨es ++ [e], ?_, ?_⟩ }⟩
    · rw [← List.append_assoc, ← hes]
      rfl
    · rw [← List.append_assoc, ← hes']
      rfl
  | acquire => exact ⟨.acquire, { h with lock := congrArg (MetadataLock.acquire t) h.lock }⟩
  | release => exact ⟨.release, { h with lock := congrArg MetadataLock.release h.lock }⟩
  | allocate hd => exact ⟨.allocate hd h.store.next, { h with store := h.store.allocate hd }⟩
  | addPending k hm => exact ⟨.addPending k hm, { h with pending := h.pending.insert k hm }⟩
  | removePending k => exact ⟨.removePending k, { h with pending := h.pending.erase k }⟩
  | addMethod k hm => exact ⟨.addMethod k hm, { h with methods := h.methods.insert k hm }⟩
  | publish hm r =>
    rcases h.store.publish hm r with ⟨e, he, he'⟩ | ⟨store, store', hs, hs', like⟩
    · simp only [Action.apply, he, he']
      exact ⟨.publish hm r _, h⟩
    · simp only [Action.apply, hs, hs']
      exact ⟨.publish hm r _, { h with store := like }⟩

/-- An action without a counterpart makes no difference. -/
theorem apply_left (h : s.Like M N s') (ha : a.isSilent M = true) (t : ThreadId) :
    (a.apply t s).2.Like M N s' := by
  cases a with
  | copyKey k => exact { h with store := ⟨h.store.next, h.store.get?⟩ }
  | publish m r =>
    simp only [Action.apply]
    split
    · next store hs =>
      exact { h with store := h.store.publish_left (of_decide_eq_true ha) hs }
    · exact h
  | _ => cases ha

end State.Like

end Monomorph
