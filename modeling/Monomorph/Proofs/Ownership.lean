import Monomorph.Proofs.Serving

/-!
Whose a descriptor is. A request owns the descriptor that it has allocated for a key; what has
become of the descriptor can be told from the request's actions (`AnsweredAction.Described`). No two
requests own the same one (`Session.Exclusive`), so what a request gives up without having inserted
it is nobody's, and nobody inserts or completes it later but code outside the cache
(`Session.Discarded`).
-/

namespace Monomorph

/-! ## The descriptors of a request -/

/-- The descriptors that these actions deal with are in the store as the actions say. -/
structure AnsweredAction.Described (s : State) (ds : List AnsweredAction) : Prop where
  allocated : ∀ c : Construction, c.AllocatedBy ds →
    ∃ o, s.store.get? c.method = some (.describing c.key o)
  completed : ∀ m r, ⟨.publish m r, .ok ()⟩ ∈ ds → ∃ c : Construction, c.AllocatedBy ds ∧
    c.method = m ∧ s.store.get? m = some (.describing c.key (some r))
  /-- A descriptor that could not be completed had been completed before. -/
  refused : ∀ m r e, ⟨.publish m r, .error e⟩ ∈ ds →
    ∃ (c : Construction) (r' : Realization), c.AllocatedBy ds ∧ c.method = m ∧
      s.store.get? m = some (.describing c.key (some r')) ∧
      e = .alreadyRealized c.definition.token

theorem Construction.AllocatedBy.cons {c : Construction} {ds : List AnsweredAction}
    (h : c.AllocatedBy ds)
    (d : AnsweredAction) : c.AllocatedBy (d :: ds) :=
  List.mem_cons_of_mem _ h

namespace AnsweredAction.Described

variable {p : MethodId → Prop} {s s' : State} {ds : List AnsweredAction} {d : AnsweredAction}

theorem nil (s : State) : Described s [] where
  allocated _ h := by cases h
  completed _ _ h := by cases h
  refused _ _ _ h := by cases h

theorem mono (h : Described s ds) (store : s.store.Extends p s'.store) : Described s' ds where
  allocated c hc := by
    obtain ⟨o, hd⟩ := h.allocated c hc
    obtain ⟨o', hd', -⟩ := store.describing hd
    exact ⟨o', hd'⟩
  completed m r hm := by
    obtain ⟨c, hc, hm, hd⟩ := h.completed m r hm
    exact ⟨c, hc, hm, store.complete hd rfl⟩
  refused m r e hm := by
    obtain ⟨c, r', hc, hm, hd, he⟩ := h.refused m r e hm
    exact ⟨c, r', hc, hm, store.complete hd rfl, he⟩

/-- What has to be checked of one more action. -/
theorem cons (h : Described s ds)
    (allocated : ∀ c : Construction, ⟨.allocate (.ofKey c.key), c.method⟩ = d →
      ∃ o, s.store.get? c.method = some (.describing c.key o))
    (completed : ∀ m r, ⟨.publish m r, .ok ()⟩ = d → ∃ c : Construction, c.AllocatedBy ds ∧
      c.method = m ∧ s.store.get? m = some (.describing c.key (some r)))
    (refused : ∀ m r e, ⟨.publish m r, .error e⟩ = d →
      ∃ (c : Construction) (r' : Realization), c.AllocatedBy ds ∧ c.method = m ∧
        s.store.get? m = some (.describing c.key (some r')) ∧
        e = .alreadyRealized c.definition.token) : Described s (d :: ds) where
  allocated c hc := by
    rcases List.mem_cons.1 hc with hd | hc
    · exact allocated c hd
    · exact h.allocated c hc
  completed m r hm := by
    have old : ∃ c : Construction, c.AllocatedBy ds ∧ c.method = m ∧
        s.store.get? m = some (.describing c.key (some r)) := by
      rcases List.mem_cons.1 hm with hd | hm
      · exact completed m r hd
      · exact h.completed m r hm
    obtain ⟨c, hc, rest⟩ := old
    exact ⟨c, hc.cons d, rest⟩
  refused m r e hm := by
    have old : ∃ (c : Construction) (r' : Realization), c.AllocatedBy ds ∧ c.method = m ∧
        s.store.get? m = some (.describing c.key (some r')) ∧
        e = .alreadyRealized c.definition.token := by
      rcases List.mem_cons.1 hm with hd | hm
      · exact refused m r e hd
      · exact h.refused m r e hm
    obtain ⟨c, r', hc, rest⟩ := old
    exact ⟨c, r', hc.cons d, rest⟩

end AnsweredAction.Described

/-- What an action allocates was not in the store. -/
theorem AnsweredAction.Takes.method_eq_next {d : AnsweredAction} {t : ThreadId} {s s' : State}
    {c : Construction}
    (takes : d.Takes t s s') (hc : ⟨.allocate (.ofKey c.key), c.method⟩ = d) :
    c.method = s.store.next := by
  subst hc
  exact takes.response_eq

/-- An action leaves a descriptor as it is, or completes it. -/
theorem AnsweredAction.Takes.get?_kept {d : AnsweredAction} {t : ThreadId} {s s' : State}
    {n : MethodId}
    {x : Descriptor} (takes : d.Takes t s s') (hx : s.store.get? n = some x) :
    s'.store.get? n = some x ∨ ∃ r, d = ⟨.publish n r, .ok ()⟩ := by
  obtain ⟨a, y⟩ := d
  cases a with
  | publish m r =>
    cases y with
    | error e =>
      rw [takes.publish_error.2]
      exact .inl hx
    | ok =>
      obtain ⟨store, hs, rfl⟩ := takes.publish_ok
      by_cases hn : n = m
      · exact .inr ⟨r, by rw [hn]⟩
      · exact .inl (((Store.publish_eq_ok hs).1 n hn).trans hx)
  | allocate d =>
    rw [takes.state_eq]
    exact .inl (Store.get?_allocate_of_some hx)
  | _ =>
    rw [takes.state_eq]
    exact .inl hx

section Step

variable {K : Contract} {g : Engine} {a : Aim} {ds : List AnsweredAction} {d : AnsweredAction}
  {φ φ' : Phase}
  {t : ThreadId} {s s' : State}

/-- The descriptors of a request are as its actions say, by one more of its actions. -/
theorem Phase.Step.described (h : φ.Step K g d φ') (takes : d.Takes t s s')
    (reached : Reached K g a ds φ) (hds : AnsweredAction.Described s ds) :
    AnsweredAction.Described s' (d :: ds) := by
  have old : AnsweredAction.Described s' ds := hds.mono (h.store_extends takes)
  cases h with
  | @allocate k h m hk =>
    refine old.cons (fun c hc => ?_) (by simp) (by simp)
    obtain ⟨rfl, rfl⟩ : c.key = h ∧ c.method = m := by simpa using hc
    rw [takes.state_eq, show c.method = s.store.next from takes.response_eq]
    exact ⟨none, s.store.get?_allocate_next _⟩
  | @publish c r builds =>
    refine old.cons (by simp) (fun m r' hm => ?_) (by simp)
    obtain ⟨rfl, rfl⟩ : m = c.method ∧ r' = r := by simpa using hm
    have hc : c.AllocatedBy ds := reached.allocates rfl
    obtain ⟨o, hd⟩ := hds.allocated c hc
    exact ⟨c, hc, rfl, (takes.describing_of_publish hd).2⟩
  | @refuse c r e =>
    refine old.cons (by simp) (by simp) (fun m r' e' hm => ?_)
    obtain ⟨⟨rfl, rfl⟩, rfl⟩ : (m = c.method ∧ r' = r) ∧ e' = e := by simpa using hm
    have hc : c.AllocatedBy ds := reached.allocates rfl
    obtain ⟨o, hd⟩ := hds.allocated c hc
    obtain ⟨complete, he⟩ := takes.describing_of_refuse hd
    obtain ⟨r₀, rfl⟩ := Option.ne_none_iff_exists'.1 complete
    rw [takes.publish_error.2]
    exact ⟨c, r₀, hc, rfl, hd, he⟩
  | _ => exact old.cons (by simp) (by simp) (by simp)

end Step

namespace Session

variable {K : Contract} {g : Engine} {t : ThreadId} {ok : Session → Move → Prop}
  {X Y : Session} {φs : List Phase} {tr : List Move} {m : Move} {n : MethodId} {c : Construction}
  {f : Activity} {fs : List Activity} {d : AnsweredAction}

/-- The descriptor may be completed by the move: the innermost request owns it, or code outside
the cache completes it. -/
def Completes (X : Session) (m : Move) (n : MethodId) : Prop :=
  (∃ f st, ∃ c : Construction, X.stack = f :: st ∧ c.AllocatedBy f.actions ∧ n = c.method) ∨
    ∃ r, m = .outside (.publish n r)

theorem Step.store_extends (h : Step g t X m Y) (stands : Stands K g X.state X.stack φs) :
    X.state.store.Extends (X.Completes m) Y.state.store := by
  cases h with
  | @act s s' f st d next rest takes =>
    obtain ⟨φ, φs, -, serves, -⟩ := stands.exists_serves rfl
    obtain ⟨φ', step, -⟩ := serves.step rest takes
    refine (step.store_extends takes).mono ?_
    rintro n ⟨c, rfl, rfl⟩
    exact .inl ⟨f, st, c, rfl, serves.reached.allocates rfl, rfl⟩
  | @outside s _ a _ outside =>
    have quiet : s.Quiet (fun n => ∃ r, a = .publish n r) (a.apply t s).2 :=
      Action.quiet_of_isOutside outside fun n r ha => ⟨r, ha⟩
    refine quiet.store.mono ?_
    rintro n ⟨r, rfl⟩
    exact .inr ⟨r, rfl⟩
  | request | nest | answer | finish | hold | unhold | reset => exact .refl _ _

/-- A move leaves a descriptor as it is, or completes it. -/
theorem Step.get?_kept {x : Descriptor} (h : Step g t X m Y)
    (hx : X.state.store.get? n = some x) : Y.state.store.get? n = some x ∨
      (∃ r, m = .act ⟨.publish n r, .ok ()⟩) ∨
      ∃ r, m = .outside (.publish n r) ∧
        Y.state.store.get? n = some { x with realization := some r } := by
  cases h with
  | act rest takes => exact (takes.get?_kept hx).imp_right fun ⟨r, hr⟩ => .inl ⟨r, by rw [hr]⟩
  | @outside s st a turn outside =>
    cases a with
    | publish m r =>
      simp only [Action.apply]
      split
      · next store hs =>
        obtain ⟨others, own⟩ := Store.publish_eq_ok hs
        by_cases hn : n = m
        · subst hn
          rcases own with ⟨hm, -⟩ | ⟨x', hx', -, hs⟩
          · rw [hm] at hx
            cases hx
          · rw [hx] at hx'
            cases hx'
            exact .inr (.inr ⟨r, rfl, hs⟩)
        · exact .inl ((others n hn).trans hx)
      · exact .inl hx
    | allocate d => exact .inl (Store.get?_allocate_of_some hx)
    | emit e | copyKey k => exact .inl hx
    | _ => cases outside
  | request | nest | answer | finish | hold | unhold | reset => exact .inl hx

/-- The descriptors of all requests are as their actions say. -/
def Described (X : Session) : Prop := ∀ f ∈ X.stack, AnsweredAction.Described X.state f.actions

theorem Described.step (h : X.Described) (move : Step g t X m Y)
    (stands : Stands K g X.state X.stack φs) : Y.Described := by
  have store := move.store_extends stands
  intro f hf
  cases move with
  | request | nest =>
    rcases List.mem_cons.1 hf with rfl | hf
    · exact .nil _
    · exact h f hf
  | act rest takes =>
    rcases List.mem_cons.1 hf with rfl | hf
    · obtain ⟨φ, φs, -, serves, -⟩ := stands.exists_serves rfl
      obtain ⟨φ', step, -⟩ := serves.step rest takes
      exact step.described takes serves.reached (h _ List.mem_cons_self)
    · exact (h f (List.mem_cons_of_mem _ hf)).mono store
  | @answer _ f₀ =>
    rcases List.mem_cons.1 hf with rfl | hf
    · exact h f₀ List.mem_cons_self
    · exact h f (List.mem_cons_of_mem _ hf)
  | finish => exact h f (List.mem_cons_of_mem _ hf)
  | outside | hold | unhold | reset => exact (h f hf).mono store

/-! ## Nobody shares a descriptor -/

/-- No descriptor is of two requests, and a complete instance is of nobody, or of the one who has
inserted it. -/
structure Exclusive (X : Session) : Prop where
  described : X.Described
  apart : X.stack.Pairwise fun a b => ∀ c c' : Construction, c.AllocatedBy a.actions →
    c'.AllocatedBy b.actions → c.method ≠ c'.method
  cached : ∀ k m, X.state.cache.methods.find? k = some m → ∀ a ∈ X.stack, ∀ c : Construction,
    c.AllocatedBy a.actions → c.method = m → ⟨.addMethod k m, ()⟩ ∈ a.actions

/-- An action of the innermost request does not give it what others have. -/
theorem Exclusive.apart_act {s s' : State} (h : Exclusive ⟨s, f :: fs⟩) (takes : d.Takes t s s')
    (p : Program MethodResult) :
    ({ f with actions := d :: f.actions, rest := p } :: fs).Pairwise fun a b =>
      ∀ c c' : Construction, c.AllocatedBy a.actions → c'.AllocatedBy b.actions →
        c.method ≠ c'.method := by
  obtain ⟨own, others⟩ := List.pairwise_cons.1 h.apart
  refine List.pairwise_cons.2 ⟨fun b hb c c' hc hc' => ?_, others⟩
  rcases List.mem_cons.1 hc with hc | hc
  · obtain ⟨o, hd⟩ := (h.described b (List.mem_cons_of_mem _ hb)).allocated c' hc'
    rw [takes.method_eq_next hc]
    exact (Store.ne_next hd).symm
  · exact own b hb c c' hc hc'

/-- What the innermost request owns of the instances it has inserted, by one more action. -/
theorem Exclusive.cached_act {s s' : State} (h : Exclusive ⟨s, f :: fs⟩)
    (sound : Sound K g ⟨s, f :: fs⟩ φs) {next : d.action.Response → Program MethodResult}
    (rest : f.rest = .act d.action next) (takes : d.Takes t s s') {k : MethodKey}
    (hk : s'.cache.methods.find? k = some n) {a : Activity}
    (ha : a ∈ { f with actions := d :: f.actions, rest := next d.response } :: fs)
    (hc : c.AllocatedBy a.actions) (hn : c.method = n) : ⟨.addMethod k n, ()⟩ ∈ a.actions := by
  obtain ⟨φ, φs, rfl, serves, -⟩ := sound.stands.exists_serves rfl
  obtain ⟨φ', step, -⟩ := serves.step rest takes
  have old : s.cache.methods.find? k = some n → ⟨.addMethod k n, ()⟩ ∈ a.actions := by
    intro hk
    obtain ⟨-, l, r, -, hd, -⟩ := sound.built hk
    rcases List.mem_cons.1 ha with rfl | ha
    · rcases List.mem_cons.1 hc with hc | hc
      · exact absurd (hn ▸ takes.method_eq_next hc) (Store.ne_next hd)
      · exact List.mem_cons_of_mem _ (h.cached k n hk f List.mem_cons_self c hc hn)
    · exact h.cached k n hk a (List.mem_cons_of_mem _ ha) c hc hn
  rcases step.methods_eq takes with ⟨hm, -⟩ | ⟨c₀, r, rfl, rfl, hm⟩
  · exact old (hm ▸ hk)
  · by_cases hkey : k = c₀.key.key
    · subst hkey
      rw [hm, Table.find?_insert_self] at hk
      cases hk
      rcases List.mem_cons.1 ha with rfl | ha
      · exact List.mem_cons_self
      · have hc₀ : c₀.AllocatedBy f.actions := serves.reached.allocates rfl
        exact absurd hn.symm ((List.pairwise_cons.1 h.apart).1 a ha c₀ c hc₀ hc)
    · rw [hm, Table.find?_insert_of_ne _ _ hkey] at hk
      exact old hk

theorem Exclusive.step (h : X.Exclusive) (sound : X.Sound K g φs) (move : Step g t X m Y) :
    Y.Exclusive := by
  have described := h.described.step move sound.stands
  cases move with
  | request | nest =>
    refine ⟨described, List.pairwise_cons.2 ⟨fun b hb c c' hc => (by cases hc), h.apart⟩, ?_⟩
    intro k n hk a ha c hc
    rcases List.mem_cons.1 ha with rfl | ha
    · cases hc
    · exact h.cached k n hk a ha c hc
  | act rest takes =>
    refine ⟨described, h.apart_act takes _, ?_⟩
    intro k n hk a ha c hc hn
    exact h.cached_act sound rest takes hk ha hc hn
  | @answer _ f =>
    obtain ⟨own, others⟩ := List.pairwise_cons.1 h.apart
    refine ⟨described, List.pairwise_cons.2 ⟨own, others⟩, ?_⟩
    intro k n hk a ha c hc
    rcases List.mem_cons.1 ha with rfl | ha
    · exact h.cached k n hk f List.mem_cons_self c hc
    · exact h.cached k n hk a (List.mem_cons_of_mem _ ha) c hc
  | finish =>
    refine ⟨described, (List.pairwise_cons.1 h.apart).2, ?_⟩
    exact fun k n hk a ha => h.cached k n hk a (List.mem_cons_of_mem _ ha)
  | @outside s _ a _ outside =>
    have quiet : s.Quiet (fun _ => True) (a.apply t s).2 :=
      Action.quiet_of_isOutside outside fun _ _ _ => trivial
    refine ⟨described, h.apart, fun k n hk => ?_⟩
    rw [quiet.methods] at hk
    exact h.cached k n hk
  | hold | unhold => exact ⟨described, h.apart, h.cached⟩
  | reset => exact ⟨described, h.apart, fun k n hk => by cases hk⟩

theorem Run.exclusive (run : Run g t ok X tr Y) (resets : ∀ Z m, ok Z m → ResetsIdle Z m)
    (fresh : X.state.IsFresh) (idle : X.stack = []) : Y.Exclusive := by
  induction run with
  | nil => exact ⟨by simp [Described, idle], by simp [idle], by simp [idle]⟩
  | step run _ move ih =>
    obtain ⟨P, h⟩ := (run.mono resets).consistent_any fresh idle
    exact ih.step h.sound move

theorem Reachable.exclusive (h : X.Reachable g t ok) (resets : ∀ Z m, ok Z m → ResetsIdle Z m) :
    X.Exclusive := by
  obtain ⟨W, tr, fresh, idle, run⟩ := h
  exact run.exclusive resets fresh idle

/-- What has become of the descriptors of a request that has ended can still be told from its
actions. -/
theorem Run.described_ended (run : Run g t ok X tr Y) (resets : ∀ Z m, ok Z m → ResetsIdle Z m)
    (fresh : X.state.IsFresh) (idle : X.stack = []) {r : MethodResult}
    (hf : Move.finish f r ∈ tr) : AnsweredAction.Described Y.state f.actions := by
  induction run with
  | nil => cases hf
  | step run _ move ih =>
    obtain ⟨P, h⟩ := (run.mono resets).consistent_any fresh idle
    rcases List.mem_cons.1 hf with rfl | hf
    · have described := (run.exclusive resets fresh idle).described
      cases move with
      | finish => exact described f List.mem_cons_self
    · exact (ih hf).mono (move.store_extends h.sound.stands)

/-- A complete descriptor stays as it is. -/
theorem Reachable.complete_kept (h : X.Reachable g t ok)
    (resets : ∀ Z m, ok Z m → ResetsIdle Z m) {x : Descriptor} {r : Realization}
    (hx : X.state.store.get? n = some x) (hr : x.realization = some r)
    (run : Run g t ok X tr Y) : Y.state.store.get? n = some x := by
  induction run with
  | nil => exact hx
  | step run _ move ih =>
    obtain ⟨φs, sound⟩ := (h.run run).sound resets
    exact (move.store_extends sound.stands).complete ih hr

/-! ## Descriptors that nobody owns -/

/-- The descriptor of the construction has been given up. -/
structure Discarded (X : Session) (c : Construction) : Prop where
  descriptor : ∃ o, X.state.store.get? c.method = some (.describing c.key o)
  unowned : ∀ a ∈ X.stack, ∀ c' : Construction, c'.AllocatedBy a.actions → c'.method ≠ c.method
  uncached : ∀ k, X.state.cache.methods.find? k ≠ some c.method

theorem Discarded.step (h : X.Discarded c) (sound : X.Sound K g φs) (move : Step g t X m Y) :
    Y.Discarded c := by
  have store := move.store_extends sound.stands
  obtain ⟨o, hd⟩ := h.descriptor
  obtain ⟨o', hd', -⟩ := store.describing hd
  have described : ∃ o, Y.state.store.get? c.method = some (.describing c.key o) := ⟨o', hd'⟩
  cases move with
  | request | nest =>
    refine ⟨described, fun a ha c' hc' => ?_, h.uncached⟩
    rcases List.mem_cons.1 ha with rfl | ha
    · cases hc'
    · exact h.unowned a ha c' hc'
  | @act s s' f st d next rest takes =>
    refine ⟨described, fun a ha c' hc' => ?_, fun k hk => ?_⟩
    · rcases List.mem_cons.1 ha with rfl | ha
      · rcases List.mem_cons.1 hc' with hc' | hc'
        · rw [takes.method_eq_next hc']
          exact (Store.ne_next hd).symm
        · exact h.unowned f List.mem_cons_self c' hc'
      · exact h.unowned a (List.mem_cons_of_mem _ ha) c' hc'
    · obtain ⟨φ, φs, -, serves, -⟩ := sound.stands.exists_serves rfl
      obtain ⟨φ', step, -⟩ := serves.step rest takes
      rcases step.methods_eq takes with ⟨hm, -⟩ | ⟨c₀, r, rfl, -, hm⟩
      · exact h.uncached k (hm ▸ hk)
      · have other : c₀.method ≠ c.method :=
          h.unowned f List.mem_cons_self c₀ (serves.reached.allocates rfl)
        by_cases hkey : k = c₀.key.key
        · subst hkey
          rw [hm, Table.find?_insert_self] at hk
          exact other (Option.some.inj hk)
        · rw [hm, Table.find?_insert_of_ne _ _ hkey] at hk
          exact h.uncached k hk
  | @answer _ f =>
    refine ⟨described, fun a ha => ?_, h.uncached⟩
    rcases List.mem_cons.1 ha with rfl | ha
    · exact h.unowned f List.mem_cons_self
    · exact h.unowned a (List.mem_cons_of_mem _ ha)
  | finish => exact ⟨described, fun a ha => h.unowned a (List.mem_cons_of_mem _ ha), h.uncached⟩
  | @outside s _ a _ outside =>
    have quiet : s.Quiet (fun _ => True) (a.apply t s).2 :=
      Action.quiet_of_isOutside outside fun _ _ _ => trivial
    exact ⟨described, h.unowned, by rw [quiet.methods]; exact h.uncached⟩
  | hold | unhold => exact ⟨described, h.unowned, h.uncached⟩
  | reset => exact ⟨described, h.unowned, nofun⟩

/-- What a request that ends has allocated and not inserted is given up. -/
theorem Exclusive.discarded {s : State} (h : Exclusive ⟨s, f :: fs⟩)
    (hc : c.AllocatedBy f.actions) (hf : ∀ k, ⟨.addMethod k c.method, ()⟩ ∉ f.actions) :
    Discarded ⟨s, fs⟩ c where
  descriptor := (h.described f List.mem_cons_self).allocated c hc
  unowned a ha c' hc' := ((List.pairwise_cons.1 h.apart).1 a ha c c' hc hc').symm
  uncached k hk := hf k (h.cached k _ hk f List.mem_cons_self c hc rfl)

/-- Nobody completes a discarded descriptor but code outside the cache. -/
theorem Discarded.pending_step (h : X.Discarded c) (sound : X.Sound K g φs)
    (move : Step g t X m Y) (hd : X.state.store.get? c.method = some (.ofKey c.key)) :
    Y.state.store.get? c.method = some (.ofKey c.key) ∨
      ∃ r, m = .outside (.publish c.method r) := by
  rcases move.store_extends sound.stands c.method _ hd with hd | ⟨completes, -⟩
  · exact .inl hd
  · rcases completes with ⟨f, st, c', hX, hc', hm⟩ | outside
    · exact absurd hm.symm (h.unowned f (hX ▸ List.mem_cons_self) c' hc')
    · exact .inr outside

/-- A discarded descriptor stays pending and out of the table, unless code outside the cache
completes it. -/
theorem Reachable.discarded (reach : X.Reachable g t ok)
    (resets : ∀ Z m, ok Z m → ResetsIdle Z m) (h : X.Discarded c) (later : Run g t ok X tr Y) :
    Y.Discarded c ∧ (X.state.store.get? c.method = some (.ofKey c.key) →
      Y.state.store.get? c.method = some (.ofKey c.key) ∨
        ∃ r, Move.outside (.publish c.method r) ∈ tr) := by
  induction later with
  | nil => exact ⟨h, .inl⟩
  | step later _ move ih =>
    obtain ⟨discarded, pending⟩ := ih
    obtain ⟨φs, sound⟩ := (reach.run later).sound resets
    refine ⟨discarded.step sound move, fun hX => ?_⟩
    rcases pending hX with hd | ⟨r, hr⟩
    · rcases discarded.pending_step sound move hd with hd | ⟨r, rfl⟩
      · exact .inl hd
      · exact .inr ⟨r, List.mem_cons_self⟩
    · exact .inr ⟨r, List.mem_cons_of_mem _ hr⟩

end Session

end Monomorph
