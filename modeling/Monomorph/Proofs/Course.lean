import Monomorph.Proofs.Ownership

/-!
What holds in every run of any threads, also if instances are forgotten in the midst of
constructions: every request goes through its phases and has its descriptors as its actions say,
what is in the tables has been asked for, and what is complete has been built within the contract.
Main statement: `System.Run.course`.
-/

namespace Monomorph

open Phase

/-! ## Moves and the state -/

/-- The call that the move makes. -/
def Move.call? : Move → Option Call
  | request c => some c
  | nest c => some c
  | _ => none

/-- The calls that have been made, the latest first. -/
def calls (tr : List (ThreadId × Move)) : List Call := tr.filterMap fun e => e.2.call?

namespace AnsweredAction.Takes

variable {d : AnsweredAction} {t : ThreadId} {s s' : State} {k : MethodKey} {n : MethodId}

/-- An action completes a descriptor, or it leaves all of them as they are. -/
theorem store_extends (h : d.Takes t s s') :
    s.store.Extends (fun m => ∃ r, d = ⟨.publish m r, .ok ()⟩) s'.store := by
  obtain ⟨a, x⟩ := d
  cases a with
  | publish m r =>
    cases x with
    | error e =>
      rw [h.publish_error.2]
      exact .refl _ s.store
    | ok =>
      obtain ⟨store, hs, rfl⟩ := h.publish_ok
      exact (Store.extends_publish hs).mono fun n hn => ⟨r, by rw [hn]⟩
  | allocate d =>
    rw [h.state_eq]
    exact s.store.extends_allocate _ d
  | _ =>
    rw [h.state_eq]
    exact .refl _ s.store

/-- What is complete after an action was so before, or is inserted by it. -/
theorem methods_find? (h : d.Takes t s s') (hk : s'.cache.methods.find? k = some n) :
    s.cache.methods.find? k = some n ∨ d = ⟨.addMethod k n, ()⟩ := by
  obtain ⟨a, x⟩ := d
  cases a with
  | addMethod l m =>
    rw [h.state_eq] at hk
    by_cases hl : k = l
    · subst hl
      refine .inr ?_
      obtain rfl : m = n := by simpa [Action.apply] using hk
      rfl
    · exact .inl ((Table.find?_insert_of_ne _ m hl).symm.trans hk)
  | publish =>
    rw [h.publish_frame.1] at hk
    exact .inl hk
  | _ =>
    rw [h.state_eq] at hk
    exact .inl hk

/-- What is pending after an action was so before, or is made pending by it. -/
theorem pending_find? (h : d.Takes t s s') (hk : s'.cache.pending.find? k = some n) :
    s.cache.pending.find? k = some n ∨ d = ⟨.addPending k n, ()⟩ := by
  obtain ⟨a, x⟩ := d
  cases a with
  | addPending l m =>
    rw [h.state_eq] at hk
    by_cases hl : k = l
    · subst hl
      refine .inr ?_
      obtain rfl : m = n := by simpa [Action.apply] using hk
      rfl
    · exact .inl ((Table.find?_insert_of_ne _ m hl).symm.trans hk)
  | removePending l =>
    rw [h.state_eq] at hk
    by_cases hl : k = l
    · subst hl
      simp [Action.apply] at hk
    · exact .inl ((Table.find?_erase_of_ne _ hl).symm.trans hk)
  | publish =>
    rw [h.publish_frame.1] at hk
    exact .inl hk
  | _ =>
    rw [h.state_eq] at hk
    exact .inl hk

end AnsweredAction.Takes

namespace Session.Step

variable {g : Engine} {t : ThreadId} {X Y : Session} {m : Move} {f : Activity}

/-- What a move does to the state: it is an action of a request, or something that code outside the
cache does, or else it leaves the descriptors alone and puts nothing in the tables. -/
theorem state_cases (h : Step g t X m Y) :
    (∃ d, m = .act d ∧ ∃ f ∈ X.stack, ∃ next, f.rest = .act d.action next ∧
      d.Takes t X.state Y.state) ∨
    (∃ a, m = .outside a ∧ a.isOutside = true ∧ Y.state = (a.apply t X.state).2) ∨
    Y.state.store = X.state.store ∧
      (Y.state.cache = X.state.cache ∨ Y.state.cache = X.state.cache.reset) := by
  cases h with
  | act rest takes => exact .inl ⟨_, rfl, _, List.mem_cons_self, _, rest, takes⟩
  | outside turn outside => exact .inr (.inl ⟨_, rfl, outside, rfl⟩)
  | reset => exact .inr (.inr ⟨rfl, .inr rfl⟩)
  | request | nest | answer | finish | hold | unhold => exact .inr (.inr ⟨rfl, .inl rfl⟩)

/-- Only an action of a request puts something in the tables. -/
theorem find?_cases (h : Step g t X m Y) :
    (∃ d, m = .act d ∧ ∃ f ∈ X.stack, ∃ next, f.rest = .act d.action next ∧
      d.Takes t X.state Y.state) ∨
    ∀ k n,
      (Y.state.cache.methods.find? k = some n → X.state.cache.methods.find? k = some n) ∧
      (Y.state.cache.pending.find? k = some n → X.state.cache.pending.find? k = some n) := by
  rcases h.state_cases with acts | ⟨a, -, outside, hs⟩ | ⟨-, hs | hs⟩
  · exact .inl acts
  · have quiet : X.state.Quiet (fun _ => True) Y.state := by
      rw [hs]
      exact Action.quiet_of_isOutside outside fun _ _ _ => trivial
    rw [quiet.methods, quiet.pending]
    exact .inr fun k n => ⟨id, id⟩
  · rw [hs]
    exact .inr fun k n => ⟨id, id⟩
  · rw [hs]
    exact .inr fun k n => ⟨nofun, nofun⟩

/-- An action is done by the innermost request. -/
theorem act_cases {d : AnsweredAction} (h : Step g t X (.act d) Y) : ∃ f next, f ∈ X.stack ∧
    f.rest = .act d.action next ∧ d.Takes t X.state Y.state := by
  cases h with
  | act rest takes => exact ⟨_, _, List.mem_cons_self, rest, takes⟩

theorem finish_cases {r : MethodResult} (h : Step g t X (.finish f r) Y) :
    f ∈ X.stack ∧ f.rest = .done r := by
  cases h with
  | finish rest => exact ⟨List.mem_cons_self, rest⟩

/-- A request on the stack was there before, or is made now, or has gone on by itself. -/
theorem mem_stack (h : Step g t X m Y) (hf : f ∈ Y.stack) :
    f ∈ X.stack ∨ (∃ c, m.call? = some c ∧ f = .made c g X.state) ∨
      ∃ f₀ ∈ X.stack, f₀.Goes t X.state m f Y.state := by
  cases h with
  | request c | nest c =>
    rcases List.mem_cons.1 hf with rfl | hf
    · exact .inr (.inl ⟨c, rfl, rfl⟩)
    · exact .inl hf
  | act rest takes =>
    rcases List.mem_cons.1 hf with rfl | hf
    · exact .inr (.inr ⟨_, List.mem_cons_self, .act rest takes⟩)
    · exact .inl (List.mem_cons_of_mem _ hf)
  | answer rest x =>
    rcases List.mem_cons.1 hf with rfl | hf
    · exact .inr (.inr ⟨_, List.mem_cons_self, .answer rest x⟩)
    · exact .inl (List.mem_cons_of_mem _ hf)
  | finish => exact .inl (List.mem_cons_of_mem _ hf)
  | outside | hold | unhold | reset => exact .inl hf

theorem store_extends_any (h : Step g t X m Y) :
    X.state.store.Extends (fun _ => True) Y.state.store := by
  rcases h.state_cases with ⟨d, -, f, -, next, -, takes⟩ | ⟨a, -, outside, hs⟩ | ⟨hs, -⟩
  · exact takes.store_extends.mono fun _ _ => trivial
  · rw [hs]
    exact (Action.quiet_of_isOutside outside fun _ _ _ => trivial).store
  · rw [hs]
    exact .refl _ _

end Session.Step

/-! ## One request -/

/-- The request has come to the phase by its actions, and goes on from there. -/
structure Activity.Courses (K : Contract) (g : Engine) (f : Activity) (φ : Phase) : Prop where
  follows : f.rest.Follows K g (Phase.Ends g) φ
  reached : Phase.Reached K g (f.call.aim g) f.actions φ

/-- No answer is against the contract. -/
def Contract.Admits (K : Contract) : Move → Prop
  | .answer _ q x => K.answers q x
  | _ => True

theorem Contract.any_admits (m : Move) : Contract.any.Admits m := by
  cases m <;> trivial

namespace Activity.Courses

variable {K : Contract} {g : Engine} {f f' : Activity} {φ : Phase} {t : ThreadId} {s s' : State}
  {m : Move}

theorem made (K : Contract) (g : Engine) (c : Call) (s : State) :
    (Activity.made c g s).Courses K g (.asked (c.aim g)) :=
  ⟨c.program_follows K g, .asked⟩

theorem step (h : f.Courses K g φ) {d : AnsweredAction}
    {next : d.action.Response → Program MethodResult}
    (rest : f.rest = .act d.action next) (takes : d.Takes t s s') :
    ∃ φ', φ.Step K g d φ' ∧ (next d.response).Follows K g (Phase.Ends g) φ' := by
  have follows := h.follows
  rw [rest] at follows
  exact follows d.response takes.canYield

theorem goes (h : f.Courses K g φ) (goes : f.Goes t s m f' s') (admits : K.Admits m) :
    ∃ φ', f'.Courses K g φ' := by
  cases goes with
  | act rest takes =>
    obtain ⟨φ', step, follows⟩ := h.step rest takes
    exact ⟨φ', follows, h.reached.step step⟩
  | answer rest x =>
    have follows := h.follows
    rw [rest] at follows
    exact ⟨φ, follows.2 x admits, h.reached⟩

theorem ends (h : f.Courses K g φ) {r : MethodResult} (rest : f.rest = .done r) : φ.Ends g r := by
  have follows := h.follows
  rw [rest] at follows
  exact follows

/-- The construction that a request asks for is the one that it builds. -/
theorem construction?_eq (h : f.Courses K g φ) {c : Construction}
    (asks : f.construction? = some c) : φ = .building c := by
  have follows := h.follows
  unfold construction? at asks
  split at asks
  · next rest =>
    cases asks
    rw [rest] at follows
    exact follows.1
  · cases asks

/-- A request deals with the descriptors of its actions, and of its next action. -/
theorem described (h : f.Courses K g φ) (goes : f.Goes t s m f' s')
    (hds : AnsweredAction.Described s f.actions) : AnsweredAction.Described s' f'.actions := by
  cases goes with
  | act rest takes =>
    obtain ⟨φ', step, -⟩ := h.step rest takes
    exact step.described takes h.reached hds
  | answer => exact hds

end Activity.Courses

section Phases

variable {K : Contract} {g : Engine} {a : Aim} {ds : List AnsweredAction} {d : AnsweredAction}
  {φ φ' : Phase}
  {k : MethodKey} {n : MethodId}

/-- A request only puts the key in the tables that it is after. -/
theorem Phase.Step.aim_of_adds (h : φ.Step K g d φ')
    (hd : d = ⟨.addMethod k n, ()⟩ ∨ d = ⟨.addPending k n, ()⟩) : φ.aim = .key k := by
  cases h with
  | insert =>
    obtain ⟨rfl, rfl⟩ : _ = k ∧ _ = n := by simpa using hd
    rfl
  | claim =>
    obtain ⟨rfl, rfl⟩ : _ = k ∧ _ = n := by simpa using hd
    rfl
  | _ => simp at hd

theorem Phase.Step.of_addMethod (h : φ.Step K g ⟨.addMethod k n, ()⟩ φ') :
    ∃ c r, φ = .published c r ∧ c.key.key = k ∧ c.method = n := by
  cases h with
  | insert => exact ⟨_, _, rfl, rfl, rfl⟩

theorem Phase.Step.of_publish {r : Realization} (h : φ.Step K g ⟨.publish n r, .ok ()⟩ φ') :
    ∃ c, φ = .building c ∧ φ' = .published c r ∧ c.method = n ∧ K.builds c r := by
  cases h with
  | publish builds => exact ⟨_, rfl, rfl, rfl, builds⟩

/-- A descriptor has been completed by the request that has published it. -/
theorem Phase.Reached.completes {c : Construction} {r : Realization}
    (h : Reached K g a ds (.published c r)) : ⟨.publish c.method r, .ok ()⟩ ∈ ds := by
  cases h with
  | step _ step =>
    cases step with
    | publish => exact List.mem_cons_self

/-- What a request has published is a complete descriptor of the construction that it has begun. -/
theorem Phase.Reached.published_describing {s : State} {c : Construction} {r : Realization}
    (h : Reached K g a ds (.published c r)) (hds : AnsweredAction.Described s ds) :
    s.store.get? c.method = some (.describing c.key (some r)) := by
  obtain ⟨c', hc', -, hd⟩ := hds.completed _ _ h.completes
  obtain rfl : c = c' := Option.some.inj (h.isOf hc')
  exact hd

end Phases

/-! ## Runs -/

/-- A construction has completed the descriptor so. -/
def Completed (tr : List (ThreadId × Move)) (n : MethodId) (r : Realization) : Prop :=
  ∃ t, (t, .act ⟨.publish n r, .ok ()⟩) ∈ tr

/-- What holds at the end of a run, whatever the order of its moves. -/
structure System.Course (K : Contract) (g : Engine) (tr : List (ThreadId × Move)) (Y : System) :
    Prop where
  made : ∀ t, ∀ f ∈ Y.stackOf t, f.call ∈ calls tr
  done : ∀ t, ∀ f ∈ Y.stackOf t, ∀ d ∈ f.actions, ∃ u, (u, .act d) ∈ tr
  courses : ∀ t, ∀ f ∈ Y.stackOf t, ∃ φ, f.Courses K g φ
  described : ∀ t, ∀ f ∈ Y.stackOf t, AnsweredAction.Described Y.state f.actions
  /-- What is complete or pending has been asked for. -/
  asked : ∀ k n, Y.state.cache.methods.find? k = some n ∨ Y.state.cache.pending.find? k = some n →
    ∃ c ∈ calls tr, c.aim g = .key k
  completed : ∀ n r, Completed tr n r → ∃ h, Y.state.store.get? n = some (.describing h (some r)) ∧
    K.builds ⟨h, n⟩ r
  inserted : ∀ k n, Y.state.cache.methods.find? k = some n → ∃ h r, h.key = k ∧
    Y.state.store.get? n = some (.describing h (some r)) ∧ Completed tr n r

namespace System

variable {K : Contract} {g : Engine} {X Y : System} {t u : ThreadId} {m : Move} {f : Activity}
  {tr : List (ThreadId × Move)} {ok : System → ThreadId → Move → Prop}

/-- A run in which all moves are of a kind. -/
theorem Run.of_mem {p : ThreadId → Move → Prop} (run : Run g ok X tr Y)
    (h : ∀ u m, (u, m) ∈ tr → p u m) : Run g (fun _ => p) X tr Y := by
  induction run with
  | nil => exact .nil
  | step _ _ move ih =>
    have earlier := ih fun u m hm => h u m (List.mem_cons_of_mem _ hm)
    exact .step earlier (h _ _ List.mem_cons_self) move

theorem Run.allows_of_mem {p : ThreadId → Move → Prop} (run : Run g (fun _ => p) X tr Y)
    (h : (t, m) ∈ tr) : p t m := by
  induction run with
  | nil => cases h
  | step _ allowed _ ih =>
    rcases List.mem_cons.1 h with h | h
    · cases h
      exact allowed
    · exact ih h

/-- What a move of any thread does to the requests of all. -/
theorem Step.mem_stackOf (h : Step g X t m Y) (hf : f ∈ Y.stackOf u) :
    f ∈ X.stackOf u ∨ (∃ c, m.call? = some c ∧ f = .made c g X.state) ∨
      ∃ f₀ ∈ X.stackOf t, f₀.Goes t X.state m f Y.state := by
  by_cases hu : u = t
  · subst hu
    exact h.own.mem_stack hf
  · rw [h.others u hu] at hf
    exact .inl hf

theorem mem_calls_cons {c : Call} (h : c ∈ calls tr) (e : ThreadId × Move) :
    c ∈ calls (e :: tr) := by
  obtain ⟨e', he, hc⟩ := List.mem_filterMap.1 h
  exact List.mem_filterMap.2 ⟨e', List.mem_cons_of_mem _ he, hc⟩

theorem Course.made_step (h : X.Course K g tr) (move : Step g X t m Y) :
    ∀ u, ∀ f ∈ Y.stackOf u, f.call ∈ calls ((t, m) :: tr) := by
  intro u f hf
  rcases move.mem_stackOf hf with hf | ⟨c, hc, rfl⟩ | ⟨f₀, hf₀, goes⟩
  · exact mem_calls_cons (h.made u f hf) _
  · exact List.mem_filterMap.2 ⟨_, List.mem_cons_self, hc⟩
  · rw [goes.call_eq]
    exact mem_calls_cons (h.made t f₀ hf₀) _

theorem Course.done_step (h : X.Course K g tr) (move : Step g X t m Y) :
    ∀ u, ∀ f ∈ Y.stackOf u, ∀ d ∈ f.actions, ∃ v, (v, .act d) ∈ (t, m) :: tr := by
  intro u f hf d hd
  have old : ∀ {v f₀}, f₀ ∈ X.stackOf v → d ∈ f₀.actions → ∃ v, (v, .act d) ∈ (t, m) :: tr := by
    intro v f₀ hf₀ hd₀
    obtain ⟨w, earlier⟩ := h.done v f₀ hf₀ d hd₀
    exact ⟨w, List.mem_cons_of_mem _ earlier⟩
  rcases move.mem_stackOf hf with hf | ⟨c, -, rfl⟩ | ⟨f₀, hf₀, goes⟩
  · exact old hf hd
  · cases hd
  · rcases goes.of_mem_actions hd with hd | rfl
    · exact old hf₀ hd
    · exact ⟨t, List.mem_cons_self⟩

theorem Course.courses_step (h : X.Course K g tr) (move : Step g X t m Y) (admits : K.Admits m) :
    ∀ u, ∀ f ∈ Y.stackOf u, ∃ φ, f.Courses K g φ := by
  intro u f hf
  rcases move.mem_stackOf hf with hf | ⟨c, -, rfl⟩ | ⟨f₀, hf₀, goes⟩
  · exact h.courses u f hf
  · exact ⟨_, .made K g c X.state⟩
  · obtain ⟨φ, courses⟩ := h.courses t f₀ hf₀
    exact courses.goes goes admits

theorem Course.described_step (h : X.Course K g tr) (move : Step g X t m Y) :
    ∀ u, ∀ f ∈ Y.stackOf u, AnsweredAction.Described Y.state f.actions := by
  intro u f hf
  rcases move.mem_stackOf hf with hf | ⟨c, -, rfl⟩ | ⟨f₀, hf₀, goes⟩
  · exact (h.described u f hf).mono move.own.store_extends_any
  · exact .nil Y.state
  · obtain ⟨φ, courses⟩ := h.courses t f₀ hf₀
    exact courses.described goes (h.described t f₀ hf₀)

theorem Course.asked_step (h : X.Course K g tr) (move : Step g X t m Y) {k : MethodKey}
    {n : MethodId}
    (hk : Y.state.cache.methods.find? k = some n ∨ Y.state.cache.pending.find? k = some n) :
    ∃ c ∈ calls ((t, m) :: tr), c.aim g = .key k := by
  have old : (X.state.cache.methods.find? k = some n ∨ X.state.cache.pending.find? k = some n) →
      ∃ c ∈ calls ((t, m) :: tr), c.aim g = .key k := by
    intro hX
    obtain ⟨c, hc, aim⟩ := h.asked k n hX
    exact ⟨c, mem_calls_cons hc _, aim⟩
  rcases move.own.find?_cases with ⟨d, -, f, hf, next, rest, takes⟩ | kept
  · obtain ⟨φ, courses⟩ := h.courses t f hf
    obtain ⟨φ', step, -⟩ := courses.step rest takes
    have own : d = ⟨.addMethod k n, ()⟩ ∨ d = ⟨.addPending k n, ()⟩ →
        ∃ c ∈ calls ((t, m) :: tr), c.aim g = .key k := by
      intro hd
      refine ⟨f.call, mem_calls_cons (h.made t f hf) _, ?_⟩
      rw [← courses.reached.aim_eq]
      exact step.aim_of_adds hd
    rcases hk with hk | hk
    · exact (takes.methods_find? hk).elim (old ∘ .inl) (own ∘ .inl)
    · exact (takes.pending_find? hk).elim (old ∘ .inr) (own ∘ .inr)
  · exact old (hk.imp (kept k n).1 (kept k n).2)

theorem Course.completed_step (h : X.Course K g tr) (move : Step g X t m Y) {n : MethodId}
    {r : Realization} (hr : Completed ((t, m) :: tr) n r) :
    ∃ h, Y.state.store.get? n = some (.describing h (some r)) ∧ K.builds ⟨h, n⟩ r := by
  obtain ⟨u, hr⟩ := hr
  rcases List.mem_cons.1 hr with hr | hr
  · cases hr
    obtain ⟨f, next, hf, rest, takes⟩ := move.own.act_cases
    obtain ⟨φ, courses⟩ := h.courses t f hf
    obtain ⟨φ', step, -⟩ := courses.step rest takes
    obtain ⟨c, rfl, rfl, rfl, builds⟩ := step.of_publish
    have described : AnsweredAction.Described Y.state (_ :: f.actions) :=
      step.described takes courses.reached (h.described t f hf)
    exact ⟨c.key, (courses.reached.step step).published_describing described, builds⟩
  · obtain ⟨l, hl, builds⟩ := h.completed n r ⟨u, hr⟩
    exact ⟨l, move.own.store_extends_any.complete hl rfl, builds⟩

theorem Course.inserted_step (h : X.Course K g tr) (move : Step g X t m Y) {k : MethodKey}
    {n : MethodId} (hk : Y.state.cache.methods.find? k = some n) : ∃ h r, h.key = k ∧
      Y.state.store.get? n = some (.describing h (some r)) ∧ Completed ((t, m) :: tr) n r := by
  have store : X.state.store.Extends (fun _ => True) Y.state.store := move.own.store_extends_any
  have old : X.state.cache.methods.find? k = some n → ∃ h r, h.key = k ∧
      Y.state.store.get? n = some (.describing h (some r)) ∧ Completed ((t, m) :: tr) n r := by
    intro hX
    obtain ⟨l, r, hl, hd, u, hr⟩ := h.inserted k n hX
    exact ⟨l, r, hl, store.complete hd rfl, u, List.mem_cons_of_mem _ hr⟩
  rcases move.own.find?_cases with ⟨d, -, f, hf, next, rest, takes⟩ | kept
  · rcases takes.methods_find? hk with hk | rfl
    · exact old hk
    · obtain ⟨φ, courses⟩ := h.courses t f hf
      obtain ⟨φ', step, -⟩ := courses.step rest takes
      obtain ⟨c, r, rfl, rfl, rfl⟩ := step.of_addMethod
      have complete := courses.reached.published_describing (h.described t f hf)
      obtain ⟨u, hr⟩ := h.done t f hf _ courses.reached.completes
      exact ⟨c.key, r, rfl, store.complete complete rfl, u, List.mem_cons_of_mem _ hr⟩
  · exact old ((kept k n).1 hk)

/-- In every run from a fresh cache, if the answers are within the contract. -/
theorem Run.course (run : Run g ok X tr Y) (admits : ∀ Z u m, ok Z u m → K.Admits m)
    (fresh : X.state.IsFresh) (idle : ∀ u, X.stackOf u = []) : Y.Course K g tr := by
  induction run with
  | nil =>
    refine ⟨?_, ?_, ?_, ?_, ?_, ?_, ?_⟩
    · simp [idle]
    · simp [idle]
    · simp [idle]
    · simp [idle]
    · rintro k n (hk | hk)
      · rw [fresh.methods] at hk
        cases hk
      · rw [fresh.pending] at hk
        cases hk
    · rintro n r ⟨u, hr⟩
      exact absurd hr List.not_mem_nil
    · intro k n hk
      rw [fresh.methods] at hk
      cases hk
  | step _ allowed move ih =>
    exact ⟨ih.made_step move, ih.done_step move, ih.courses_step move (admits _ _ _ allowed),
      ih.described_step move, fun k n => ih.asked_step move, fun n r => ih.completed_step move,
      fun k n => ih.inserted_step move⟩

/-- Every answer is within the contract that asks for nothing. -/
theorem Run.course_any (run : Run g ok X tr Y) (fresh : X.state.IsFresh)
    (idle : ∀ u, X.stackOf u = []) : Y.Course .any g tr :=
  run.course (fun _ _ m _ => Contract.any_admits m) fresh idle

end System

end Monomorph
