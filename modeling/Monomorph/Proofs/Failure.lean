import Monomorph.Proofs.Course
import Monomorph.Proofs.Statistics

/-!
Requests that fail. Main statement: `Session.Reachable.failure_leaves_no_trace`, for every request,
made in any state that a run of one thread can reach. The formatter makes no requests there, and
instances are forgotten only between requests; everything else is up to the collaborators.
-/

namespace Monomorph

/-! ## Actions of requests that fail -/

/-- The action finds no instance, or makes the key to look for. -/
def AnsweredAction.isLookup : AnsweredAction → Bool
  | ⟨.copyKey _, _⟩ => true
  | ⟨.findMethod _, none⟩ => true
  | _ => false

section Lookup

variable {K : Contract} {g : Engine} {a : Aim} {ds : List AnsweredAction} {d : AnsweredAction}
  {φ φ' : Phase}
  {t : ThreadId} {s s' : State} {c : Construction}

theorem AnsweredAction.Takes.of_isLookup (takes : d.Takes t s s') (hd : d.isLookup = true) :
    s'.cache = s.cache ∧ s'.lock = s.lock := by
  rw [takes.state_eq]
  obtain ⟨x, y⟩ := d
  cases x <;> first | exact ⟨rfl, rfl⟩ | cases hd

theorem Construction.AllocatedBy.not_isLookup (hc : c.AllocatedBy ds) :
    ds.all AnsweredAction.isLookup = false := by
  refine Bool.eq_false_iff.2 fun h => ?_
  cases List.all_eq_true.1 h _ hc

/-- Until it takes the lock, a request for a key only looks. -/
theorem Phase.Reached.isLookup (h : Reached K g a ds φ) (ha : a ≠ .placeholder)
    (hφ : φ = .asked a ∨ ∃ k, φ = .missed k) : ds.all AnsweredAction.isLookup = true := by
  induction h with
  | asked => rfl
  | @step ds d φ φ' reached step ih =>
    have look : d.isLookup = true → (φ = .asked a ∨ ∃ k, φ = .missed k) →
        (d :: ds).all AnsweredAction.isLookup = true := by
      intro hd hφ
      rw [List.all_cons, hd, ih hφ]
      rfl
    cases step with
    | @copyKey b =>
      have aim : b = a := reached.aim_eq
      exact look rfl (.inl (by rw [aim]))
    | nameNested => exact absurd reached.aim_eq.symm ha
    | @miss k =>
      have aim : .key k = a := reached.aim_eq
      exact look rfl (.inl (by rw [aim]))
    | _ => simp at hφ

/-- A request that has failed has not completed a descriptor. -/
theorem Phase.Reached.not_publish {v : Verdict} {n : MethodId} {r : Realization}
    (h : Reached K g a ds (.closed v)) (hv : v.failed? = some c) :
    ⟨.publish n r, .ok ()⟩ ∉ ds := by
  intro hd
  have none : ds.countP (AnsweredAction.completes r.dispatch.kind) = 0 := by
    rw [h.countP_completes]
    cases v <;> first | rfl | cases hv
  simpa [AnsweredAction.completes] using List.countP_eq_zero.1 none _ hd

theorem Phase.Reached.not_inserts {v : Verdict} {k : MethodKey} {n : MethodId}
    (h : Reached K g a ds (.closed v)) (hv : v.failed? = some c) :
    ⟨.addMethod k n, ()⟩ ∉ ds := by
  intro hd
  have given : v.given? = some (k, n) := h.gives hd
  cases v <;> first | cases given | cases hv

end Lookup

namespace Session

variable {g : Engine} {t : ThreadId} {ok : Session → Move → Prop} {A X Y : Session} {c₀ : Call}
  {tr : List Move} {m : Move} {above : List Activity} {f : Activity}
  {s : State} {c : Construction} {k : MethodKey} {n : MethodId} {d : AnsweredAction}
  {φs : List Phase}

section Serving

variable (h : Serving g t Orderly A c₀ tr ⟨s, above ++ [f]⟩) (reach : A.Reachable g t Orderly)

include h reach

theorem Serving.exists_phase : ∃ φ φs, f.Serves .any g s (Phase.constructions φs) φ ∧
    Stands .any g s A.stack φs :=
  h.exists_serves reach Orderly.resetsIdle

/-- As long as a request for a key only looks, it has touched nothing, and nobody else has had the
turn. -/
theorem Serving.cache_eq_of_isLookup (ha : c₀.aim g ≠ .placeholder)
    (hf : f.actions.all AnsweredAction.isLookup = true) :
    above = [] ∧ s.cache = A.state.cache ∧ s.lock = A.state.lock ∧
      ∀ m ∈ tr, ∃ d : AnsweredAction, m = .act d ∧ d.isLookup = true := by
  refine h.induction (P := fun tr above f s => f.actions.all AnsweredAction.isLookup = true →
    above = [] ∧ s.cache = A.state.cache ∧ s.lock = A.state.lock ∧
      ∀ m ∈ tr, ∃ d : AnsweredAction, m = .act d ∧ d.isLookup = true) ?_ ?_ ?_ hf
  · exact fun _ => ⟨rfl, rfl, rfl, by simp⟩
  · intro tr f s m f' s' serving ih goes hf
    cases goes with
    | @act _ d next rest takes =>
      obtain ⟨hd, hf⟩ := Bool.and_eq_true_iff.1 hf
      obtain ⟨-, hc, hl, looks⟩ := ih hf
      obtain ⟨hc', hl'⟩ := takes.of_isLookup hd
      refine ⟨rfl, hc'.trans hc, hl'.trans hl, fun m hm => ?_⟩
      rcases List.mem_cons.1 hm with rfl | hm
      · exact ⟨d, rfl, hd⟩
      · exact looks m hm
    | answer rest x =>
      obtain ⟨φ, φs, serves, -⟩ := serving.nil_append.exists_phase reach
      have follows := serves.follows
      rw [rest] at follows
      obtain ⟨rfl, -⟩ := follows
      have allocates := serves.reached.allocates rfl
      exact absurd hf (by simp [allocates.not_isLookup])
  · intro tr above f s m above' s' serving ih move _ calling hf
    obtain ⟨rfl, -⟩ := ih hf
    obtain ⟨φ, φs, serves, -⟩ := serving.exists_phase reach
    rcases serves.follows.of_isCalling (calling rfl) with
      ⟨c, -, -, rfl, -⟩ | ⟨rfl | ⟨c, e, rfl⟩, -⟩
    · exact absurd hf (by simp [(serves.reached.allocates rfl).not_isLookup])
    · have aim := serves.aim_eq
      rw [serving.call_eq] at aim
      exact absurd aim ha
    · exact absurd hf (by simp [(serves.reached.allocates rfl).not_isLookup])

/-- Instances that were there are kept: nothing is forgotten while a request is being served. -/
theorem Serving.find?_kept (hk : A.state.cache.methods.find? k = some n) :
    s.cache.methods.find? k = some n := by
  have called : Run g t Orderly A [c₀.move A.stack] _ := .step .nil h.allowed (.of_call c₀ h.turn)
  obtain ⟨P, consistent⟩ := (reach.run called).consistent_any Orderly.resetsIdle
  have run : Run g t NoReset _ tr _ := h.run_onto.mono fun Z m ⟨busy, allowed⟩ hm => by
    subst hm
    exact busy allowed
  exact run.alone_noReset.find?_of_some consistent hk

/-- What ends in the course of a request has been requested for it, and gives what it has
inserted. -/
theorem Serving.nest_mem_of_inserted {a : Activity} {r : MethodResult} (ha : Move.finish a r ∈ tr)
    (hd : ⟨.addMethod k n, ()⟩ ∈ a.actions) :
    Move.nest a.call ∈ tr ∧ a.call.aim g = .key k ∧ r = .ok n := by
  obtain ⟨X, tr₀, fresh, idle, before⟩ := reach
  have keeps : ∀ Z m, Orderly Z m → Contract.any.Permits (Z.alone t) t m := fun Z m hm =>
    Contract.permits_of_resetsIdle (fun _ _ => trivial) trivial (hm.resetsIdle _ _)
  obtain ⟨φ, reached, ends⟩ :=
    (h.run_append before).exists_reached_of_finish keeps fresh idle (List.mem_append_left _ ha)
  have given := reached.gives hd
  refine ⟨h.nested.ended a r ha, ?_⟩
  cases ends with
  | closed v =>
    cases v with
    | cached o l m =>
      cases o with
      | inflated κ =>
        cases given
        exact ⟨reached.aim_eq.symm, rfl⟩
      | _ => cases given
    | _ => cases given
  | _ => cases given

end Serving

/-- A request without a pending entry leaves the pending instances as it found them. -/
theorem Serving.pending_eq (h : Serving g t Orderly A c₀ tr ⟨s, [f]⟩)
    (reach : A.Reachable g t Orderly) (none : f.entry? = none) :
    s.cache.pending = A.state.cache.pending := by
  obtain ⟨φs, sound⟩ := reach.sound Orderly.resetsIdle
  obtain ⟨ψs, sound'⟩ := (reach.serving h).sound Orderly.resetsIdle
  apply Table.ext
  rw [sound.pending_entries]
  exact sound'.pending_entries.trans (by simp [Session.onto, none])

/-- The key of a construction was not pending before. -/
theorem Serving.not_pending_before (h : Serving g t Orderly A c₀ tr ⟨s, above ++ [f]⟩)
    (reach : A.Reachable g t Orderly) (hc : c.AllocatedBy f.actions) :
    A.state.cache.pending.find? c.key.key = none := by
  refine h.induction (P := fun _ _ f _ => ∀ c : Construction, c.AllocatedBy f.actions →
    A.state.cache.pending.find? c.key.key = none) ?_ ?_ ?_ c hc
  · intro c hc
    cases hc
  · intro tr f s m f' s' serving ih goes c hc
    cases goes with
    | @act _ d next rest takes =>
      rcases List.mem_cons.1 hc with rfl | hc
      · obtain ⟨φ, φs, serves, -⟩ := serving.nil_append.exists_phase reach
        obtain ⟨φ', step, -⟩ := serves.step rest takes
        obtain ⟨rfl, -⟩ := step.of_allocate
        rw [← serving.pending_eq reach serves.entry]
        exact serves.holds.2
      · exact ih c hc
    | answer => exact ih c hc
  · intro tr above f s m above' s' _ ih _ _ _
    exact ih

/-- While a request waits, no request completes its descriptor. -/
theorem Exclusive.not_publish {s' : State} {st st' : List Activity} {r : Realization}
    (h : Exclusive ⟨s, above ++ f :: st⟩) (stands : Stands .any g s (above ++ f :: st) φs)
    (hc : c.AllocatedBy f.actions) (calling : above = [] → f.rest.isCalling = true) :
    ¬Step g t ⟨s, above ++ f :: st⟩ (.act ⟨.publish c.method r, .ok ()⟩) ⟨s', st'⟩ := by
  intro move
  generalize hX : above ++ f :: st = fs at h stands move
  generalize hd : (⟨.publish c.method r, .ok ()⟩ : AnsweredAction) = d at move
  cases move with
  | act rest takes =>
    cases above with
    | nil =>
      cases hX
      subst hd
      have calling := calling rfl
      rw [rest] at calling
      cases calling
    | cons a bs =>
      cases hX
      obtain ⟨φ, φs, -, serves, -⟩ := stands.exists_serves rfl
      obtain ⟨φ', step, -⟩ := serves.step rest takes
      cases step with
      | @publish c' =>
        obtain ⟨hm, -⟩ : c.method = c'.method ∧ _ := by simpa using hd
        have apart := (List.pairwise_cons.1 h.apart).1 f (by simp)
        exact apart c' c (serves.reached.allocates rfl) hc hm.symm
      | _ => simp at hd

/-- Only code outside the cache completes the descriptor of a request, as long as the request does
not do so itself. -/
theorem Serving.get?_of_allocated (h : Serving g t Orderly A c₀ tr ⟨s, above ++ [f]⟩)
    (reach : A.Reachable g t Orderly) (hc : c.AllocatedBy f.actions) :
    s.store.get? c.method = some (.ofKey c.key) ∨
      (∃ r, ⟨.publish c.method r, .ok ()⟩ ∈ f.actions) ∨
      ∃ r, Move.outside (.publish c.method r) ∈ tr ∧
        s.store.get? c.method = some (.describing c.key (some r)) := by
  refine h.induction (P := fun tr _ f s => c.AllocatedBy f.actions →
    s.store.get? c.method = some (.ofKey c.key) ∨
      (∃ r, ⟨.publish c.method r, .ok ()⟩ ∈ f.actions) ∨
      ∃ r, Move.outside (.publish c.method r) ∈ tr ∧
        s.store.get? c.method = some (.describing c.key (some r))) ?_ ?_ ?_ hc
  · intro hc
    cases hc
  · intro tr f s m f' s' serving ih goes hc
    cases goes with
    | @act _ d next rest takes =>
      rcases List.mem_cons.1 hc with hd | hc
      · have new := takes.method_eq_next hd
        subst hd
        rw [takes.state_eq, new]
        exact .inl (s.store.get?_allocate_next _)
      rcases ih hc with pending | ⟨r, hr⟩ | ⟨r, hr, complete⟩
      · rcases takes.get?_kept pending with pending | ⟨r, rfl⟩
        · exact .inl pending
        · exact .inr (.inl ⟨r, List.mem_cons_self⟩)
      · exact .inr (.inl ⟨r, List.mem_cons_of_mem _ hr⟩)
      · rcases takes.get?_kept complete with complete | ⟨r', rfl⟩
        · exact .inr (.inr ⟨r, List.mem_cons_of_mem _ hr, complete⟩)
        · cases (takes.describing_of_publish complete).1
    | answer rest x =>
      rcases ih hc with pending | ⟨r, hr⟩ | ⟨r, hr, complete⟩
      · exact .inl pending
      · exact .inr (.inl ⟨r, hr⟩)
      · exact .inr (.inr ⟨r, List.mem_cons_of_mem _ hr, complete⟩)
  · intro tr above f s m above' s' serving ih move _ calling hc
    have exclusive := (reach.serving serving).exclusive Orderly.resetsIdle
    obtain ⟨φs, sound⟩ := (reach.serving serving).sound Orderly.resetsIdle
    have move := move.onto (by simp) A.stack
    rcases ih hc with pending | own | ⟨r, hr, complete⟩
    · rcases move.get?_kept pending with pending | ⟨r, rfl⟩ | ⟨r, rfl, complete⟩
      · exact .inl pending
      · simp only [Session.onto, List.append_assoc, List.singleton_append] at exclusive sound move
        exact (exclusive.not_publish sound.stands hc calling move).elim
      · exact .inr (.inr ⟨r, List.mem_cons_self, complete⟩)
    · exact .inr (.inl own)
    · have complete := (move.store_extends sound.stands).complete complete rfl
      exact .inr (.inr ⟨r, List.mem_cons_of_mem _ hr, complete⟩)

/-- An instance that was not there has been inserted. -/
theorem Step.find?_gained (h : Step g t X m Y) (hk : Y.state.cache.methods.find? k = some n) :
    X.state.cache.methods.find? k = some n ∨ m = .act ⟨.addMethod k n, ()⟩ := by
  rcases h.find?_cases with ⟨d, rfl, -, -, -, -, takes⟩ | kept
  · exact (takes.methods_find? hk).imp_right (congrArg Move.act)
  · exact .inl ((kept k n).1 hk)

theorem Run.find?_gained (run : Run g t ok X tr Y)
    (hk : Y.state.cache.methods.find? k = some n) :
    X.state.cache.methods.find? k = some n ∨ Move.act ⟨.addMethod k n, ()⟩ ∈ tr := by
  induction run with
  | nil => exact .inl hk
  | step _ _ move ih =>
    rcases move.find?_gained hk with hk | rfl
    · exact (ih hk).imp_right (List.mem_cons_of_mem _)
    · exact .inr List.mem_cons_self

end Session

/-! ## The error of the realizer -/

namespace Session

variable {g : Engine} {t : ThreadId} {A : Session} {c₀ : Call} {tr : List Move}
  {above : List Activity} {f : Activity} {s : State} {c : Construction} {e : Error}

/-- A request goes through its phases with the answers that it has been given, and no others. -/
theorem Serving.exists_reached (h : Serving g t Orderly A c₀ tr ⟨s, above ++ [f]⟩)
    {G : (q : Query) → q.Answer → Prop}
    (given : ∀ c q x, Move.answer c q x ∈ tr → c.AllocatedBy f.actions → G q x) :
    ∃ φ, f.rest.Follows (.given G) g (Phase.Ends g) φ ∧
      Phase.Reached (.given G) g (c₀.aim g) f.actions φ := by
  refine h.induction (P := fun tr _ f _ =>
    (∀ c q x, Move.answer c q x ∈ tr → c.AllocatedBy f.actions → G q x) →
      ∃ φ, f.rest.Follows (.given G) g (Phase.Ends g) φ ∧
        Phase.Reached (.given G) g (c₀.aim g) f.actions φ) ?_ ?_ ?_ given
  · exact fun _ => ⟨_, c₀.program_follows _ g, .asked⟩
  · intro tr f s m f' s' _ ih goes given
    obtain ⟨φ, follows, reached⟩ := ih fun c q x hx hc =>
      given c q x (List.mem_cons_of_mem _ hx) (goes.mem_actions hc)
    cases goes with
    | @act _ d next rest takes =>
      rw [rest] at follows
      obtain ⟨φ', step, follows⟩ := follows d.response takes.canYield
      exact ⟨φ', follows, reached.step step⟩
    | @answer c q next rest x =>
      rw [rest] at follows
      obtain ⟨rfl, follows⟩ := follows
      refine ⟨_, follows x ?_, reached⟩
      exact given c q x List.mem_cons_self (reached.allocates rfl)
  · intro tr above f s m above' s' _ ih _ _ _ given
    exact ih fun c q x hx => given c q x (List.mem_cons_of_mem _ hx)

end Session

/-- How a request can fail. -/
inductive Phase.Fails (g : Engine) (a : Aim) : Phase → Error → Prop where
  | notAnInstance (t : Token) (aim : a = .error (.notAnInstance t)) :
      Fails g a (.asked a) (.notAnInstance t)
  | invalid (k : MethodKey) (r : Rejection) : Fails g a (.missed k) (.invalid r)
  | unresolved (c : Construction) (e : Error) :
      Fails g a (.closed (.unresolved c e)) (.unresolvable (g.names.keyName c.key.key) e)
  | refused (c : Construction) :
      Fails g a (.closed (.refused c (.alreadyRealized c.definition.token)))
        (.alreadyRealized c.definition.token)

theorem Phase.Ends.fails {K : Contract} {g : Engine} {c₀ : Call} {ds : List AnsweredAction}
    {φ : Phase}
    {s : State} {e : Error} (h : φ.Ends g (.error e)) (reached : Reached K g (c₀.aim g) ds φ)
    (described : AnsweredAction.Described s ds) : φ.Fails g (c₀.aim g) e := by
  generalize hr : Except.error e = r at h
  cases h with
  | closed v =>
    cases v with
    | unresolved c e' =>
      cases hr
      exact .unresolved c e'
    | refused c e' =>
      cases hr
      obtain ⟨r, hd⟩ := reached.refuses rfl
      obtain ⟨c', r', hc', -, -, rfl⟩ := described.refused _ _ _ hd
      obtain rfl : c = c' := reached.isOf hc'
      exact .refused c
    | cached | pending | placeholder => cases hr
  | invalid invalid =>
    cases hr
    exact .invalid _ _
  | error e' =>
    cases hr
    have aim : Aim.error e = c₀.aim g := reached.aim_eq
    obtain ⟨t, rfl⟩ := Call.aim_error aim.symm
    rw [aim]
    exact .notAnInstance t aim.symm

namespace Session

variable {g : Engine} {t : ThreadId} {A : Session} {c₀ : Call} {tr : List Move}
  {above : List Activity} {f : Activity} {s : State} {c : Construction} {e : Error}

/-- The error of a request that could not be resolved is the one that its realizer gave. -/
theorem Serving.realizer_error {name : String} (h : Serving g t Orderly A c₀ tr ⟨s, [f]⟩)
    (rest : f.rest = .done (.error (.unresolvable name e))) (hc : c.AllocatedBy f.actions)
    (described : AnsweredAction.Described s f.actions) :
    ∃ as, c.context.classArgs = some as ∧
      Move.answer c (.realizeClass c.definition.owner as) (.error e) ∈ tr := by
  obtain ⟨φ, follows, reached⟩ := h.nil_append.exists_reached
    (G := fun q x => ∃ c, Move.answer c q x ∈ tr ∧ c.AllocatedBy f.actions)
    fun c q x hx hc => ⟨c, hx, hc⟩
  rw [rest] at follows
  have ends : φ.Ends g (.error (.unresolvable name e)) := follows
  cases ends.fails reached described with
  | unresolved c' e =>
    obtain ⟨-, as, has, c'', hx, hc''⟩ := reached.warranted
    obtain rfl : c' = c := reached.isOf hc
    obtain rfl : c' = c'' := reached.isOf hc''
    exact ⟨as, has, hx⟩

/-! ## No trace -/

/-- What is left of a request whose construction `c` has failed: what has been requested for it
meanwhile, and nothing else. -/
structure Undone (g : Engine) (t : ThreadId) (A : Session) (tr : List Move) (f : Activity)
    (c : Construction) (s : State) : Prop where
  pending : s.cache.pending = A.state.cache.pending
  unclaimed : s.cache.pending.find? c.key.key = none
  missing : s.cache.methods.find? c.key.key = none
  kept : ∀ k m, A.state.cache.methods.find? k = some m → s.cache.methods.find? k = some m
  gained : ∀ k m, s.cache.methods.find? k = some m → A.state.cache.methods.find? k = some m ∨
    ∃ a, Move.finish a (.ok m) ∈ tr ∧ Move.nest a.call ∈ tr ∧ a.call.aim g = .key k ∧
      ⟨.addMethod k m, ()⟩ ∈ a.actions
  counted : ∀ o, s.cache.counters.count o = A.state.cache.counters.count o +
    (tr.flatMap Move.outcomes).count o + f.outcomes.count o
  uncached : ∀ tr' Z, Run g t Orderly ⟨s, A.stack⟩ tr' Z →
    ∀ k, Z.state.cache.methods.find? k ≠ some c.method

/-- A request that is made in `A` and fails leaves no trace. -/
structure LeavesNoTrace (g : Engine) (t : ThreadId) (A : Session) : Prop where
  /-- A request that is not valid has touched nothing, and has called nobody. -/
  turned_away : ∀ c₀ tr f s e, Serving g t Orderly A c₀ tr ⟨s, [f]⟩ → f.rest = .done (.error e) →
    (∃ r, e = .invalid r) ∨ (∃ t, e = .notAnInstance t) →
      s.cache = A.state.cache ∧ s.lock = A.state.lock ∧
        ∀ m ∈ tr, ∃ d : AnsweredAction, m = .act d ∧ d.isLookup = true
  /-- The class could not be realized. The descriptor stays pending, unless code outside the cache
  completes it. -/
  unresolved : ∀ c₀ tr f s name e, Serving g t Orderly A c₀ tr ⟨s, [f]⟩ →
    f.rest = .done (.error (.unresolvable name e)) → ∃ c : Construction,
      c₀.aim g = .key c.key.key ∧ c.AllocatedBy f.actions ∧
      name = g.names.keyName c.key.key ∧
      (∃ as, c.context.classArgs = some as ∧
        Move.answer c (.realizeClass c.definition.owner as) (.error e) ∈ tr) ∧
      f.outcomes = [.failure] ∧ Undone g t A tr f c s ∧
      ∀ tr' Z, Run g t Orderly ⟨s, A.stack⟩ tr' Z →
        Z.state.store.get? c.method = some (.ofKey c.key) ∨
          ∃ r, Move.outside (.publish c.method r) ∈ tr' ++ tr
  /-- A collaborator has completed the descriptor before its time; it stays as the collaborator
  wanted it. -/
  refused : ∀ c₀ tr f s tok, Serving g t Orderly A c₀ tr ⟨s, [f]⟩ →
    f.rest = .done (.error (.alreadyRealized tok)) → ∃ c : Construction,
      c₀.aim g = .key c.key.key ∧ c.AllocatedBy f.actions ∧ tok = c.definition.token ∧
      f.outcomes = [] ∧ Undone g t A tr f c s ∧
      ∃ r, Move.outside (.publish c.method r) ∈ tr ∧
        ∀ tr' Z, Run g t Orderly ⟨s, A.stack⟩ tr' Z →
          Z.state.store.get? c.method = some (.describing c.key (some r))

section NoTrace

variable (h : Serving g t Orderly A c₀ tr ⟨s, [f]⟩) (reach : A.Reachable g t Orderly)

include h reach

theorem Serving.reachable {r : MethodResult} (rest : f.rest = .done r) :
    Reachable g t Orderly ⟨s, A.stack⟩ :=
  (reach.serving h).run (.step .nil (show Orderly _ (.finish f r) from trivial) (.finish rest))

theorem Serving.described : AnsweredAction.Described s f.actions :=
  ((reach.serving h).exclusive Orderly.resetsIdle).described f List.mem_cons_self

/-- How a request that fails has come to its end. -/
theorem Serving.exists_fails (rest : f.rest = .done (.error e)) :
    ∃ φ φs, f.Serves .any g s (Phase.constructions φs) φ ∧ c₀.aim g = φ.aim ∧
      φ.Fails g (c₀.aim g) e := by
  obtain ⟨φ, φs, serves, -⟩ := h.nil_append.exists_phase reach
  have reached := serves.reached
  rw [h.nil_append.call_eq] at reached
  exact ⟨φ, φs, serves, reached.aim_eq.symm, (serves.ends rest).fails reached (h.described reach)⟩

theorem Serving.discarded {v : Verdict} {φs : List Phase}
    (serves : f.Serves .any g s (Phase.constructions φs) (.closed v)) (hv : v.failed? = some c) :
    Discarded ⟨s, A.stack⟩ c := by
  have exclusive : Exclusive ⟨s, f :: A.stack⟩ :=
    (reach.serving h).exclusive Orderly.resetsIdle
  exact exclusive.discarded (serves.reached.allocates hv) fun _ => serves.reached.not_inserts hv

theorem Serving.undone {v : Verdict} {φs : List Phase}
    (serves : f.Serves .any g s (Phase.constructions φs) (.closed v)) (hv : v.failed? = some c)
    {r : MethodResult} (rest : f.rest = .done r) : Undone g t A tr f c s := by
  have pending := h.pending_eq reach serves.entry
  have missed : f.missed? = some c.key.key := by
    rw [serves.missed]
    cases v <;> first | exact congrArg (Option.map (·.key.key)) hv | cases hv
  constructor
  · exact pending
  · rw [pending]
    exact h.nil_append.not_pending_before reach (serves.reached.allocates hv)
  · exact (reach.serving h).missed_is_missing f _ _ rfl missed (.inr trivial)
  · exact fun k n hk => h.nil_append.find?_kept reach hk
  · intro k n hk
    refine (h.run.find?_gained hk).imp_right fun hd => ?_
    rcases h.run.exists_action hd with ⟨a, ha, hd⟩ | ⟨a, r, ha, hd⟩
    · rcases List.mem_singleton.1 ha with rfl
      exact absurd hd (serves.reached.not_inserts hv)
    · obtain ⟨nested, aim, rfl⟩ := h.nil_append.nest_mem_of_inserted reach ha hd
      exact ⟨a, ha, nested, aim, hd⟩
  · intro o
    have count := h.run.counters (Counters.count · o) (· == o) fun c o' => c.count_record o' o
    rw [h.run.countP_counts (by simp [Activity.made])] at count
    rw [count]
    simp [Session.outcomes, List.count, Nat.add_assoc]
  · intro tr' Z run
    have discarded := h.discarded reach serves hv
    exact ((h.reachable reach rest).discarded Orderly.resetsIdle discarded run).1.uncached

/-- What has become of the descriptor when its construction has failed. -/
theorem Serving.descriptor_of_failed {v : Verdict} {φs : List Phase}
    (serves : f.Serves .any g s (Phase.constructions φs) (.closed v)) (hv : v.failed? = some c) :
    s.store.get? c.method = some (.ofKey c.key) ∨ ∃ r, Move.outside (.publish c.method r) ∈ tr ∧
      s.store.get? c.method = some (.describing c.key (some r)) := by
  rcases h.nil_append.get?_of_allocated reach (serves.reached.allocates hv) with
    pending | ⟨r, hr⟩ | outside
  · exact .inl pending
  · exact absurd hr (serves.reached.not_publish hv)
  · exact .inr outside

theorem Serving.turned_away (rest : f.rest = .done (.error e))
    (he : (∃ r, e = .invalid r) ∨ ∃ t, e = .notAnInstance t) :
    s.cache = A.state.cache ∧ s.lock = A.state.lock ∧
      ∀ m ∈ tr, ∃ d : AnsweredAction, m = .act d ∧ d.isLookup = true := by
  obtain ⟨φ, φs, serves, aim, fails⟩ := h.exists_fails reach rest
  have reached := serves.reached
  rw [h.nil_append.call_eq] at reached
  have looking : c₀.aim g ≠ .placeholder ∧ (φ = .asked (c₀.aim g) ∨ ∃ k, φ = .missed k) := by
    cases fails with
    | notAnInstance t ha => exact ⟨by simp [ha], .inl rfl⟩
    | invalid k r => exact ⟨by simp [aim, Phase.aim], .inr ⟨k, rfl⟩⟩
    | unresolved | refused => simp at he
  obtain ⟨-, untouched⟩ :=
    h.nil_append.cache_eq_of_isLookup reach looking.1 (reached.isLookup looking.1 looking.2)
  exact untouched

end NoTrace

/-- A request that fails leaves no trace, in whatever state it has been made. -/
theorem Reachable.failure_leaves_no_trace (reach : A.Reachable g t Orderly) :
    LeavesNoTrace g t A := by
  constructor
  · intro c₀ tr f s e h rest he
    exact h.turned_away reach rest he
  · intro c₀ tr f s name e h rest
    obtain ⟨φ, φs, serves, aim, fails⟩ := h.exists_fails reach rest
    cases fails with
    | unresolved c e =>
      have allocates := serves.reached.allocates (c := c) rfl
      have realizer := h.realizer_error rest allocates (h.described reach)
      have undone := h.undone reach serves (c := c) rfl rest
      refine ⟨c, aim, allocates, rfl, realizer, serves.reached.outcomes, undone, ?_⟩
      intro tr' Z run
      have discarded := h.discarded reach serves (c := c) rfl
      rcases h.descriptor_of_failed reach serves (c := c) rfl with pending | ⟨r, hr, -⟩
      · have later := (h.reachable reach rest).discarded Orderly.resetsIdle discarded run
        refine (later.2 pending).imp_right ?_
        exact fun ⟨r, hr⟩ => ⟨r, List.mem_append_left _ hr⟩
      · exact .inr ⟨r, List.mem_append_right _ hr⟩
  · intro c₀ tr f s tok h rest
    obtain ⟨φ, φs, serves, aim, fails⟩ := h.exists_fails reach rest
    cases fails with
    | refused c =>
      have allocates := serves.reached.allocates (c := c) rfl
      have undone := h.undone reach serves (c := c) rfl rest
      refine ⟨c, aim, allocates, rfl, serves.reached.outcomes, undone, ?_⟩
      obtain ⟨r, hr, complete⟩ : ∃ r, Move.outside (.publish c.method r) ∈ tr ∧
          s.store.get? c.method = some (.describing c.key (some r)) := by
        rcases h.descriptor_of_failed reach serves (c := c) rfl with pending | outside
        · obtain ⟨r, hd⟩ := serves.reached.refuses (c := c) rfl
          obtain ⟨c', r', -, hm, complete, -⟩ := (h.described reach).refused _ _ _ hd
          rw [pending] at complete
          cases congrArg (Option.map (·.realization)) complete
        · exact outside
      refine ⟨r, hr, fun tr' Z run => ?_⟩
      exact (h.reachable reach rest).complete_kept Orderly.resetsIdle complete rfl run

/-- A construction fails while another one waits, and after it has built a third. -/
theorem Reachable.failure_leaves_no_trace_nested :
    ∃ A B, replayWhile Orderly {} 0 .withoutGate
        (.call (.get ⟨0, Sample.key Sample.read⟩ false) :: Sample.goOn 6) ([], ⟨{}, []⟩) = some A ∧
      replayWhile Orderly {} 0 .withoutGate Sample.failing A = some B ∧
      B.2.stack.map Activity.outcomes = [[.failure], []] ∧ B.2.state.cache.methods.size = 1 ∧
      B.2.state.cache.pending.size = 1 ∧ LeavesNoTrace {} 0 A.2 := by
  have facts : (replayWhile Orderly {} 0 .withoutGate
      (.call (.get ⟨0, Sample.key Sample.read⟩ false) :: Sample.goOn 6) ([], ⟨{}, []⟩)).map
      (fun A => (replayWhile Orderly {} 0 .withoutGate Sample.failing A).map fun B =>
        (B.2.stack.map Activity.outcomes, B.2.state.cache.methods.size,
          B.2.state.cache.pending.size)) = some (some ([[.failure], []], 1, 1)) := by
    decide +kernel
  obtain ⟨A, hA, hf⟩ := Option.map_eq_some_iff.1 facts
  obtain ⟨B, hB, hf⟩ := Option.map_eq_some_iff.1 hf
  obtain ⟨outcomes, methods, pending⟩ : _ ∧ _ ∧ _ := by simpa using hf
  have reach : A.2.Reachable {} 0 Orderly :=
    ⟨_, _, ⟨rfl, rfl⟩, rfl, replayWhile_run .nil hA⟩
  exact ⟨A, B, hA, hB, outcomes, methods, pending, reach.failure_leaves_no_trace⟩

end Session

end Monomorph
