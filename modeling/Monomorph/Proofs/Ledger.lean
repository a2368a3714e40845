import Monomorph.Proofs.Insertion

/-!
Counting requests by thread. What a thread has done is what its finished requests have done and
what those on its stack have done so far, so the counts of a run can be read off its requests.
`System.Run.counters_of_onlyFor` is the result: where all requests of a run are for one key that
can be realized, one of them builds it and the others find it.
-/

namespace Monomorph

/-! ## Counts by thread -/

/-- Lists with as many elements of each thread in `p` as in `q` have as many altogether. -/
theorem countP_eq_of_threads {α : Type} {l : List (ThreadId × α)} {p q : ThreadId × α → Bool}
    (h : ∀ t, l.countP (fun e => e.1 == t && p e) = l.countP (fun e => e.1 == t && q e)) :
    l.countP p = l.countP q := by
  have count : ∀ (p : ThreadId × α → Bool) (t : ThreadId),
      ((l.filter p).map Prod.fst).count t = l.countP fun e => e.1 == t && p e := by
    intro p t
    rw [List.count_eq_countP, List.countP_map, List.countP_filter]
    rfl
  have perm : ((l.filter p).map Prod.fst).Perm ((l.filter q).map Prod.fst) := by
    rw [List.perm_iff_count]
    intro t
    rw [count, count, h]
  simpa [List.countP_eq_length_filter] using perm.length_eq

theorem countP_cons_toNat {α : Type} (p : α → Bool) (a : α) (l : List α) :
    (a :: l).countP p = l.countP p + (p a).toNat := by
  cases h : p a <;> simp [h]

/-- How many actions in `p` the requests of a stack have done. -/
def actionCount (p : AnsweredAction → Bool) : List Activity → Nat
  | [] => 0
  | f :: fs => f.actions.countP p + actionCount p fs

@[simp] theorem actionCount_nil (p : AnsweredAction → Bool) : actionCount p [] = 0 := rfl

@[simp] theorem actionCount_cons (p : AnsweredAction → Bool) (f : Activity) (fs : List Activity) :
    actionCount p (f :: fs) = f.actions.countP p + actionCount p fs := rfl

/-- How many actions in `p` the thread has done in a run. -/
def doneBy (t : ThreadId) (p : AnsweredAction → Bool) (tr : List (ThreadId × Move)) : Nat :=
  tr.countP fun e => e.1 == t && e.2.does p

/-- A request from outside of any other. -/
def Move.isRequest : Move → Bool
  | request _ => true
  | _ => false

/-- How many requests the thread has made from outside of any other. -/
def requestsBy (t : ThreadId) (tr : List (ThreadId × Move)) : Nat :=
  tr.countP fun e => e.1 == t && e.2.isRequest

/-- How many actions in `p` leave the stack with the move. -/
def Move.endedActions (p : AnsweredAction → Bool) : Move → Nat
  | finish f _ => f.actions.countP p
  | _ => 0

/-- One if the thread has a request to serve. -/
def busy : List Activity → Nat
  | [] => 0
  | _ :: _ => 1

@[simp] theorem busy_nil : busy [] = 0 := rfl

@[simp] theorem busy_cons (f : Activity) (fs : List Activity) : busy (f :: fs) = 1 := rfl

section Balance

variable {g : Engine} {X Y : System} {t : ThreadId} {m : Move} {p q : AnsweredAction → Bool}
  {tr : List (ThreadId × Move)}

theorem countP_thread_cons (p : Move → Bool) (u : ThreadId) :
    ((t, m) :: tr).countP (fun e => e.1 == u && p e.2) =
      tr.countP (fun e => e.1 == u && p e.2) + if t = u then (p m).toNat else 0 := by
  by_cases hu : t = u
  · cases h : p m <;> simp [hu, h]
  · simp [hu]

theorem doneBy_cons (u : ThreadId) :
    doneBy u p ((t, m) :: tr) = doneBy u p tr + if t = u then (m.does p).toNat else 0 :=
  countP_thread_cons (Move.does p) u

theorem requestsBy_cons (u : ThreadId) :
    requestsBy u ((t, m) :: tr) = requestsBy u tr + if t = u then m.isRequest.toNat else 0 :=
  countP_thread_cons Move.isRequest u

/-- The actions of a stack grow with each action; those of a finished request leave it. -/
theorem Session.Step.actionCount_eq {X Y : Session} (h : Session.Step g t X m Y)
    (p : AnsweredAction → Bool) :
    actionCount p Y.stack + m.endedActions p = actionCount p X.stack + (m.does p).toNat := by
  cases h with
  | finish rest => simp [Move.endedActions, Move.does, Nat.add_comm]
  | @act s s' f st d =>
    simp only [actionCount_cons, Move.endedActions, Move.does, countP_cons_toNat]
    omega
  | _ => simp [Move.endedActions, Move.does, Activity.made]

/-- A thread becomes busy with a request from outside, and is idle when this ends. -/
theorem Session.Step.busy_eq {X Y : Session} (h : Session.Step g t X m Y)
    (done : ∀ f st r, X.stack = f :: st → f.rest = .done r → f.actions.countP p + busy st = 1) :
    busy Y.stack + m.endedActions p = busy X.stack + m.isRequest.toNat := by
  cases h with
  | finish rest =>
    have last := done _ _ _ rfl rest
    simp only [busy_cons, Move.endedActions, Move.isRequest, Bool.toNat_false]
    omega
  | _ => rfl

theorem Session.Step.endedActions_eq {X Y : Session} (h : Session.Step g t X m Y)
    (done : ∀ f st r, X.stack = f :: st → f.rest = .done r →
      f.actions.countP p = f.actions.countP q) : m.endedActions p = m.endedActions q := by
  cases h with
  | finish rest => exact done _ _ _ rfl rest
  | _ => rfl

/-- Requests that have done one action in `p` each, unless a collaborator has made them, keep the
balance between requests and actions. -/
theorem System.Step.requestsBy_add_actionCount (h : System.Step g X t m Y)
    (done : ∀ f st r, X.stackOf t = f :: st → f.rest = .done r → f.actions.countP p + busy st = 1)
    {u : ThreadId} (hb : requestsBy u tr + actionCount p (X.stackOf u) =
      doneBy u p tr + busy (X.stackOf u)) :
    requestsBy u ((t, m) :: tr) + actionCount p (Y.stackOf u) =
      doneBy u p ((t, m) :: tr) + busy (Y.stackOf u) := by
  rw [doneBy_cons, requestsBy_cons]
  by_cases hu : t = u
  · subst hu
    have actions := h.own.actionCount_eq p
    have idle := h.own.busy_eq done
    simp only [System.session] at actions idle
    simp only [if_true]
    omega
  · simpa [hu, h.others u (Ne.symm hu)] using hb

/-- Requests that have done as many actions in `p` as in `q` keep these in balance. -/
theorem System.Step.doneBy_add_actionCount (h : System.Step g X t m Y)
    (done : ∀ f st r, X.stackOf t = f :: st → f.rest = .done r →
      f.actions.countP p = f.actions.countP q)
    {u : ThreadId} (hb : doneBy u p tr + actionCount q (X.stackOf u) =
      doneBy u q tr + actionCount p (X.stackOf u)) :
    doneBy u p ((t, m) :: tr) + actionCount q (Y.stackOf u) =
      doneBy u q ((t, m) :: tr) + actionCount p (Y.stackOf u) := by
  rw [doneBy_cons, doneBy_cons]
  by_cases hu : t = u
  · subst hu
    have actions := h.own.actionCount_eq p
    have actions' := h.own.actionCount_eq q
    have ended := h.own.endedActions_eq done
    simp only [System.session] at actions actions'
    simp only [if_true]
    omega
  · simpa [hu, h.others u (Ne.symm hu)] using hb

end Balance

/-! ## Counters -/

/-- The action counts a request in a way that is in `p`. -/
def AnsweredAction.counts (p : Outcome → Bool) (d : AnsweredAction) : Bool :=
  (d.outcome?.map p).getD false

theorem Activity.countP_counts (f : Activity) (p : Outcome → Bool) :
    f.actions.countP (AnsweredAction.counts p) = f.outcomes.countP p := by
  rw [Activity.outcomes, List.countP_filterMap]
  rfl

namespace Outcome

def isInflated : Outcome → Bool
  | inflated _ => true
  | _ => false

/-- The request was given a complete instance. -/
def isInstance : Outcome → Bool
  | inflated _ => true
  | fastHit => true
  | recheckHit => true
  | _ => false

end Outcome

/-- How many requests were given a complete instance. -/
def Counters.instances (c : Counters) : Nat := c.inflated + c.fastHits + c.recheckHits

theorem Counters.inflated_record (c : Counters) (o : Outcome) :
    (c.record o).inflated = c.inflated + o.isInflated.toNat := by
  cases o <;> rfl

theorem Counters.instances_record (c : Counters) (o : Outcome) :
    (c.record o).instances = c.instances + o.isInstance.toNat := by
  cases o <;> simp [instances, record, Outcome.isInstance] <;> omega

/-- Actions leave the counters alone, but for those that count a request. -/
theorem Action.counters_apply (a : Action) (t : ThreadId) (s : State) :
    (a.apply t s).2.cache.counters =
      match a with
      | .record o => s.cache.counters.record o
      | _ => s.cache.counters := by
  cases a with
  | publish m r =>
    simp only [apply]
    split <;> rfl
  | _ => rfl

section Counting

variable {g : Engine} {t : ThreadId} (μ : Counters → Nat) (p : Outcome → Bool)

theorem Session.Step.counters {X Y : Session} {m : Move} (h : Session.Step g t X m Y)
    (hμ : ∀ c o, μ (c.record o) = μ c + (p o).toNat) :
    μ Y.state.cache.counters =
      μ X.state.cache.counters + (m.does (AnsweredAction.counts p)).toNat := by
  cases h with
  | @act s s' f st d next rest takes =>
    obtain ⟨a, x⟩ := d
    simp only [takes.state_eq, Action.counters_apply]
    cases a with
    | record o => exact hμ _ o
    | _ => rfl
  | @outside s st a turn outside =>
    simp only [Action.counters_apply]
    cases a with
    | record o => cases outside
    | _ => rfl
  | _ => rfl

theorem System.Run.counters {ok : System → ThreadId → Move → Prop} {X Y : System}
    {tr : List (ThreadId × Move)} (run : System.Run g ok X tr Y)
    (hμ : ∀ c o, μ (c.record o) = μ c + (p o).toNat) :
    μ Y.state.cache.counters =
      μ X.state.cache.counters + tr.countP fun e => e.2.does (AnsweredAction.counts p) := by
  induction run with
  | nil => rfl
  | @step tr Y Z t m _ _ move ih =>
    have hc := move.own.counters μ p hμ
    simp only [System.session] at hc
    rw [hc, ih, countP_cons_toNat, Nat.add_assoc]

end Counting

/-! ## Requests for one key -/

/-- Where the question is for the declaring class of `k`, the class is given. -/
def MethodKey.RealizedBy (k : MethodKey) : (q : Query) → q.Answer → Prop
  | .realizeClass c as, x =>
    c = k.definition.owner → k.context.classArgs = some as → ∃ owner, x = .ok owner
  | _, _ => True

/-- The class of `k` is realized whenever it is asked for, and descriptors are completed by the
cache alone. -/
def Contract.realizing (k : MethodKey) : Contract where
  answers := k.RealizedBy
  mayPublish := False
  builds _ _ := True
  fails c _ := c.key.key ≠ k
  sound c := by
    unfold Construction.realizeOwner
    split
    · next as has =>
      refine ⟨rfl, fun x hx => ?_⟩
      cases x with
      | error e =>
        rintro rfl
        obtain ⟨owner, ho⟩ := hx rfl has
        cases ho
      | ok owner => exact (c.realize_consults owner).mono fun _ _ => trivial
    · exact (c.realize_consults _).mono fun _ _ => trivial

/-- All requests are for `k`, its class is realized, and nothing is forgotten or completed from
outside. -/
def System.OnlyFor (g : Engine) (k : MethodKey) (_ : System) (_ : ThreadId) : Move → Prop
  | .request c => c.aim g = .key k
  | .nest c => c.aim g = .key k
  | .answer _ q x => k.RealizedBy q x
  | .outside (.publish _ _) => False
  | .reset => False
  | _ => True

section OnlyFor

variable {g : Engine} {k : MethodKey} {s : State} {f : Activity} {fs : List Activity} {φ : Phase}
  {φs : List Phase} {r : MethodResult}

/-- A request for a valid key whose class is realized is given an instance, complete or not. -/
theorem Activity.Serves.closed_of_realizing {below : List Construction}
    (h : f.Serves (.realizing k) g s below φ) (valid : g.validate k = .ok ())
    (aim : f.call.aim g = .key k) (rest : f.rest = .done r) :
    (∃ o m, φ = .closed (.cached o k m)) ∨ ∃ m, φ = .closed (.pending k m) := by
  rw [h.aim_eq] at aim
  cases h.ends rest with
  | closed v =>
    cases v with
    | cached o l m =>
      cases aim
      exact .inl ⟨o, m, rfl⟩
    | pending l m =>
      cases aim
      exact .inr ⟨m, rfl⟩
    | placeholder m => cases aim
    | unresolved c e =>
      have fails : c.key.key ≠ k := h.reached.warranted.2
      exact absurd (Aim.key.inj aim) fails
    | refused c e => exact h.holds.elim
  | invalid invalid =>
    obtain rfl := Aim.key.inj aim
    rw [valid] at invalid
    cases invalid
  | error e => cases aim

/-- Of the requests for `k` those from outside are given a complete instance, and those of
collaborators one under construction. -/
theorem Stands.instances_add_busy (h : Stands (.realizing k) g s (f :: fs) φs)
    (valid : g.validate k = .ok ()) (aims : ∀ f' ∈ f :: fs, f'.call.aim g = .key k)
    (rest : f.rest = .done r) :
    f.actions.countP (AnsweredAction.counts Outcome.isInstance) + busy fs = 1 := by
  rw [Activity.countP_counts]
  cases h with
  | @cons _ _ φ φs serves turn tail =>
    rw [serves.outcomes_eq]
    have aim := aims f List.mem_cons_self
    cases tail with
    | nil =>
      rcases serves.closed_of_realizing valid aim rest with ⟨o, m, rfl⟩ | ⟨m, rfl⟩
      · rcases serves.reached.warranted with rfl | rfl | ⟨κ, rfl⟩ <;> rfl
      · obtain ⟨c, hc, -⟩ := serves.holds
        cases hc
    | @cons f' fs φ' φs serves' turn' tail =>
      have aim' := aims f' (List.mem_cons_of_mem _ List.mem_cons_self)
      rw [serves'.aim_eq] at aim'
      have missing : s.cache.methods.find? k = none := by
        rcases serves'.follows.of_isCalling turn with ⟨c, -, -, rfl, -⟩ | ⟨rfl | ⟨c, e, rfl⟩, -⟩
        · cases aim'
          exact serves'.holds.missing
        · cases aim'
        · have fails : c.key.key ≠ k := serves'.reached.warranted.2
          exact absurd (Aim.key.inj aim') fails
      rcases serves.closed_of_realizing valid aim rest with ⟨o, m, rfl⟩ | ⟨m, rfl⟩
      · have found : s.cache.methods.find? k = some m := serves.holds
        rw [missing] at found
        cases found
      · rfl

/-- A request has counted an instance as built if and only if it has inserted one. -/
theorem Activity.Serves.inflated_eq_adds {K : Contract} {below : List Construction}
    (h : f.Serves K g s below φ) (aim : f.call.aim g = .key k) (rest : f.rest = .done r) :
    f.actions.countP (AnsweredAction.counts Outcome.isInflated) =
      f.actions.countP (AnsweredAction.adds k) := by
  rw [Activity.countP_counts, h.outcomes_eq, h.reached.insertions]
  rw [h.aim_eq] at aim
  cases h.ends rest with
  | closed v =>
    cases v with
    | cached o l m =>
      cases aim
      cases o <;> simp [Phase.outcomes, Verdict.outcomes, Phase.insertions, Verdict.insertions,
        Outcome.isInflated]
    | _ => rfl
  | invalid => rfl
  | error => rfl

end OnlyFor

/-! ## Runs -/

/-- An idle system is as consistent with one contract as with another that allows more. -/
theorem Consistent.of_idle {K K' : Contract} {g : Engine} {X : System} {P : ThreadId → List Phase}
    (h : Consistent K g X P) (idle : ∀ t, X.stackOf t = []) (builds : ∀ c r, K'.builds c r) :
    Consistent K' g X P where
  stands t := by
    rw [idle t, (h.stands t).eq_nil (idle t)]
    exact .nil
  lock := h.lock
  pending := h.pending
  built hk := by
    obtain ⟨valid, l, r, hl, hd, -⟩ := h.built hk
    exact ⟨valid, l, r, hl, hd, builds _ _⟩

/-- The accounts of a run in which all requests are for `k`. -/
structure Accounts (g : Engine) (k : MethodKey) (tr : List (ThreadId × Move)) (Y : System) :
    Prop where
  consistent : ∃ P, Consistent (.realizing k) g Y P
  aims : ∀ t, ∀ f ∈ Y.stackOf t, f.call.aim g = .key k
  requests : ∀ t,
    requestsBy t tr + actionCount (AnsweredAction.counts Outcome.isInstance) (Y.stackOf t) =
    doneBy t (AnsweredAction.counts Outcome.isInstance) tr + busy (Y.stackOf t)
  insertions : ∀ t, doneBy t (AnsweredAction.counts Outcome.isInflated) tr +
    actionCount (AnsweredAction.adds k) (Y.stackOf t) =
      doneBy t (AnsweredAction.adds k) tr +
        actionCount (AnsweredAction.counts Outcome.isInflated) (Y.stackOf t)

section Accounts

variable {g : Engine} {k : MethodKey} {X Y : System} {P : ThreadId → List Phase} {t : ThreadId}
  {m : Move} {tr : List (ThreadId × Move)}

theorem System.OnlyFor.permits (h : System.OnlyFor g k X t m) :
    (Contract.realizing k).Permits X t m := by
  cases m with
  | answer => exact h
  | outside a => cases a <;> exact h
  | reset => exact h.elim
  | _ => trivial

theorem System.OnlyFor.noReset (h : System.OnlyFor g k X t m) : System.NoReset X t m := by
  rintro rfl
  exact h

theorem Session.Step.aims {X Y : Session} (h : Session.Step g t X m Y) {S : System} {u : ThreadId}
    (ok : System.OnlyFor g k S u m) (aims : ∀ f ∈ X.stack, f.call.aim g = .key k) :
    ∀ f ∈ Y.stack, f.call.aim g = .key k := by
  cases h with
  | request | nest =>
    rintro f (_ | ⟨_, hf⟩)
    · exact ok
    · exact aims f hf
  | @act _ _ f | @answer _ f =>
    rintro f' (_ | ⟨_, hf⟩)
    · exact aims f List.mem_cons_self
    · exact aims f' (List.mem_cons_of_mem _ hf)
  | finish => exact fun f hf => aims f (List.mem_cons_of_mem _ hf)
  | outside | hold | unhold | reset => exact aims

theorem Accounts.step (h : Accounts g k tr X) (valid : g.validate k = .ok ())
    (move : System.Step g X t m Y) (ok : System.OnlyFor g k X t m) :
    Accounts g k ((t, m) :: tr) Y := by
  obtain ⟨P, consistent⟩ := h.consistent
  have stands := consistent.stands t
  refine ⟨consistent.step move ok.permits, fun u => ?_, fun u => ?_, fun u => ?_⟩
  · by_cases hu : u = t
    · subst hu
      exact move.own.aims ok (h.aims u)
    · rw [move.others u hu]
      exact h.aims u
  · refine move.requestsBy_add_actionCount (fun f st r hX rest => ?_) (h.requests u)
    have aims := h.aims t
    rw [hX] at stands aims
    exact stands.instances_add_busy valid aims rest
  · refine move.doneBy_add_actionCount (fun f st r hX rest => ?_) (h.insertions u)
    have aim := h.aims t f (hX ▸ List.mem_cons_self)
    obtain ⟨φ, φs, -, serves, -⟩ := stands.exists_serves hX
    exact serves.inflated_eq_adds aim rest

theorem System.Run.accounts (run : System.Run g (System.OnlyFor g k) X tr Y)
    (h : Consistent .any g X P) (idle : ∀ t, X.stackOf t = []) (valid : g.validate k = .ok ()) :
    Accounts g k tr Y := by
  induction run with
  | nil =>
    refine ⟨⟨P, h.of_idle idle fun _ _ => trivial⟩, fun t f hf => ?_, fun t => ?_, fun t => ?_⟩
    · rw [idle t] at hf
      cases hf
    · simp [idle t, requestsBy, doneBy]
    · simp [idle t, doneBy]
  | step _ allowed move ih => exact ih.step valid move allowed

/-- Where a request counts a complete instance, its key has one. -/
theorem Session.Step.find?_of_instance {K : Contract} {X Y : Session} {φs : List Phase}
    (h : Session.Step g t X m Y) (stands : Stands K g X.state X.stack φs)
    (aims : ∀ f ∈ X.stack, f.call.aim g = .key k)
    (hm : m.does (AnsweredAction.counts Outcome.isInstance) = true) :
    ∃ n, X.state.cache.methods.find? k = some n := by
  cases h with
  | @act _ _ f _ d _ rest takes =>
    have aim := aims f List.mem_cons_self
    obtain ⟨φ, φs, -, serves, -⟩ := stands.exists_serves rfl
    rw [serves.aim_eq] at aim
    obtain ⟨φ', step, -⟩ := serves.step rest takes
    cases step with
    | countHit | countRehit | countBuilt =>
      cases aim
      exact ⟨_, serves.holds⟩
    | _ => cases hm
  | _ => cases hm

theorem System.Run.find?_of_instances (run : System.Run g (System.OnlyFor g k) X tr Y)
    (h : Consistent .any g X P) (idle : ∀ t, X.stackOf t = []) (valid : g.validate k = .ok ())
    (hp : 0 < tr.countP fun e => e.2.does (AnsweredAction.counts Outcome.isInstance)) :
    ∃ n, Y.state.cache.methods.find? k = some n := by
  induction run with
  | nil => cases hp
  | @step tr Y Z t m run allowed move ih =>
    have accounts := run.accounts h idle valid
    obtain ⟨P', consistent⟩ := accounts.consistent
    have kept : ∀ n, Y.state.cache.methods.find? k = some n →
        ∃ n, Z.state.cache.methods.find? k = some n := by
      intro n hn
      exact ⟨n, move.own.find?_of_some (consistent.stands t) allowed.noReset hn⟩
    rw [List.countP_cons] at hp
    cases hm : m.does (AnsweredAction.counts Outcome.isInstance) with
    | false =>
      obtain ⟨n, hn⟩ := ih (by simpa [hm] using hp)
      exact kept n hn
    | true =>
      obtain ⟨n, hn⟩ := move.own.find?_of_instance (consistent.stands t) (accounts.aims t) hm
      exact kept n hn

/-- Of `n` requests for a key that can be realized and has no instance yet, one builds the
instance, and the others find it. -/
theorem System.Run.counters_of_onlyFor (run : System.Run g (System.OnlyFor g k) X tr Y)
    (h : Consistent .any g X P) (idle : ∀ t, X.stackOf t = []) (idle' : ∀ t, Y.stackOf t = [])
    (valid : g.validate k = .ok ()) (missing : X.state.cache.methods.find? k = none)
    (some : 0 < tr.countP fun e => e.2.isRequest) :
    Y.state.cache.counters.inflated = X.state.cache.counters.inflated + 1 ∧
      Y.state.cache.counters.instances =
        X.state.cache.counters.instances + tr.countP fun e => e.2.isRequest := by
  have accounts := run.accounts h idle valid
  have instances : (tr.countP fun e => e.2.isRequest) =
      tr.countP fun e => e.2.does (AnsweredAction.counts Outcome.isInstance) := by
    refine countP_eq_of_threads fun t => ?_
    simpa [idle' t, requestsBy, doneBy] using accounts.requests t
  have insertions : (tr.countP fun e => e.2.does (AnsweredAction.counts Outcome.isInflated)) =
      tr.countP fun e => e.2.does (AnsweredAction.adds k) := by
    refine countP_eq_of_threads fun t => ?_
    simpa [idle' t, doneBy] using accounts.insertions t
  obtain ⟨n, hn⟩ := run.find?_of_instances h idle valid (instances ▸ some)
  have once := (run.mono fun _ _ _ h => System.OnlyFor.noReset h).countP_adds h k
  simp only [missing, hn, Option.isSome_none, Option.isSome_some, Bool.toNat_false,
    Bool.toNat_true, Nat.zero_add] at once
  have inflated := run.counters Counters.inflated Outcome.isInflated Counters.inflated_record
  have total := run.counters Counters.instances Outcome.isInstance Counters.instances_record
  rw [insertions] at inflated
  rw [← instances] at total
  exact ⟨inflated.trans (congrArg _ once), total⟩

end Accounts

end Monomorph
