import Monomorph.Proofs.Ledger
import Monomorph.Proofs.Lookup
import Monomorph.Proofs.Ownership
import Monomorph.Proofs.Replay

/-!
The statistics of a cache are an exact account of the requests it has served. Main statement:
`Session.Run.requests_accounted`, for every run of one thread from a new cache in which instances
are forgotten only between requests. What collaborators answer, and what they request, is up to
them.
-/

namespace Monomorph

/-! ## Counters -/

namespace Counters

/-- How many requests have been counted so. -/
def count (c : Counters) : Outcome → Nat
  | .inflated k => c.byKind k
  | .fastHit => c.fastHits
  | .recheckHit => c.recheckHits
  | .recursionHit => c.recursionHits
  | .failure => c.failures
  | .degenerate => c.degenerate

def total (c : Counters) : Nat :=
  c.inflated + c.fastHits + c.recheckHits + c.recursionHits + c.failures + c.degenerate

/-- How many descriptors have been built, by the counts of the kinds. -/
def dispatchTotal (c : Counters) : Nat := c.snapshot.dispatch.foldr (fun e n => e.2 + n) 0

theorem count_record (c : Counters) (o o' : Outcome) :
    (c.record o).count o' = c.count o' + (o == o').toNat := by
  cases o with
  | inflated k =>
    cases o' with
    | inflated l =>
      by_cases h : l = k
      · simp [record, count, h]
      · simp [record, count, h, Ne.symm h]
    | _ => rfl
  | _ => cases o' <;> rfl

theorem total_record (c : Counters) (o : Outcome) : (c.record o).total = c.total + 1 := by
  cases o <;> simp [record, total] <;> omega

theorem dispatchTotal_record (c : Counters) (o : Outcome) :
    (c.record o).dispatchTotal = c.dispatchTotal + o.isInflated.toNat := by
  cases o with
  | inflated k =>
    cases k <;> simp [record, dispatchTotal, snapshot, DispatchKind.all, Outcome.isInflated] <;>
      omega
  | _ => rfl

/-- No counter of `c` is above that of `d`. -/
structure Le (c d : Counters) : Prop where
  inflated : c.inflated ≤ d.inflated
  count : ∀ o, c.count o ≤ d.count o

theorem Le.refl (c : Counters) : c.Le c := ⟨Nat.le_refl _, fun _ => Nat.le_refl _⟩

theorem Le.trans {c d e : Counters} (h : c.Le d) (h' : d.Le e) : c.Le e :=
  ⟨Nat.le_trans h.inflated h'.inflated, fun o => Nat.le_trans (h.count o) (h'.count o)⟩

theorem le_record (c : Counters) (o : Outcome) : c.Le (c.record o) where
  inflated := by
    rw [inflated_record]
    exact Nat.le_add_right _ _
  count o' := by
    rw [count_record]
    exact Nat.le_add_right _ _

end Counters

/-! ## Counts of a run -/

/-- The ways in which the request that ends has been counted. -/
def Move.outcomes : Move → List Outcome
  | finish f _ => f.outcomes
  | _ => []

def Move.ended? : Move → Option Activity
  | finish f _ => some f
  | _ => none

theorem Move.flatMap_ended (tr : List Move) :
    (tr.filterMap ended?).flatMap Activity.outcomes = tr.flatMap outcomes := by
  induction tr with
  | nil => rfl
  | cons m tr ih => cases m <;> simp [List.filterMap_cons, ended?, outcomes, ih]

theorem actionCount_append (p : AnsweredAction → Bool) (fs fs' : List Activity) :
    actionCount p (fs ++ fs') = actionCount p fs + actionCount p fs' := by
  induction fs with
  | nil => simp
  | cons f fs ih => simp [ih, Nat.add_assoc]

theorem actionCount_eq_of_countP {p q : AnsweredAction → Bool} {fs : List Activity}
    (h : ∀ f ∈ fs, f.actions.countP p = f.actions.countP q) :
    actionCount p fs = actionCount q fs := by
  induction fs with
  | nil => rfl
  | cons f fs ih =>
    rw [actionCount_cons, actionCount_cons, h f List.mem_cons_self,
      ih fun f hf => h f (List.mem_cons_of_mem _ hf)]

theorem actionCount_eq_zero {p : AnsweredAction → Bool} {fs : List Activity}
    (new : ∀ f ∈ fs, f.actions = []) : actionCount p fs = 0 := by
  induction fs with
  | nil => rfl
  | cons f fs ih => simp [new f, ih fun f hf => new f (List.mem_cons_of_mem _ hf)]

theorem actionCount_counts (p : Outcome → Bool) (fs : List Activity) :
    actionCount (AnsweredAction.counts p) fs = (fs.flatMap Activity.outcomes).countP p := by
  induction fs with
  | nil => rfl
  | cons f fs ih =>
    rw [actionCount_cons, Activity.countP_counts, ih, List.flatMap_cons, List.countP_append]

namespace Session

variable {K : Contract} {g : Engine} {t : ThreadId} {ok : Session → Move → Prop}
  {X Y : Session} {φs : List Phase} {tr : List Move} {m : Move} {p q : AnsweredAction → Bool}

/-- The requests that have ended, and those that are being served. -/
def requests (tr : List Move) (Y : Session) : List Activity := tr.filterMap Move.ended? ++ Y.stack

/-- What has been done in a run has been done by its requests. -/
theorem Run.countP_does (run : Run g t ok X tr Y) (new : ∀ f ∈ X.stack, f.actions = [])
    (p : AnsweredAction → Bool) : tr.countP (Move.does p) = actionCount p (requests tr Y) := by
  induction run with
  | nil => exact (actionCount_eq_zero new).symm
  | @step tr Y Z m run _ move ih =>
    have count := move.actionCount_eq p
    have ended : actionCount p ((m :: tr).filterMap Move.ended?) =
        actionCount p (tr.filterMap Move.ended?) + m.endedActions p := by
      cases m <;> simp [List.filterMap_cons, Move.ended?, Move.endedActions, Nat.add_comm]
    rw [requests, actionCount_append] at ih ⊢
    rw [countP_cons_toNat, ended, ih]
    omega

/-- Where requests have done as many actions in `p` as in `q`, so has the run. -/
theorem Run.countP_does_eq (run : Run g t ok X tr Y) (new : ∀ f ∈ X.stack, f.actions = [])
    (ended : ∀ f r, Move.finish f r ∈ tr → f.actions.countP p = f.actions.countP q)
    (serving : ∀ f ∈ Y.stack, f.actions.countP p = f.actions.countP q) :
    tr.countP (Move.does p) = tr.countP (Move.does q) := by
  rw [run.countP_does new, run.countP_does new]
  refine actionCount_eq_of_countP fun f hf => ?_
  rcases List.mem_append.1 hf with hf | hf
  · obtain ⟨m, hm, hf⟩ := List.mem_filterMap.1 hf
    cases m with
    | finish f' r =>
      cases hf
      exact ended f r hm
    | _ => cases hf
  · exact serving f hf

/-- The ways in which requests have been counted, those that are being served included. -/
def outcomes (tr : List Move) (Y : Session) : List Outcome :=
  tr.flatMap Move.outcomes ++ Y.stack.flatMap Activity.outcomes

theorem Run.countP_counts (run : Run g t ok X tr Y) (new : ∀ f ∈ X.stack, f.actions = [])
    (p : Outcome → Bool) :
    tr.countP (Move.does (AnsweredAction.counts p)) = (outcomes tr Y).countP p := by
  rw [run.countP_does new, actionCount_counts, requests, List.flatMap_append, Move.flatMap_ended,
    outcomes]

theorem Run.counters (run : Run g t ok X tr Y) (μ : Counters → Nat) (p : Outcome → Bool)
    (hμ : ∀ c o, μ (c.record o) = μ c + (p o).toNat) :
    μ Y.state.cache.counters =
      μ X.state.cache.counters + tr.countP (Move.does (AnsweredAction.counts p)) := by
  induction run with
  | nil => rfl
  | @step tr Y Z m run _ move ih =>
    rw [move.counters μ p hμ, ih, countP_cons_toNat, Nat.add_assoc]

theorem Step.counters_le (h : Step g t X m Y) :
    X.state.cache.counters.Le Y.state.cache.counters := by
  cases h with
  | act rest takes =>
    rw [takes.state_eq, Action.counters_apply]
    split
    · exact Counters.le_record _ _
    · exact .refl _
  | @outside s st a turn outside =>
    simp only [Action.counters_apply]
    split
    · exact Counters.le_record _ _
    · exact .refl _
  | _ => exact .refl _

theorem Run.counters_le (run : Run g t ok X tr Y) :
    X.state.cache.counters.Le Y.state.cache.counters := by
  induction run with
  | nil => exact .refl _
  | step _ _ move ih => exact ih.trans move.counters_le

end Session

/-! ## Requests that have ended -/

def MethodResult.isInvalid : MethodResult → Bool
  | .error (.invalid _) => true
  | _ => false

def MethodResult.isAlreadyRealized : MethodResult → Bool
  | .error (.alreadyRealized _) => true
  | _ => false

/-- The request goes no further: it is a virtual call, and has no key. -/
def Aim.isError : Aim → Bool
  | error _ => true
  | _ => false

namespace Move

/-- A request ends. A virtual call is one as soon as it has a key. -/
def endsRequest (g : Engine) : Move → Bool
  | finish f _ => !(f.call.aim g).isError
  | _ => false

def endsWith (p : MethodResult → Bool) : Move → Bool
  | finish _ r => p r
  | _ => false

end Move

theorem virtualKey_error {v : SlotMethod} {called : Descriptor} {e : Error}
    (h : virtualKey v called = .error e) : ∃ t, e = .notAnInstance t := by
  simp only [virtualKey, bind, Except.bind] at h
  split at h
  · next e' ht =>
    cases h
    cases v with
    | definition m => cases ht
    | descriptor d =>
      simp only [SlotMethod.target] at ht
      split at ht
      · cases ht
      · cases ht
        exact ⟨_, rfl⟩
  · split at h
    · cases h
    · cases h
      exact ⟨_, rfl⟩

/-- The only mistake in a request itself is a virtual call between methods that are no
instances. -/
theorem Call.aim_error {g : Engine} {c : Call} {e : Error} (h : c.aim g = .error e) :
    ∃ t, e = .notAnInstance t := by
  cases c with
  | get k copyKey =>
    simp only [aim, Engine.aimAt] at h
    split at h <;> cases h
  | request r copyKey => cases r <;> cases h
  | virtualTarget v called =>
    simp only [aim] at h
    split at h
    · simp only [Engine.aimAt] at h
      split at h <;> cases h
    · next hv =>
      cases h
      exact virtualKey_error hv

section Ended

variable {K : Contract} {g : Engine} {a : Aim} {ds : List AnsweredAction} {φ : Phase}
  {r : MethodResult}

/-- A request that has ended has been counted once, or has been refused in one of two ways. -/
theorem Phase.Ends.counted_once (h : φ.Ends g r)
    (aim : ∀ e, φ.aim = .error e → ∃ t, e = .notAnInstance t)
    (refused : ∀ c e, φ.refusal? = some (c, e) → ∃ t, e = .alreadyRealized t) :
    φ.outcomes.length + r.isInvalid.toNat + r.isAlreadyRealized.toNat =
      (!φ.aim.isError).toNat := by
  cases h with
  | closed v =>
    cases v with
    | refused c e =>
      obtain ⟨t, rfl⟩ := refused c e rfl
      rfl
    | cached | pending | placeholder | unresolved => rfl
  | invalid => rfl
  | error e =>
    obtain ⟨t, rfl⟩ := aim e rfl
    rfl

end Ended

/-! ## Descriptors that have been built -/

namespace AnsweredAction

/-- A descriptor is completed whose dispatch is of this kind. -/
def completes (κ : DispatchKind) : AnsweredAction → Bool
  | ⟨.publish _ r, .ok ()⟩ => decide (r.dispatch.kind = κ)
  | _ => false

def inserts : AnsweredAction → Bool
  | ⟨.addMethod _ _, _⟩ => true
  | _ => false

end AnsweredAction

namespace Phase

/-- A descriptor has been completed and not yet counted. -/
def isUncounted : Phase → Bool
  | published _ _ => true
  | inserted _ _ => true
  | finished _ _ => true
  | _ => false

def completions (κ : DispatchKind) : Phase → Nat
  | published _ r => if r.dispatch.kind = κ then 1 else 0
  | inserted _ r => if r.dispatch.kind = κ then 1 else 0
  | finished _ r => if r.dispatch.kind = κ then 1 else 0
  | φ => φ.outcomes.count (.inflated κ)

def insertionCount : Phase → Nat
  | inserted _ _ => 1
  | finished _ _ => 1
  | φ => φ.outcomes.countP Outcome.isInflated

variable {K : Contract} {g : Engine} {a : Aim} {ds : List AnsweredAction} {d : AnsweredAction}
  {φ φ' : Phase}
  {r : MethodResult}

theorem Step.completions_eq (h : φ.Step K g d φ') (κ : DispatchKind) :
    φ.completions κ + (if d.completes κ then 1 else 0) = φ'.completions κ := by
  cases h with
  | publish => simp [Phase.completions, AnsweredAction.completes, Phase.outcomes]
  | countBuilt =>
    simp [Phase.completions, AnsweredAction.completes, Phase.outcomes, Verdict.outcomes,
      List.count_singleton]
  | _ => rfl

theorem Reached.countP_completes (h : Reached K g a ds φ) (κ : DispatchKind) :
    ds.countP (AnsweredAction.completes κ) = φ.completions κ :=
  h.countP (fun _ => rfl) fun step => step.completions_eq κ

theorem Step.insertionCount_eq (h : φ.Step K g d φ') :
    φ.insertionCount + (if d.inserts then 1 else 0) = φ'.insertionCount := by
  cases h <;> rfl

theorem Reached.countP_inserts (h : Reached K g a ds φ) :
    ds.countP AnsweredAction.inserts = φ.insertionCount :=
  h.countP (fun _ => rfl) fun step => step.insertionCount_eq

theorem Ends.isUncounted (h : φ.Ends g r) : φ.isUncounted = false := by
  cases h <;> rfl

end Phase

/-- The request has counted all that it has completed and inserted. -/
structure Activity.HasCountedAll (f : Activity) : Prop where
  completes : ∀ κ, f.actions.countP (AnsweredAction.completes κ) =
    f.actions.countP (AnsweredAction.counts (· == .inflated κ))
  inserts : f.actions.countP AnsweredAction.inserts =
    f.actions.countP (AnsweredAction.counts Outcome.isInflated)

section HasCountedAll

variable {K : Contract} {g : Engine} {s : State} {f : Activity} {fs : List Activity} {φ : Phase}
  {φs : List Phase}

theorem Phase.Reached.has_counted_all (h : Reached K g (f.call.aim g) f.actions φ)
    (hφ : φ.isUncounted = false) : f.HasCountedAll := by
  have outcomes : f.outcomes = φ.outcomes := h.outcomes
  constructor
  · intro κ
    rw [h.countP_completes, f.countP_counts, outcomes]
    cases φ <;> first | rfl | cases hφ
  · rw [h.countP_inserts, f.countP_counts, outcomes]
    cases φ <;> first | rfl | cases hφ

/-- While a collaborator is at work, everything that has been completed is counted. -/
theorem Stands.has_counted_all (h : Stands K g s fs φs) (turn : IsOpen fs) (hf : f ∈ fs) :
    f.HasCountedAll := by
  induction h with
  | nil => cases hf
  | @cons f' fs φ φs serves turn' _ ih =>
    rcases List.mem_cons.1 hf with rfl | hf
    · refine serves.reached.has_counted_all ?_
      rcases serves.follows.of_isCalling turn with
        ⟨c, -, -, rfl, -⟩ | ⟨rfl | ⟨c, e, rfl⟩, -⟩ <;> rfl
    · exact ih turn' hf

end HasCountedAll

/-- What a construction finds out never takes the shape of the placeholder. -/
def Contract.resolving : Contract where
  answers _ _ := True
  mayPublish := True
  builds _ r := r.dispatch ≠ .nestingTooDeep
  fails _ _ := True
  sound c := c.realizeOwner_consults fun x => by
    cases x with
    | error e => trivial
    | ok owner => exact (c.realize_consults owner).mono fun _ hr => hr.2

namespace Move

/-- The descriptor that a construction completes, and how. -/
def completed? : Move → Option (MethodId × Realization)
  | act ⟨.publish m r, .ok ()⟩ => some (m, r)
  | _ => none

def isReset : Move → Bool
  | reset => true
  | _ => false

end Move

namespace Session

variable {g : Engine} {t : ThreadId} {X Y Z : Session} {φs : List Phase} {tr : List Move}
  {m : Move} {n : MethodId} {r : Realization}

def completed (tr : List Move) : List (MethodId × Realization) := tr.filterMap Move.completed?

/-- What has happened since instances were last forgotten. -/
def sinceReset (tr : List Move) : List Move := tr.takeWhile fun m => !m.isReset

theorem sinceReset_reset (tr : List Move) : sinceReset (.reset :: tr) = [] := rfl

theorem sinceReset_cons (hm : m ≠ .reset) (tr : List Move) :
    sinceReset (m :: tr) = m :: sinceReset tr := by
  cases m with
  | reset => exact absurd rfl hm
  | _ => rfl

def ResetsAtRest (X : Session) (m : Move) : Prop := m = .reset → X.stack = []

theorem ResetsAtRest.resetsIdle (h : X.ResetsAtRest m) : X.ResetsIdle m := by
  cases m with
  | reset => simp [ResetsIdle, constructions, h rfl]
  | _ => trivial

/-! ## Lengths of tables -/

/-- Instances that are not forgotten come in one by one. -/
theorem Step.size_eq {K : Contract} (h : Step g t X m Y) (stands : Stands K g X.state X.stack φs)
    (hm : m ≠ .reset) : Y.state.cache.methods.size =
      X.state.cache.methods.size + (m.does AnsweredAction.inserts).toNat := by
  rcases h.methods_eq stands hm with ⟨hY, adds⟩ | ⟨k, n, rfl, missing, hY⟩
  · have none : m.does AnsweredAction.inserts = false := by
      cases m with
      | act d =>
        obtain ⟨a, x⟩ := d
        cases a with
        | addMethod k n => simpa [Move.adds, Move.does, AnsweredAction.adds] using adds k
        | _ => rfl
      | _ => rfl
    rw [hY, none]
    rfl
  · rw [hY, Table.size_insert_new _ missing]
    rfl

/-- A table holds what has been inserted since instances were last forgotten. -/
theorem Run.size_eq (run : Run g t ResetsAtRest X tr Y) (fresh : X.state.IsFresh)
    (idle : X.stack = []) :
    Y.state.cache.methods.size = (sinceReset tr).countP (Move.does AnsweredAction.inserts) := by
  induction run with
  | nil =>
    rw [fresh.methods]
    rfl
  | @step tr Y Z m run _ move ih =>
    obtain ⟨P, h⟩ := (run.mono fun _ _ h => h.resetsIdle).consistent_any fresh idle
    by_cases hm : m = .reset
    · subst hm
      cases move
      rfl
    · rw [move.size_eq h.sound.stands hm, ih, sinceReset_cons hm, countP_cons_toNat]

/-- What has happened since instances were last forgotten is a run of its own, which no request
overlaps. -/
theorem Run.exists_sinceReset (run : Run g t ResetsAtRest X tr Y) (idle : X.stack = []) :
    ∃ Z, Z.stack = [] ∧ Run g t ResetsAtRest Z (sinceReset tr) Y := by
  induction run with
  | nil => exact ⟨X, idle, .nil⟩
  | @step tr Y Z m run allowed move ih =>
    obtain ⟨W, idle', run'⟩ := ih
    by_cases hm : m = .reset
    · subst hm
      cases move with
      | reset =>
        rw [sinceReset_reset]
        refine ⟨_, ?_, .nil⟩
        exact allowed rfl
    · rw [sinceReset_cons hm]
      exact ⟨W, idle', .step run' allowed move⟩

/-! ## The account -/

/-- What the statistics say of a run from a new cache. A request that has ended is in one of the
counters, or in none if it has been refused; requests that are still being served may be counted
already. The count of a kind is the number of descriptors that have been built with it, and the
table holds what has been built since instances were last forgotten. -/
structure Accounted (g : Engine) (t : ThreadId) (tr : List Move) (Y : Session) : Prop where
  once : ∀ f r, Move.finish f r ∈ tr →
    f.outcomes.length + r.isInvalid.toNat + r.isAlreadyRealized.toNat =
      ((Move.finish f r).endsRequest g).toNat
  counted : ∀ o, Y.state.cache.counters.count o = (outcomes tr Y).count o
  account : tr.countP (Move.endsRequest g) + (Y.stack.flatMap Activity.outcomes).length =
    Y.state.cache.counters.total + tr.countP (Move.endsWith MethodResult.isInvalid) +
      tr.countP (Move.endsWith MethodResult.isAlreadyRealized)
  recheckHits : Y.state.cache.counters.recheckHits = 0
  dispatchTotal : Y.state.cache.counters.dispatchTotal = Y.state.cache.counters.inflated
  byKind : IsOpen Y.stack → ∀ κ, Y.state.cache.counters.byKind κ =
    (completed tr).countP fun e => e.2.dispatch.kind = κ
  completed_nodup : ((completed tr).map Prod.fst).Nodup
  completed_described : ∀ m r, (m, r) ∈ completed tr →
    ∃ h, Y.state.store.get? m = some (.describing h (some r))
  nestingTooDeep : Y.state.cache.counters.byKind .nestingTooDeep = 0
  size : IsOpen Y.stack → Y.state.cache.methods.size =
    (sinceReset tr).countP (Move.does (AnsweredAction.counts Outcome.isInflated))
  grows : ∀ ok tr' Z, Run g t ok Y tr' Z → Y.state.cache.counters.Le Z.state.cache.counters

theorem countP_completed (tr : List Move) (κ : DispatchKind) :
    (completed tr).countP (fun e => e.2.dispatch.kind = κ) =
      tr.countP (Move.does (AnsweredAction.completes κ)) := by
  rw [completed, List.countP_filterMap]
  congr 1
  funext m
  cases m with
  | act d =>
    obtain ⟨a, x⟩ := d
    cases a with
    | publish n r => cases x <;> rfl
    | _ => rfl
  | _ => rfl

theorem eq_of_does_counts {o : Outcome} (h : m.does (AnsweredAction.counts (· == o)) = true) :
    m = .act ⟨.record o, ()⟩ := by
  cases m with
  | act d =>
    obtain ⟨a, x⟩ := d
    cases a with
    | record o' =>
      obtain rfl : o' = o := by
        simpa [Move.does, AnsweredAction.counts, AnsweredAction.outcome?] using h
      rfl
    | _ => cases h
  | _ => cases h

section Account

variable (run : Run g t ResetsAtRest X tr Y) (fresh : X.state.IsFresh) (idle : X.stack = [])

include run fresh idle

theorem Run.consistent_resolving : ∃ P, Consistent .resolving g (Y.alone t) P := by
  refine run.consistent (fun Z m hm => ?_) fresh idle
  exact Contract.permits_of_resetsIdle (fun _ _ => trivial) trivial hm.resetsIdle

theorem Run.ended_resolving {f : Activity} {r : MethodResult} (hf : Move.finish f r ∈ tr) :
    ∃ φ, Phase.Reached .resolving g (f.call.aim g) f.actions φ ∧ φ.Ends g r := by
  refine run.exists_reached_of_finish (fun Z m hm => ?_) fresh idle hf
  exact Contract.permits_of_resetsIdle (fun _ _ => trivial) trivial hm.resetsIdle

theorem Run.counted_once {f : Activity} {r : MethodResult} (hf : Move.finish f r ∈ tr) :
    f.outcomes.length + r.isInvalid.toNat + r.isAlreadyRealized.toNat =
      ((Move.finish f r).endsRequest g).toNat := by
  obtain ⟨φ, reached, ends⟩ := run.ended_resolving fresh idle hf
  have outcomes : f.outcomes = φ.outcomes := reached.outcomes
  have described := run.described_ended (fun _ _ h => h.resetsIdle) fresh idle hf
  rw [outcomes, Move.endsRequest, ← reached.aim_eq]
  refine ends.counted_once (fun e he => ?_) (fun c e hc => ?_)
  · exact Call.aim_error (reached.aim_eq.symm.trans he)
  · obtain ⟨r', hr⟩ := reached.refuses hc
    obtain ⟨c', -, -, -, -, he⟩ := described.refused c.method r' e hr
    exact ⟨_, he⟩

theorem Run.described_completed {n : MethodId} {r : Realization} (hn : (n, r) ∈ completed tr) :
    ∃ h, Y.state.store.get? n = some (.describing h (some r)) := by
  have hd : Move.act ⟨.publish n r, .ok ()⟩ ∈ tr := by
    obtain ⟨m, hm, hc⟩ := List.mem_filterMap.1 hn
    unfold Move.completed? at hc
    split at hc
    · cases hc
      exact hm
    · cases hc
  have described : ∃ ds, AnsweredAction.Described Y.state ds ∧ ⟨.publish n r, .ok ()⟩ ∈ ds := by
    rcases run.exists_action hd with ⟨a, ha, hd⟩ | ⟨a, r', ha, hd⟩
    · exact ⟨a.actions, (run.exclusive (fun _ _ h => h.resetsIdle) fresh idle).described a ha, hd⟩
    · exact ⟨a.actions, run.described_ended (fun _ _ h => h.resetsIdle) fresh idle ha, hd⟩
  obtain ⟨ds, hds, hd⟩ := described
  obtain ⟨c, -, -, hc⟩ := hds.completed n r hd
  exact ⟨c.key, hc⟩

theorem Run.completed_nodup : ((completed tr).map Prod.fst).Nodup := by
  induction run with
  | nil => exact .nil
  | @step tr Y Z m run _ move ih =>
    obtain ⟨P, h⟩ := run.consistent_resolving fresh idle
    rw [completed, List.filterMap_cons]
    cases hm : m.completed? with
    | none => exact ih
    | some e =>
      obtain ⟨n, r⟩ := e
      refine List.nodup_cons.2 ⟨fun hn => ?_, ih⟩
      obtain ⟨⟨n', r'⟩, hn', rfl⟩ := List.mem_map.1 hn
      obtain ⟨l, hd⟩ := run.described_completed fresh idle hn'
      unfold Move.completed? at hm
      split at hm
      · cases hm
        cases move with
        | act rest takes =>
          have pending := (takes.describing_of_publish hd).1
          cases pending
      · cases hm

theorem Run.not_nestingTooDeep (hm : m ∈ tr) :
    m.does (AnsweredAction.counts (· == .inflated .nestingTooDeep)) = false := by
  induction run with
  | nil => cases hm
  | @step tr Y Z m' run _ move ih =>
    rcases List.mem_cons.1 hm with rfl | hm
    · obtain ⟨P, h⟩ := run.consistent_resolving fresh idle
      cases move with
      | act rest takes =>
        obtain ⟨φ, φs, -, serves, -⟩ := h.sound.stands.exists_serves rfl
        obtain ⟨φ', step, -⟩ := serves.step rest takes
        cases step with
        | @countBuilt c r =>
          have builds : r.dispatch ≠ .nestingTooDeep := serves.reached.warranted.2
          cases hr : r.dispatch with
          | nestingTooDeep => exact absurd hr builds
          | _ => rfl
        | _ => rfl
      | _ => rfl
    · exact ih hm

theorem Run.not_recheckHit (hm : m ∈ tr) :
    m.does (AnsweredAction.counts (· == .recheckHit)) = false := by
  induction run with
  | nil => cases hm
  | @step tr Y Z m' run _ move ih =>
    rcases List.mem_cons.1 hm with rfl | hm
    · have resets := run.mono fun _ _ h => h.resetsIdle
      obtain ⟨P, h⟩ := resets.consistent_any fresh idle
      have knows : Y.MissedIsMissing False :=
        run.missed_is_missing (fun _ _ h => h.resetsIdle) fresh idle nofun
      refine Bool.eq_false_iff.2 fun hm => ?_
      exact move.not_recheckHit h.sound knows (eq_of_does_counts hm)
    · exact ih hm

/-- Every request that has ended is in one summand, so all of them together are the sum. -/
theorem Run.countP_endsRequest : tr.countP (Move.endsRequest g) =
    (tr.flatMap Move.outcomes).length + tr.countP (Move.endsWith MethodResult.isInvalid) +
      tr.countP (Move.endsWith MethodResult.isAlreadyRealized) := by
  have once : ∀ m ∈ tr, (m.endsRequest g).toNat = m.outcomes.length +
      (m.endsWith MethodResult.isInvalid).toNat +
      (m.endsWith MethodResult.isAlreadyRealized).toNat := by
    intro m hm
    cases m with
    | finish f r => exact (run.counted_once fresh idle hm).symm
    | _ => rfl
  clear run
  induction tr with
  | nil => rfl
  | cons m tr ih =>
    have ih := ih fun m hm => once m (List.mem_cons_of_mem _ hm)
    have hm := once m List.mem_cons_self
    simp only [countP_cons_toNat, List.flatMap_cons, List.length_append]
    omega

end Account

/-- The statistics are an exact account of every run of one thread from a new cache. -/
theorem Run.requests_accounted (run : Run g t ResetsAtRest X tr Y) (new : X.state.cache = {})
    (idle : X.stack = []) : Accounted g t tr Y := by
  have fresh : X.state.IsFresh := ⟨by rw [new], by rw [new]⟩
  have resets : ∀ Z m, ResetsAtRest Z m → ResetsIdle Z m := fun _ _ h => h.resetsIdle
  have none : ∀ f ∈ X.stack, f.actions = [] := by simp [idle]
  obtain ⟨P, consistent⟩ := run.consistent_resolving fresh idle
  have counted : ∀ o, Y.state.cache.counters.count o =
      tr.countP (Move.does (AnsweredAction.counts (· == o))) := by
    intro o
    have h := run.counters (Counters.count · o) (· == o) fun c o' => c.count_record o' o
    rw [h, new]
    cases o <;> exact Nat.zero_add _
  have uncounted : ∀ o, (∀ m ∈ tr, m.does (AnsweredAction.counts (· == o)) = false) →
      Y.state.cache.counters.count o = 0 := by
    intro o never
    rw [counted]
    exact List.countP_eq_zero.2 fun m hm => by simp [never m hm]
  have ended : ∀ f r, Move.finish f r ∈ tr → f.HasCountedAll := by
    intro f r hf
    obtain ⟨φ, reached, ends⟩ := run.ended_resolving fresh idle hf
    exact reached.has_counted_all ends.isUncounted
  have serving : IsOpen Y.stack → ∀ f ∈ Y.stack, f.HasCountedAll := fun turn f hf =>
    consistent.sound.stands.has_counted_all turn hf
  constructor
  · exact fun f r hf => run.counted_once fresh idle hf
  · intro o
    rw [counted, run.countP_counts none]
    rfl
  · have total := run.counters Counters.total (fun _ => true) Counters.total_record
    rw [run.countP_counts none, List.countP_true, outcomes, List.length_append, new] at total
    have account := run.countP_endsRequest fresh idle
    have zero : ({} : Cache).counters.total = 0 := rfl
    omega
  · exact uncounted .recheckHit fun m hm => run.not_recheckHit fresh idle hm
  · have h := run.counters Counters.dispatchTotal Outcome.isInflated Counters.dispatchTotal_record
    have h' := run.counters Counters.inflated Outcome.isInflated Counters.inflated_record
    rw [h, h', new]
    rfl
  · intro turn κ
    have h : Y.state.cache.counters.byKind κ = _ := counted (.inflated κ)
    rw [h, countP_completed]
    exact (run.countP_does_eq none (fun f r hf => (ended f r hf).completes κ)
      fun f hf => (serving turn f hf).completes κ).symm
  · exact run.completed_nodup fresh idle
  · exact fun m r hm => run.described_completed fresh idle hm
  · exact uncounted (.inflated .nestingTooDeep) fun m hm => run.not_nestingTooDeep fresh idle hm
  · intro turn
    obtain ⟨Z, idle', run'⟩ := run.exists_sinceReset idle
    have sub : sinceReset tr ⊆ tr := (List.takeWhile_sublist _).subset
    rw [run.size_eq fresh idle]
    exact run'.countP_does_eq (by simp [idle']) (fun f r hf => (ended f r (sub hf)).inserts)
      fun f hf => (serving turn f hf).inserts
  · exact fun ok tr' Z run' => run'.counters_le

/-- A request that its own construction makes again. -/
theorem Run.requests_accounted_reentrant :
    ∃ R, replay {} 0 .plain Sample.reentrant ([], ⟨{}, []⟩) = some R ∧
      R.1.countP (Move.endsRequest {}) = 2 ∧ R.2.state.cache.counters.inflated = 1 ∧
      R.2.state.cache.counters.recursionHits = 1 ∧ Accounted {} 0 R.1 R.2 := by
  have facts : (replay {} 0 .plain Sample.reentrant ([], ⟨{}, []⟩)).map (fun R =>
      (R.1.countP (Move.endsRequest {}), R.2.state.cache.counters.inflated,
        R.2.state.cache.counters.recursionHits)) = some (2, 1, 1) := by
    decide +kernel
  obtain ⟨R, hR, hf⟩ := Option.map_eq_some_iff.1 facts
  obtain ⟨ended, inflated, recursive⟩ : _ ∧ _ ∧ _ := by simpa using hf
  have run : Run {} 0 ResetsAtRest ⟨{}, []⟩ R.1 R.2 :=
    replay_run (fun _ m hm hr => by subst hr; exact hm.elim) .nil hR
  exact ⟨R, hR, ended, inflated, recursive, run.requests_accounted rfl rfl⟩

end Session

end Monomorph
