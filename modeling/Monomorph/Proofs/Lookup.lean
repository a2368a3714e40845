import Monomorph.Proofs.Serving

/-!
What a request has looked for in vain. The key that it has missed is read off its actions
(`Activity.missed?`); it stays without an instance as long as the request is the innermost one,
unless it inserts one itself (`Session.Run.missed_is_missing`). So one thread alone never finds an
instance when it looks again under the lock.
-/

namespace Monomorph

/-- The key that the action shows to be without an instance, or that it gives one. -/
def AnsweredAction.misses : AnsweredAction → Option (Option MethodKey)
  | ⟨.findMethod k, none⟩ => some (some k)
  | ⟨.addMethod _ _, _⟩ => some none
  | _ => none

/-- The key that the request has looked for in vain, and not inserted since. -/
def Activity.missed? (f : Activity) : Option MethodKey :=
  (f.actions.findSome? AnsweredAction.misses).join

/-- The key that is missing when a request ends so. -/
def Verdict.missing? : Verdict → Option MethodKey
  | cached .recheckHit k _ => some k
  | cached _ _ _ => none
  | pending k _ => some k
  | placeholder _ => none
  | unresolved c _ => some c.key.key
  | refused c _ => some c.key.key

namespace Phase

/-- The key that a request in this phase has looked for in vain, and not inserted since. -/
def missing? : Phase → Option MethodKey
  | asked _ => none
  | placing => none
  | hit _ _ => none
  | missed k => some k
  | locked k => some k
  | rehit k _ => some k
  | absent k => some k
  | guarded k _ => some k
  | unclaimed k => some k
  | allocated c => some c.key.key
  | building c => some c.key.key
  | published c _ => some c.key.key
  | inserted _ _ => none
  | finished _ _ => none
  | refused c _ => some c.key.key
  | abandoned c _ => some c.key.key
  | closing v => v.missing?
  | closed v => v.missing?

variable {K : Contract} {g : Engine} {a : Aim} {ds : List AnsweredAction} {d : AnsweredAction}
  {φ φ' : Phase}

theorem Step.misses (h : φ.Step K g d φ') : d.misses.getD φ.missing? = φ'.missing? := by
  cases h with
  | allocate hk => simp [AnsweredAction.misses, missing?, hk]
  | _ => rfl

theorem Reached.findSome?_misses (h : Reached K g a ds φ) :
    (ds.findSome? AnsweredAction.misses).join = φ.missing? :=
  h.findSome?_join (fun _ => rfl) fun step => step.misses

end Phase

section Serves

variable {K : Contract} {g : Engine} {s s' : State} {below : List Construction} {f : Activity}
  {φ φ' : Phase} {d : AnsweredAction} {t : ThreadId} {k : MethodKey}

theorem Activity.Serves.missed (h : f.Serves K g s below φ) : f.missed? = φ.missing? :=
  h.reached.findSome?_misses

/-- What a request has missed stays missing by its own actions. -/
theorem Phase.Step.missing_kept (h : φ.Step K g d φ') (takes : d.Takes t s s')
    (hk : φ'.missing? = some k) (known : φ.missing? = some k → s.cache.methods.find? k = none) :
    s'.cache.methods.find? k = none := by
  cases h with
  | miss | missAgain =>
    cases hk
    rw [takes.state_eq]
    exact takes.response_eq.symm
  | insert => cases hk
  | allocate h =>
    subst h
    rw [takes.state_eq]
    exact known hk
  | publish | refuse =>
    rw [takes.publish_frame.1]
    exact known hk
  | _ =>
    rw [takes.state_eq]
    exact known hk

/-- What a request that waits has missed is missing while it is not counted, and while it asks. -/
theorem Stands.missing_of_calling {fs : List Activity} {φs : List Phase}
    (h : Stands K g s (f :: fs) φs) (turn : IsOpen (f :: fs)) (hk : f.missed? = some k)
    (waits : f.outcomes = [] ∨ f.construction? ≠ none) : s.cache.methods.find? k = none := by
  have calling : f.rest.isCalling = true := turn
  obtain ⟨φ, φs, -, serves, -⟩ := h.exists_serves rfl
  rw [serves.missed] at hk
  rcases serves.follows.of_isCalling calling with ⟨c, -, -, rfl, -⟩ | ⟨rfl | ⟨c, e, rfl⟩, -⟩
  · cases hk
    exact serves.holds.missing
  · cases hk
  · rcases waits with counted | asks
    · rw [serves.outcomes_eq] at counted
      cases counted
    · rw [serves.construction?_eq calling] at asks
      exact absurd rfl asks

end Serves

namespace Session

variable {g : Engine} {t : ThreadId} {ok : Session → Move → Prop} {X Y : Session}
  {φs : List Phase} {tr : List Move} {m : Move} {quiet : Prop}

/-- What the innermost request has missed is missing, as long as it has not been counted, or for
good if the formatter is `quiet`. -/
def MissedIsMissing (quiet : Prop) (X : Session) : Prop :=
  ∀ f st k, X.stack = f :: st → f.missed? = some k → f.outcomes = [] ∨ quiet →
    X.state.cache.methods.find? k = none

theorem MissedIsMissing.step (h : X.MissedIsMissing quiet) (sound : X.Sound .any g φs)
    (move : Step g t X m Y)
    (tail : quiet → X.TailAsks) : Y.MissedIsMissing quiet := by
  intro f st k hY hk waits
  cases move with
  | request c | nest c =>
    cases hY
    cases hk
  | @act _ _ f fs d next rest takes =>
    cases hY
    obtain ⟨φ, φs, -, serves, -⟩ := sound.stands.exists_serves rfl
    obtain ⟨φ', step, -⟩ := serves.step rest takes
    have hφ' : φ'.missing? = some k := (serves.reached.step step).findSome?_misses.symm.trans hk
    refine step.missing_kept takes hφ' fun hφ => h f st k rfl (serves.missed.trans hφ) ?_
    refine waits.imp_left fun counted => ?_
    have later : f.outcomes.Sublist (d :: f.actions |>.filterMap AnsweredAction.outcome?) :=
      (List.sublist_cons_self d f.actions).filterMap _
    exact List.sublist_nil.1 (counted ▸ later)
  | @answer _ f fs c q next rest x =>
    cases hY
    exact h f st k rfl hk waits
  | @finish _ f' fs r rest =>
    obtain ⟨φ, φs, -, -, turn, tail'⟩ := sound.stands.exists_serves rfl
    cases hY
    refine tail'.missing_of_calling turn hk (waits.imp_right fun hq => ?_)
    exact tail hq f (by simp)
  | @outside s fs a turn outside =>
    have quiet : s.Quiet (fun _ => True) (a.apply t s).2 :=
      Action.quiet_of_isOutside outside fun _ _ _ => trivial
    rw [quiet.methods]
    exact h f st k hY hk waits
  | hold | unhold => cases hY
  | reset => rfl

/-- The innermost request knows what is missing. -/
theorem Run.missed_is_missing (run : Run g t ok X tr Y) (resets : ∀ Z m, ok Z m → ResetsIdle Z m)
    (fresh : X.state.IsFresh) (idle : X.stack = [])
    (tail : ∀ tr Z, Run g t ok X tr Z → quiet → Z.TailAsks) : Y.MissedIsMissing quiet := by
  induction run with
  | nil => simp [MissedIsMissing, idle]
  | step run _ move ih =>
    obtain ⟨P, h⟩ := (run.mono resets).consistent_any fresh idle
    exact ih.step h.sound move (tail _ _ run)

/-- With a quiet formatter the innermost request knows for good what is missing. -/
theorem Reachable.missed_is_missing (h : X.Reachable g t Orderly) : X.MissedIsMissing True := by
  obtain ⟨W, tr, fresh, idle, run⟩ := h
  exact run.missed_is_missing Orderly.resetsIdle fresh idle fun _ _ run _ => run.tail_asks idle

/-- One thread alone never finds an instance when it looks again under the lock. -/
theorem Step.not_recheckHit (h : Step g t X m Y) (sound : X.Sound .any g φs)
    (knows : X.MissedIsMissing quiet) : m ≠ .act ⟨.record .recheckHit, ()⟩ := by
  rintro rfl
  generalize hm : Move.act ⟨.record .recheckHit, ()⟩ = m at h
  cases h with
  | @act s s' f st d next rest takes =>
    cases hm
    obtain ⟨φ, φs, -, serves, -⟩ := sound.stands.exists_serves rfl
    obtain ⟨φ', step, -⟩ := serves.step rest takes
    generalize hd : (⟨.record .recheckHit, ()⟩ : AnsweredAction) = d at step
    cases step with
    | @countRehit k n =>
      have counted : f.outcomes = [] := serves.outcomes_eq
      have missing := knows f st k rfl serves.missed (.inl counted)
      have found : s.cache.methods.find? k = some n := serves.holds
      rw [missing] at found
      cases found
    | _ => simp at hd
  | _ => cases hm

end Session

end Monomorph
