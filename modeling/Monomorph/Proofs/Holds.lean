import Monomorph.Proofs.Failure

/-!
Holds of the metadata lock. A request leaves as many holds as it has found, whatever it comes to and
whatever is requested meanwhile; and where a collaborator is asked there is one hold for each
construction in progress, on top of those from before. Main statement: `System.Run.lock_given_back`,
for any threads, and also if instances are forgotten in the midst of constructions.
-/

namespace Monomorph

open Phase

/-! ## Actions and the lock -/

namespace AnsweredAction

/-- The lock is taken. -/
def locks : AnsweredAction → Bool
  | ⟨.acquire, _⟩ => true
  | _ => false

/-- A construction is begun: its descriptor becomes pending. -/
def begins : AnsweredAction → Bool
  | ⟨.addPending _ _, _⟩ => true
  | _ => false

end AnsweredAction

/-- The request has begun a construction, and so it has one in progress until it ends. -/
def Activity.isConstructing (f : Activity) : Bool := f.actions.any AnsweredAction.begins

/-- A request that ends so has been answered without the lock. -/
def Verdict.isUnlocked : Verdict → Bool
  | cached .fastHit _ _ => true
  | placeholder _ => true
  | _ => false

/-- A request that ends so has begun a construction. -/
def Verdict.isBuilt : Verdict → Bool
  | cached (.inflated _) _ _ => true
  | unresolved _ _ => true
  | refused _ _ => true
  | _ => false

namespace Phase

/-- How often a request in this phase has taken the lock. -/
def lockings : Phase → Nat
  | closing v => (!v.isUnlocked).toNat
  | closed v => (!v.isUnlocked).toNat
  | φ => φ.locks.toNat

/-- How many constructions a request in this phase has begun. -/
def begun : Phase → Nat
  | allocated _ => 0
  | closing v => v.isBuilt.toNat
  | closed v => v.isBuilt.toNat
  | φ => φ.attempt?.isSome.toNat

variable {K : Contract} {g : Engine} {a : Aim} {ds : List AnsweredAction} {d : AnsweredAction}
  {φ φ' : Phase}

theorem Step.lockings_eq (h : φ.Step K g d φ') :
    φ.lockings + (if d.locks then 1 else 0) = φ'.lockings := by
  cases h <;> rfl

theorem Reached.countP_locks (h : Reached K g a ds φ) :
    ds.countP AnsweredAction.locks = φ.lockings :=
  h.countP (fun _ => rfl) fun step => step.lockings_eq

theorem Step.begun_eq (h : φ.Step K g d φ') :
    φ.begun + (if d.begins then 1 else 0) = φ'.begun := by
  cases h <;> rfl

theorem Reached.countP_begins (h : Reached K g a ds φ) :
    ds.countP AnsweredAction.begins = φ.begun :=
  h.countP (fun _ => rfl) fun step => step.begun_eq

end Phase

namespace Activity.Courses

variable {K : Contract} {g : Engine} {f : Activity} {φ : Phase}

theorem isConstructing_eq (h : f.Courses K g φ) : f.isConstructing = decide (0 < φ.begun) := by
  have count : f.actions.countP AnsweredAction.begins = φ.begun := h.reached.countP_begins
  rw [← count, Bool.eq_iff_iff, decide_eq_true_iff, List.countP_pos_iff]
  exact List.any_eq_true

/-- A request that waits for a collaborator holds the lock exactly if it has a construction in
progress, be it that it asks or that it names the key after a failure. -/
theorem locks_eq (h : f.Courses K g φ) (calling : f.rest.isCalling = true) :
    φ.locks = f.isConstructing := by
  rw [h.isConstructing_eq]
  rcases h.follows.of_isCalling calling with ⟨c, -, -, rfl, -⟩ | ⟨rfl | ⟨c, e, rfl⟩, -⟩
  · rfl
  · rfl
  · rfl

theorem isConstructing_of_asking (h : f.Courses K g φ) (asks : f.construction? ≠ none) :
    f.isConstructing = true := by
  obtain ⟨c, hc⟩ := Option.ne_none_iff_exists'.1 asks
  rw [h.isConstructing_eq, h.construction?_eq hc]
  rfl

end Activity.Courses

/-! ## The holds of a stack -/

/-- The requests of a stack are in these phases, and all but the innermost wait. While a request is
served there is one hold more than when it was made if it is in a phase with the lock, and as many
if it is not; `n` are there now. -/
inductive Balanced (K : Contract) (g : Engine) (t : ThreadId) :
    Nat → List Activity → List Phase → Prop where
  | nil {n : Nat} : Balanced K g t n [] []
  | cons {n : Nat} {f : Activity} {fs : List Activity} {φ : Phase} {φs : List Phase}
      (courses : f.Courses K g φ) (holds : n = f.start.lock.holds t + φ.locks.toNat)
      (turn : IsOpen fs) (tail : Balanced K g t (f.start.lock.holds t) fs φs) :
      Balanced K g t n (f :: fs) (φ :: φs)

namespace Balanced

variable {K : Contract} {g : Engine} {t : ThreadId} {n : Nat} {f : Activity} {fs : List Activity}
  {φs : List Phase}

theorem exists_courses (h : Balanced K g t n (f :: fs) φs) : ∃ φ ψs, φs = φ :: ψs ∧
    f.Courses K g φ ∧ n = f.start.lock.holds t + φ.locks.toNat ∧ IsOpen fs ∧
      Balanced K g t (f.start.lock.holds t) fs ψs := by
  cases h with
  | cons courses holds turn tail => exact ⟨_, _, rfl, courses, holds, turn, tail⟩

/-- While a collaborator is at work, there is one hold for each construction in progress, on top of
the holds from before the outermost request. -/
theorem eq_add (h : Balanced K g t n fs φs) (turn : IsOpen fs) {f₀ : Activity}
    (outermost : f₀ ∈ fs.getLast?) :
    n = f₀.start.lock.holds t + fs.countP Activity.isConstructing := by
  induction h with
  | nil => simp at outermost
  | @cons n f fs φ φs courses holds turn' tail ih =>
    have own : φ.locks.toNat = if f.isConstructing then 1 else 0 := by
      rw [courses.locks_eq turn]
      cases f.isConstructing <;> rfl
    rw [List.countP_cons]
    cases fs with
    | nil =>
      obtain rfl : f = f₀ := by simpa using outermost
      rw [holds, own]
      simp
    | cons f' fs =>
      have below := ih turn' (by simpa using outermost)
      omega

theorem isConstructing_of_asking (h : Balanced K g t n fs φs) {f : Activity} (hf : f ∈ fs)
    (asks : f.construction? ≠ none) : f.isConstructing = true := by
  induction h with
  | nil => cases hf
  | cons courses _ _ _ ih =>
    rcases List.mem_cons.1 hf with rfl | hf
    · exact courses.isConstructing_of_asking asks
    · exact ih hf

end Balanced

/-! ## Runs -/

section Runs

variable {K : Contract} {g : Engine} {t : ThreadId}

namespace Session

variable {X Y : Session} {m : Move} {n : Nat} {φs : List Phase}

/-- A move of a thread keeps its holds balanced. -/
theorem Step.balanced (h : Step g t X m Y) (admits : K.Admits m)
    (hX : Balanced K g t (X.state.lock.holds t) X.stack φs) :
    ∃ ψs, Balanced K g t (Y.state.lock.holds t) Y.stack ψs := by
  cases h with
  | @request s c => exact ⟨_, .cons (.made K g c s) rfl trivial .nil⟩
  | @nest s f st c calling => exact ⟨_, .cons (.made K g c s) rfl calling hX⟩
  | @act s s' f st d next rest takes =>
    obtain ⟨φ, φs, rfl, courses, holds, turn, tail⟩ := hX.exists_courses
    obtain ⟨φ', step, follows⟩ := courses.step rest takes
    -- A request has at most one hold of its own, and the phase tells whether it has it now.
    have now : s.lock.holds t = f.start.lock.holds t + φ.locks.toNat := holds
    have held : φ.locks = true → s.lock.holds t ≠ 0 := by
      intro locks
      rw [now, locks]
      exact Nat.succ_ne_zero _
    have change : s.lock.holds t + φ'.locks.toNat = s'.lock.holds t + φ.locks.toNat :=
      step.holds_self takes held
    have later : s'.lock.holds t = f.start.lock.holds t + φ'.locks.toNat := by omega
    exact ⟨_, .cons ⟨follows, courses.reached.step step⟩ later turn tail⟩
  | answer rest x =>
    obtain ⟨φ, φs, rfl, courses, holds, turn, tail⟩ := hX.exists_courses
    have follows := courses.follows
    rw [rest] at follows
    exact ⟨_, .cons ⟨follows.2 x admits, courses.reached⟩ holds turn tail⟩
  | @finish s f st r rest =>
    obtain ⟨φ, φs, rfl, courses, holds, turn, tail⟩ := hX.exists_courses
    have free : φ.locks = false := by
      cases courses.ends rest <;> rfl
    have back : s.lock.holds t = f.start.lock.holds t := by
      rw [free] at holds
      exact holds
    exact ⟨φs, back ▸ tail⟩
  | outside turn outside =>
    rw [Action.lock_of_isOutside outside]
    exact ⟨_, hX⟩
  | hold | unhold => exact ⟨_, .nil⟩
  | reset => exact ⟨_, hX⟩

/-- A move of one thread leaves the holds of the others alone. -/
theorem Step.holds_of_ne (h : Step g t X m Y)
    (hX : Balanced K g t (X.state.lock.holds t) X.stack φs) {u : ThreadId} (hu : u ≠ t) :
    Y.state.lock.holds u = X.state.lock.holds u := by
  cases h with
  | act rest takes =>
    obtain ⟨φ, φs, rfl, courses, holds, -⟩ := hX.exists_courses
    obtain ⟨φ', step, -⟩ := courses.step rest takes
    refine step.holds_of_ne takes (fun locks => ?_) hu
    rw [holds, locks]
    exact Nat.succ_ne_zero _
  | outside turn outside => rw [Action.lock_of_isOutside outside]
  | hold available => exact MetadataLock.holds_acquire_of_ne available hu
  | unhold held =>
    exact MetadataLock.holds_release_of_ne (by simpa [MetadataLock.isHeldBy] using held) hu
  | request | nest | answer | finish | reset => rfl

end Session

namespace System

variable {ok : System → ThreadId → Move → Prop} {X Y : System} {tr : List (ThreadId × Move)}

/-- The holds of all threads are balanced in every run. -/
theorem Run.balanced (run : Run g ok X tr Y) (idle : ∀ u, X.stackOf u = []) (t : ThreadId) :
    ∃ φs, Balanced .any g t (Y.state.lock.holds t) (Y.stackOf t) φs := by
  induction run generalizing t with
  | nil => exact ⟨[], idle t ▸ .nil⟩
  | @step tr Y Z u m _ _ move ih =>
    obtain ⟨φs, own⟩ := ih u
    by_cases hu : t = u
    · subst hu
      exact move.own.balanced (Contract.any_admits m) own
    · have same : Z.state.lock.holds t = Y.state.lock.holds t := move.own.holds_of_ne own hu
      rw [same, move.others t hu]
      exact ih t

/-- The lock is given back as often as it is taken, and it is held where it has to be. -/
structure LockKept (Y : System) : Prop where
  /-- A request that ends leaves as many holds as it has found. -/
  returned : ∀ t f st r, Y.stackOf t = f :: st → f.rest = .done r →
    Y.state.lock.holds t = f.start.lock.holds t
  /-- Where a construction asks, there is a hold for each construction in progress, on top of those
  from before the outermost request. -/
  consulting : ∀ t f st f₀, Y.stackOf t = f :: st → f.construction? ≠ none →
    f₀ ∈ (f :: st).getLast? → Y.state.lock.holds t =
      f₀.start.lock.holds t + (f :: st).countP Activity.isConstructing ∧
    0 < (f :: st).countP Activity.isConstructing
  /-- If the formatter makes no requests, the constructions in progress are those that ask. -/
  progress : ∀ t, (∀ f ∈ Y.stackOf t, f.construction? ≠ none) →
    (Y.stackOf t).countP Activity.isConstructing = (Y.session t).constructions.length
  exclusive : ∀ t u, Y.state.lock.holds t ≠ 0 → u ≠ t → Y.state.lock.holds u = 0
  /-- Neither a request that finds its instance at once, nor one for the placeholder, nor one for a
  key that is not valid ever takes the lock. -/
  unlocked : ∀ t, ∀ f ∈ Y.stackOf t, (.fastHit ∈ f.outcomes ∨ .degenerate ∈ f.outcomes ∨
      ∃ e, f.rest = .done (.error (.invalid e))) →
    ∀ d ∈ f.actions, d.action ≠ .acquire

/-- Requests that come to their end without the lock have never taken it. -/
theorem Course.not_acquire (h : Y.Course .any g tr) {f : Activity} (hf : f ∈ Y.stackOf t)
    (ends : .fastHit ∈ f.outcomes ∨ .degenerate ∈ f.outcomes ∨
      ∃ e, f.rest = .done (.error (.invalid e))) : ∀ d ∈ f.actions, d.action ≠ .acquire := by
  obtain ⟨φ, courses⟩ := h.courses t f hf
  have counts : f.outcomes = φ.outcomes := courses.reached.outcomes
  have none : φ.lockings = 0 := by
    rcases ends with found | placed | ⟨e, rest⟩
    · rw [counts] at found
      cases φ with
      | closing v | closed v =>
        cases v <;> simp [Phase.outcomes, Verdict.outcomes] at found
        subst found
        rfl
      | _ => simp [Phase.outcomes] at found
    · rw [counts] at placed
      cases φ with
      | placing => rfl
      | closing v | closed v =>
        cases v with
        | placeholder => rfl
        | cached o k m =>
          obtain rfl : Outcome.degenerate = o := by
            simpa [Phase.outcomes, Verdict.outcomes] using placed
          rcases courses.reached.warranted with h | h | ⟨κ, h⟩ <;> cases h
        | _ => simp [Phase.outcomes, Verdict.outcomes] at placed
      | _ => simp [Phase.outcomes] at placed
    · have fails : φ.Fails g (f.call.aim g) (.invalid e) :=
        (courses.ends rest).fails courses.reached (h.described t f hf)
      cases fails
      rfl
  intro d hd acquires
  have count : f.actions.countP AnsweredAction.locks = φ.lockings := courses.reached.countP_locks
  rw [none, List.countP_eq_zero] at count
  refine count d hd ?_
  obtain ⟨a, x⟩ := d
  cases acquires
  rfl

/-- In every run of any threads, whatever the collaborators answer and request. Any thread may have
the lock before it makes a request, as often as it likes. -/
theorem Run.lock_given_back (run : Run g ok X tr Y) (fresh : X.state.IsFresh)
    (idle : ∀ u, X.stackOf u = []) : LockKept Y where
  returned t f st r hY rest := by
    obtain ⟨φs, balanced⟩ := run.balanced idle t
    rw [hY] at balanced
    obtain ⟨φ, -, -, courses, holds, -⟩ := balanced.exists_courses
    have free : φ.locks = false := by
      cases courses.ends rest <;> rfl
    rw [holds, free]
    rfl
  consulting t f st f₀ hY asks outermost := by
    obtain ⟨φs, balanced⟩ := run.balanced idle t
    rw [hY] at balanced
    obtain ⟨c, hc⟩ := Option.ne_none_iff_exists'.1 asks
    have turn : IsOpen (f :: st) := Activity.isCalling_of_construction? hc
    refine ⟨balanced.eq_add turn outermost, List.countP_pos_iff.2 ⟨f, List.mem_cons_self, ?_⟩⟩
    exact balanced.isConstructing_of_asking List.mem_cons_self asks
  progress t asking := by
    obtain ⟨φs, balanced⟩ := run.balanced idle t
    have all : (Y.stackOf t).countP Activity.isConstructing = (Y.stackOf t).length :=
      List.countP_eq_length.2 fun f hf => balanced.isConstructing_of_asking hf (asking f hf)
    have waiting : ((Y.stackOf t).filterMap Activity.construction?).length =
        (Y.stackOf t).length :=
      List.filterMap_length_eq_length.2 fun f hf =>
        Option.isSome_iff_ne_none.2 (asking f hf)
    rw [all]
    exact waiting.symm
  exclusive t u held hu := MetadataLock.holds_eq_zero_of_ne held hu
  unlocked t f hf ends :=
    (run.course (fun _ _ m _ => Contract.any_admits m) fresh idle).not_acquire hf ends

/-- A thread that has the lock twice already, with two constructions one in the other. -/
theorem Run.lock_given_back_nested :
    ∃ R, replay {} .plain (Sample.nested.map fun q => (0, q)) ([], {state := {lock := .held 0 1}}) =
        some R ∧
      (R.2.session 0).constructions.length = 2 ∧ R.2.state.lock.holds 0 = 4 ∧ LockKept R.2 := by
  have facts : (replay {} .plain (Sample.nested.map fun q => (0, q))
      ([], {state := {lock := .held 0 1}})).map (fun R =>
        ((R.2.session 0).constructions.length, R.2.state.lock.holds 0)) = some (2, 4) := by
    decide +kernel
  obtain ⟨R, hR, hf⟩ := Option.map_eq_some_iff.1 facts
  obtain ⟨waiting, holds⟩ := Prod.mk.inj hf
  have run : Run {} (fun _ _ _ => True) {state := {lock := .held 0 1}} R.1 R.2 :=
    replay_run (fun _ _ _ _ => trivial) .nil hR
  exact ⟨R, hR, waiting, holds, run.lock_given_back ⟨rfl, rfl⟩ fun _ => rfl⟩

end System

end Runs

end Monomorph
