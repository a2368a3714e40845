import Monomorph.Proofs.Nesting

/-!
What requests end with. In every run of any threads a request that is after a key ends with a
descriptor of that key, if it ends well: one that a construction has completed, or the pending one
if the recursion guard has answered. Main statement: `System.Run.gives`.
-/

namespace Monomorph

/-! ## Where a request has its descriptor from -/

/-- The complete instance that a request ends with. -/
def Verdict.instance? : Verdict → Option (MethodKey × MethodId)
  | cached _ k n => some (k, n)
  | _ => none

/-- The descriptor under construction that a request ends with. -/
def Verdict.pending? : Verdict → Option (MethodKey × MethodId)
  | pending k n => some (k, n)
  | _ => none

namespace Phase

/-- The complete instance that a request in this phase has found or made. -/
def instance? : Phase → Option (MethodKey × MethodId)
  | hit k n => some (k, n)
  | rehit k n => some (k, n)
  | published c _ => some (c.key.key, c.method)
  | inserted c _ => some (c.key.key, c.method)
  | finished c _ => some (c.key.key, c.method)
  | closing v => v.instance?
  | closed v => v.instance?
  | _ => none

/-- The descriptor under construction that a request in this phase has found. -/
def pending? : Phase → Option (MethodKey × MethodId)
  | guarded k n => some (k, n)
  | closing v => v.pending?
  | closed v => v.pending?
  | _ => none

variable {K : Contract} {g : Engine} {a : Aim} {ds : List AnsweredAction} {d : AnsweredAction}
  {φ φ' : Phase}
  {k : MethodKey} {n : MethodId}

theorem Step.instance? (h : φ.Step K g d φ') (hk : φ'.instance? = some (k, n)) :
    φ.instance? = some (k, n) ∨ d = ⟨.findMethod k, some n⟩ ∨
      ∃ r, d = ⟨.publish n r, .ok ()⟩ := by
  cases h with
  | hit | rehit =>
    cases hk
    exact .inr (.inl rfl)
  | publish =>
    cases hk
    exact .inr (.inr ⟨_, rfl⟩)
  | countHit | countRehit | insert | unclaim | countBuilt => exact .inl hk
  | nameFailed | noteLocked | unlock | noteUnlocked => exact .inl hk
  | _ => cases hk

theorem Step.pending? (h : φ.Step K g d φ') (hk : φ'.pending? = some (k, n)) :
    φ.pending? = some (k, n) ∨ d = ⟨.findPending k, some n⟩ := by
  cases h with
  | guard =>
    cases hk
    exact .inr rfl
  | countGuard | nameFailed | noteLocked | unlock | noteUnlocked => exact .inl hk
  | _ => cases hk

/-- The complete instance of a request has been found, or completed by the request. -/
theorem Reached.instance? (h : Reached K g a ds φ) (hk : φ.instance? = some (k, n)) :
    ⟨.findMethod k, some n⟩ ∈ ds ∨ ∃ r, ⟨.publish n r, .ok ()⟩ ∈ ds := by
  induction h with
  | asked => cases hk
  | step _ step ih =>
    rcases step.instance? hk with hk | rfl | ⟨r, rfl⟩
    · rcases ih hk with found | ⟨r, completed⟩
      · exact .inl (List.mem_cons_of_mem _ found)
      · exact .inr ⟨r, List.mem_cons_of_mem _ completed⟩
    · exact .inl List.mem_cons_self
    · exact .inr ⟨r, List.mem_cons_self⟩

theorem Reached.pending? (h : Reached K g a ds φ) (hk : φ.pending? = some (k, n)) :
    ⟨.findPending k, some n⟩ ∈ ds := by
  induction h with
  | asked => cases hk
  | step _ step ih =>
    rcases step.pending? hk with hk | rfl
    · exact List.mem_cons_of_mem _ (ih hk)
    · exact List.mem_cons_self

theorem Step.of_addPending (h : φ.Step K g ⟨.addPending k n, ()⟩ φ') :
    ∃ c, φ = .allocated c ∧ c.key.key = k ∧ c.method = n := by
  cases h with
  | claim => exact ⟨_, rfl, rfl, rfl⟩

theorem IsOf.key_eq {c : Construction} (h : φ.IsOf c) (hk : φ.instance? = some (k, n)) :
    c.key.key = k := by
  cases φ with
  | published | inserted | finished =>
    cases h
    cases hk
    rfl
  | hit | rehit => cases h
  | closing v | closed v =>
    cases v with
    | cached =>
      cases hk
      exact h.1.symm
    | _ => cases hk
  | _ => cases hk

end Phase

/-! ## Runs -/

/-- A construction has completed an instance of the key. -/
def System.Built (tr : List (ThreadId × Move)) (Y : System) (k : MethodKey) (n : MethodId) : Prop :=
  ∃ h r, h.key = k ∧ Y.state.store.get? n = some (.describing h (some r)) ∧ Completed tr n r

/-- The descriptor is one of the key. -/
def Store.HasOf (s : Store) (k : MethodKey) (n : MethodId) : Prop :=
  ∃ h o, h.key = k ∧ s.get? n = some (.describing h o)

/-- What requests have found is what it is filed as. -/
structure System.Filed (tr : List (ThreadId × Move)) (Y : System) : Prop where
  pending : ∀ k n, Y.state.cache.pending.find? k = some n → Y.state.store.HasOf k n
  found : ∀ t k n, (t, .act ⟨.findMethod k, some n⟩) ∈ tr → Y.Built tr k n
  guarded : ∀ t k n, (t, .act ⟨.findPending k, some n⟩) ∈ tr → Y.state.store.HasOf k n

namespace System

variable {K : Contract} {g : Engine} {X Y Z : System} {t : ThreadId} {m : Move}
  {tr : List (ThreadId × Move)} {ok : System → ThreadId → Move → Prop} {k : MethodKey}
  {n : MethodId}

theorem Built.hasOf (h : Y.Built tr k n) : Y.state.store.HasOf k n := by
  obtain ⟨l, r, hl, hd, -⟩ := h
  exact ⟨l, some r, hl, hd⟩

theorem Built.step (h : Y.Built tr k n) (move : Step g Y t m Z) : Z.Built ((t, m) :: tr) k n := by
  obtain ⟨l, r, hl, hd, u, hr⟩ := h
  exact ⟨l, r, hl, move.own.store_extends_any.complete hd rfl, u, List.mem_cons_of_mem _ hr⟩

theorem Step.hasOf (move : Step g Y t m Z) (h : Y.state.store.HasOf k n) :
    Z.state.store.HasOf k n := by
  obtain ⟨l, o, hl, hd⟩ := h
  obtain ⟨o', hd', -⟩ := move.own.store_extends_any.describing hd
  exact ⟨l, o', hl, hd'⟩

theorem Filed.step (h : Filed tr Y) (course : Y.Course K g tr) (move : Step g Y t m Z) :
    Filed ((t, m) :: tr) Z := by
  refine ⟨fun k n hn => ?_, fun u k n hd => ?_, fun u k n hd => ?_⟩
  · rcases move.own.find?_cases with ⟨d, -, f, hf, next, rest, takes⟩ | kept
    · rcases takes.pending_find? hn with hn | rfl
      · exact move.hasOf (h.pending k n hn)
      · obtain ⟨φ, courses⟩ := course.courses t f hf
        obtain ⟨φ', step, -⟩ := courses.step rest takes
        obtain ⟨c, rfl, rfl, rfl⟩ := step.of_addPending
        obtain ⟨o, hd⟩ := (course.described t f hf).allocated c (courses.reached.allocates rfl)
        exact move.hasOf ⟨c.key, o, rfl, hd⟩
    · exact move.hasOf (h.pending k n ((kept k n).2 hn))
  · rcases List.mem_cons.1 hd with hd | hd
    · cases hd
      obtain ⟨f, next, -, -, takes⟩ := move.own.act_cases
      have found : some n = Y.state.cache.methods.find? k := takes.response_eq
      exact Built.step (course.inserted k n found.symm) move
    · exact (h.found u k n hd).step move
  · rcases List.mem_cons.1 hd with hd | hd
    · cases hd
      obtain ⟨f, next, -, -, takes⟩ := move.own.act_cases
      have found : some n = Y.state.cache.pending.find? k := takes.response_eq
      exact move.hasOf (h.pending k n found.symm)
    · exact move.hasOf (h.guarded u k n hd)

theorem Run.filed (run : Run g ok X tr Y) (admits : ∀ Z u m, ok Z u m → K.Admits m)
    (fresh : X.state.IsFresh) (idle : ∀ u, X.stackOf u = []) : Filed tr Y := by
  induction run with
  | nil =>
    refine ⟨fun k n hn => ?_, by simp, by simp⟩
    rw [fresh.pending] at hn
    cases hn
  | step run _ move ih => exact ih.step (run.course admits fresh idle) move

/-- What a request ends with that is after the key. -/
structure Gives (tr : List (ThreadId × Move)) (Y : System) (f : Activity) (k : MethodKey)
    (n : MethodId) : Prop where
  /-- It is a descriptor of the key. -/
  hasOf : Y.state.store.HasOf k n
  /-- If the recursion guard has not answered, it has been completed by a construction. -/
  built : f.isRecursive = false → Y.Built tr k n

theorem Course.gives (h : Y.Course K g tr) (filed : Filed tr Y) {f : Activity}
    (hf : f ∈ Y.stackOf t) (aim : f.call.aim g = .key k) (rest : f.rest = .done (.ok n)) :
    Gives tr Y f k n := by
  obtain ⟨φ, courses⟩ := h.courses t f hf
  have outcomes : f.outcomes = φ.outcomes := courses.reached.outcomes
  rw [← courses.reached.aim_eq] at aim
  have ends := courses.ends rest
  generalize hr : Except.ok n = r at ends
  cases ends with
  | error | invalid => cases hr
  | closed v =>
    cases v with
    | unresolved | refused => cases hr
    | placeholder => cases aim
    | pending l m =>
      cases hr
      cases aim
      obtain ⟨u, hd⟩ := h.done t f hf _ (courses.reached.pending? rfl)
      refine ⟨filed.guarded u k n hd, fun recursive => ?_⟩
      simp [Activity.isRecursive, outcomes, Phase.outcomes, Verdict.outcomes] at recursive
    | cached o l m =>
      cases hr
      cases aim
      have built : Y.Built tr k n := by
        rcases courses.reached.instance? rfl with found | ⟨r, completes⟩
        · obtain ⟨u, hd⟩ := h.done t f hf _ found
          exact filed.found u k n hd
        · obtain ⟨c, hc, rfl, hd⟩ := (h.described t f hf).completed n r completes
          obtain ⟨u, hu⟩ := h.done t f hf _ completes
          exact ⟨c.key, r, (courses.reached.isOf hc).key_eq rfl, hd, u, hu⟩
      exact ⟨built.hasOf, fun _ => built⟩

/-- In every run, also if instances are forgotten in the midst of constructions. -/
theorem Run.gives (run : Run g ok X tr Y) (admits : ∀ Z u m, ok Z u m → K.Admits m)
    (fresh : X.state.IsFresh) (idle : ∀ u, X.stackOf u = []) {f : Activity}
    (hf : f ∈ Y.stackOf t) (aim : f.call.aim g = .key k) (rest : f.rest = .done (.ok n)) :
    Gives tr Y f k n :=
  (run.course admits fresh idle).gives (run.filed admits fresh idle) hf aim rest

end System

/-! ## Results and aims -/

/-- A request with this aim may have ended with the descriptor. -/
def Aim.Fits (s : Store) (n : MethodId) : Aim → Prop
  | key k => s.HasOf k n
  | placeholder => s.get? n = some .placeholder
  | error _ => False

theorem Phase.Ends.aim_ne_error {g : Engine} {φ : Phase} {n : MethodId} (h : φ.Ends g (.ok n))
    (e : Error) : φ.aim ≠ .error e := by
  generalize hr : Except.ok n = r at h
  cases h with
  | closed v => cases v <;> nofun
  | invalid | error => cases hr

namespace System

variable {g : Engine} {X Y Z : System} {t : ThreadId} {m : Move} {tr : List (ThreadId × Move)}
  {ok : System → ThreadId → Move → Prop} {n : MethodId} {f : Activity}

theorem Run.fits (run : Run g ok X tr Y) (fresh : X.state.IsFresh) (idle : ∀ u, X.stackOf u = [])
    (hf : f ∈ Y.stackOf t) (rest : f.rest = .done (.ok n)) :
    (f.call.aim g).Fits Y.state.store n := by
  cases aim : f.call.aim g with
  | key k =>
    exact (run.gives (fun _ _ m _ => Contract.any_admits m) fresh idle hf aim rest).hasOf
  | placeholder =>
    obtain ⟨n', hn, -, hd, -⟩ := (run.answers_with_placeholder fresh idle hf aim).gives _ rest
    cases hn
    exact hd
  | error e =>
    obtain ⟨φ, courses⟩ := (run.course_any fresh idle).courses t f hf
    exact absurd (courses.reached.aim_eq.trans aim) ((courses.ends rest).aim_ne_error e)

theorem Step.fits (move : Step g Y t m Z) {a : Aim} (h : a.Fits Y.state.store n) :
    a.Fits Z.state.store n := by
  cases a with
  | key k => exact move.hasOf h
  | placeholder => exact move.own.store_extends_any.complete h rfl
  | error e => exact h

/-- What requests have ended with stays as it is. -/
theorem Run.fits_of_finish (run : Run g ok X tr Y) (fresh : X.state.IsFresh)
    (idle : ∀ u, X.stackOf u = []) (hf : (t, .finish f (.ok n)) ∈ tr) :
    (f.call.aim g).Fits Y.state.store n := by
  induction run with
  | nil => cases hf
  | step run _ move ih =>
    refine move.fits ?_
    rcases List.mem_cons.1 hf with hf | hf
    · cases hf
      obtain ⟨hf, rest⟩ := move.own.finish_cases
      exact run.fits fresh idle hf rest
    · exact ih hf

end System

end Monomorph
