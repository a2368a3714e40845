import Monomorph.Proofs.Phase

/-!
What the actions of a request tell about its phase, and its phase about the actions. All of it is by
induction over the actions, from one fact about a single step each.
-/

namespace Monomorph

theorem filterMap_cons_toList {α β : Type} (f : α → Option β) (a : α) (as : List α) :
    (a :: as).filterMap f = (f a).toList ++ as.filterMap f := by
  cases h : f a <;> simp [h]

/-- The actions, the latest first, lead a request after `a` to the phase. -/
inductive Phase.Reached (K : Contract) (g : Engine) (a : Aim) :
    List AnsweredAction → Phase → Prop where
  | asked : Reached K g a [] (.asked a)
  | step {ds : List AnsweredAction} {d : AnsweredAction} {φ φ' : Phase}
      (reached : Reached K g a ds φ) (step : φ.Step K g d φ') : Reached K g a (d :: ds) φ'

variable {K : Contract} {g : Engine} {a : Aim} {ds : List AnsweredAction} {d : AnsweredAction}
  {φ φ' : Phase}

namespace Phase

/-- What the actions note and take back, one after the other, is what the phase says, if each step
agrees. -/
theorem Reached.findSome?_join {β : Type} {F : AnsweredAction → Option (Option β)}
    {G : Phase → Option β}
    (asked : ∀ a, G (.asked a) = none)
    (agree : ∀ {φ d φ'}, Step K g φ d φ' → (F d).getD (G φ) = G φ') (h : Reached K g a ds φ) :
    (ds.findSome? F).join = G φ := by
  induction h with
  | asked => exact (asked a).symm
  | @step ds d φ φ' _ step ih =>
    rw [← agree step, ← ih]
    cases h : F d <;> simp [h]

/-- The actions in `p` are as many as the phase says, if each step agrees. -/
theorem Reached.countP {p : AnsweredAction → Bool} {G : Phase → Nat} (asked : ∀ a, G (.asked a) = 0)
    (agree : ∀ {φ d φ'}, Step K g φ d φ' → G φ + (if p d then 1 else 0) = G φ')
    (h : Reached K g a ds φ) : ds.countP p = G φ := by
  induction h with
  | asked => exact (asked _).symm
  | step _ step ih => rw [List.countP_cons, ih, agree step]

/-! ## The aim -/

theorem Step.aim_eq (h : φ.Step K g d φ') : φ'.aim = φ.aim := by
  cases h with
  | allocate hk => simp [aim, hk]
  | _ => rfl

theorem Reached.aim_eq (h : Reached K g a ds φ) : φ.aim = a := by
  induction h with
  | asked => rfl
  | step _ step ih => rw [step.aim_eq, ih]

end Phase

/-! ## What has been checked -/

/-- What is certain about a request that ends so. -/
def Verdict.Warranted (K : Contract) (g : Engine) : Verdict → Prop
  | cached o _ _ => o = .fastHit ∨ o = .recheckHit ∨ ∃ κ, o = .inflated κ
  | pending k _ => g.validate k = .ok ()
  | placeholder _ => True
  | unresolved c e => g.validate c.key.key = .ok () ∧ K.fails c e
  | refused c _ => g.validate c.key.key = .ok ()

namespace Phase

/-- What is certain in a phase: past the lock the key is valid, past the construction the contract
has been kept. -/
def Warranted (K : Contract) (g : Engine) : Phase → Prop
  | asked _ => True
  | placing => True
  | hit _ _ => True
  | missed _ => True
  | locked k => g.validate k = .ok ()
  | rehit k _ => g.validate k = .ok ()
  | absent k => g.validate k = .ok ()
  | guarded k _ => g.validate k = .ok ()
  | unclaimed k => g.validate k = .ok ()
  | allocated c => g.validate c.key.key = .ok ()
  | building c => g.validate c.key.key = .ok ()
  | published c r => g.validate c.key.key = .ok () ∧ K.builds c r
  | inserted c r => g.validate c.key.key = .ok () ∧ K.builds c r
  | finished c r => g.validate c.key.key = .ok () ∧ K.builds c r
  | refused c _ => g.validate c.key.key = .ok ()
  | abandoned c e => g.validate c.key.key = .ok () ∧ K.fails c e
  | closing v => v.Warranted K g
  | closed v => v.Warranted K g

theorem Step.warranted (h : φ.Step K g d φ') (hφ : φ.Warranted K g) : φ'.Warranted K g := by
  cases h with
  | lock valid => exact valid
  | allocate hk =>
    subst hk
    exact hφ
  | publish builds => exact ⟨hφ, builds⟩
  | unclaimFailed fails => exact ⟨hφ, fails⟩
  | countHit => exact .inl rfl
  | countRehit => exact .inr (.inl rfl)
  | countBuilt => exact .inr (.inr ⟨_, rfl⟩)
  | copyKey | nameNested | countNested | place | hit | miss => trivial
  | _ => exact hφ

theorem Reached.warranted (h : Reached K g a ds φ) : φ.Warranted K g := by
  induction h with
  | asked => trivial
  | step _ step ih => exact step.warranted ih

end Phase

/-! ## The descriptor of a request -/

/-- The construction that the request has begun and not yet closed. -/
def Phase.attempt? : Phase → Option Construction
  | allocated c => some c
  | building c => some c
  | published c _ => some c
  | inserted c _ => some c
  | finished c _ => some c
  | refused c _ => some c
  | abandoned c _ => some c
  | _ => none

/-- The request has allocated the descriptor of `c`. -/
def Construction.AllocatedBy (c : Construction) (ds : List AnsweredAction) : Prop :=
  ⟨.allocate (.ofKey c.key), c.method⟩ ∈ ds

/-- A request that has begun `c` may end so. -/
def Verdict.IsOf (c : Construction) : Verdict → Prop
  | cached _ k m => k = c.key.key ∧ m = c.method
  | pending _ _ => False
  | placeholder _ => False
  | unresolved c' _ => c' = c
  | refused c' _ => c' = c

/-- The construction that has failed. -/
def Verdict.failed? : Verdict → Option Construction
  | cached _ _ _ => none
  | pending _ _ => none
  | placeholder _ => none
  | unresolved c _ => some c
  | refused c _ => some c

/-- The instance that has been inserted. -/
def Verdict.given? : Verdict → Option (MethodKey × MethodId)
  | cached (.inflated _) k m => some (k, m)
  | _ => none

/-- The construction whose descriptor could not be completed, and why. -/
def Verdict.refusal? : Verdict → Option (Construction × Error)
  | refused c e => some (c, e)
  | _ => none

/-- A request that has begun `c` may be in this phase. -/
def Phase.IsOf (c : Construction) : Phase → Prop
  | closing v => v.IsOf c
  | closed v => v.IsOf c
  | φ => φ.attempt? = some c

namespace Phase

/-- The construction that the request has begun, also if it has failed. -/
def begun? : Phase → Option Construction
  | closing v => v.failed?
  | closed v => v.failed?
  | φ => φ.attempt?

theorem begun?_of_construction? {c : Construction} (h : φ.construction? = some c) :
    φ.begun? = some c := by
  cases φ <;> first | exact h | cases h

theorem Step.begun? {c : Construction} (h : φ.Step K g d φ') (hc : φ'.begun? = some c) :
    φ.begun? = some c ∨ d = ⟨.allocate (.ofKey c.key), c.method⟩ := by
  cases h with
  | allocate hk =>
    cases hc
    exact .inr rfl
  | claim | note | publish | refuse | insert | unclaim | unclaimFailed => exact .inl hc
  | unclaimRefused | countFailed => exact .inl hc
  | nameFailed | noteLocked | unlock | noteUnlocked => exact .inl hc
  | _ => cases hc

/-- The descriptor of a construction has been allocated by its request. -/
theorem Reached.allocates {c : Construction} (h : Reached K g a ds φ) (hc : φ.begun? = some c) :
    c.AllocatedBy ds := by
  induction h with
  | asked => cases hc
  | step _ step ih =>
    rcases step.begun? hc with hc | rfl
    · exact List.mem_cons_of_mem _ (ih hc)
    · exact List.mem_cons_self

theorem Step.isOf {c : Construction} (h : φ.Step K g d φ') (hc : φ.IsOf c) : φ'.IsOf c := by
  cases h with
  | countBuilt =>
    cases hc
    exact ⟨rfl, rfl⟩
  | unclaimRefused | countFailed =>
    cases hc
    rfl
  | claim | note | publish | refuse | insert | unclaim | unclaimFailed => exact hc
  | nameFailed | noteLocked | unlock | noteUnlocked => exact hc
  | _ => cases hc

theorem Step.of_allocate {h : KeyHandle} {m : MethodId}
    (step : φ.Step K g ⟨.allocate (.ofKey h), m⟩ φ') :
    φ = .unclaimed h.key ∧ φ' = .allocated ⟨h, m⟩ := by
  generalize hd : (⟨.allocate (.ofKey h), m⟩ : AnsweredAction) = d at step
  cases step with
  | allocate hk =>
    obtain ⟨rfl, rfl⟩ : h = _ ∧ m = _ := by simpa using hd
    exact ⟨by rw [hk], rfl⟩
  | _ => simp at hd

/-- A request that has allocated a descriptor for a key is after that key, and gives that
descriptor if it gives any. -/
theorem Reached.isOf {c : Construction} (h : Reached K g a ds φ) (hc : c.AllocatedBy ds) :
    φ.IsOf c := by
  induction h with
  | asked => cases hc
  | step _ step ih =>
    rcases List.mem_cons.1 hc with rfl | hc
    · rw [step.of_allocate.2]
      rfl
    · exact step.isOf (ih hc)

/-- The instance that a request in this phase has inserted. -/
def given? : Phase → Option (MethodKey × MethodId)
  | inserted c _ => some (c.key.key, c.method)
  | finished c _ => some (c.key.key, c.method)
  | closing v => v.given?
  | closed v => v.given?
  | _ => none

theorem Step.given? {k : MethodKey} {m : MethodId} (h : φ.Step K g d φ')
    (hk : d = ⟨.addMethod k m, ()⟩ ∨ φ.given? = some (k, m)) : φ'.given? = some (k, m) := by
  cases h with
  | insert =>
    rcases hk with hk | hk
    · cases hk
      rfl
    · cases hk
  | unclaim | countBuilt | nameFailed | noteLocked | unlock | noteUnlocked =>
    exact hk.resolve_left (by simp)
  | _ => simp [Phase.given?] at hk

/-- A request that has inserted an instance gives it. -/
theorem Reached.gives {k : MethodKey} {m : MethodId} (h : Reached K g a ds φ)
    (hk : ⟨.addMethod k m, ()⟩ ∈ ds) : φ.given? = some (k, m) := by
  induction h with
  | asked => cases hk
  | step _ step ih =>
    rcases List.mem_cons.1 hk with rfl | hk
    · exact step.given? (.inl rfl)
    · exact step.given? (.inr (ih hk))

/-- The construction whose descriptor could not be completed, and why. -/
def refusal? : Phase → Option (Construction × Error)
  | refused c e => some (c, e)
  | closing v => v.refusal?
  | closed v => v.refusal?
  | _ => none

theorem Step.refusal? {c : Construction} {e : Error} (h : φ.Step K g d φ')
    (hc : φ'.refusal? = some (c, e)) :
    φ.refusal? = some (c, e) ∨ ∃ r, d = ⟨.publish c.method r, .error e⟩ := by
  cases h with
  | refuse =>
    cases hc
    exact .inr ⟨_, rfl⟩
  | unclaimRefused => exact .inl hc
  | noteLocked | unlock | noteUnlocked => exact .inl hc
  | _ => cases hc

/-- A request has tried to complete the descriptor that it says could not be completed. -/
theorem Reached.refuses {c : Construction} {e : Error} (h : Reached K g a ds φ)
    (hc : φ.refusal? = some (c, e)) : ∃ r, ⟨.publish c.method r, .error e⟩ ∈ ds := by
  induction h with
  | asked => cases hc
  | step _ step ih =>
    rcases step.refusal? hc with hc | ⟨r, rfl⟩
    · obtain ⟨r, hr⟩ := ih hc
      exact ⟨r, List.mem_cons_of_mem _ hr⟩
    · exact ⟨r, List.mem_cons_self⟩

end Phase

/-! ## The count of a request -/

def Verdict.outcomes : Verdict → List Outcome
  | cached o _ _ => [o]
  | pending _ _ => [.recursionHit]
  | placeholder _ => [.degenerate]
  | unresolved _ _ => [.failure]
  | refused _ _ => []

namespace Phase

/-- How a request in this phase has been counted. -/
def outcomes : Phase → List Outcome
  | placing => [.degenerate]
  | closing v => v.outcomes
  | closed v => v.outcomes
  | _ => []

theorem Step.outcomes (h : φ.Step K g d φ') :
    (d.outcome?.toList ++ φ.outcomes) = φ'.outcomes := by
  cases h <;> rfl

theorem Reached.outcomes (h : Reached K g a ds φ) :
    ds.filterMap AnsweredAction.outcome? = φ.outcomes := by
  induction h with
  | asked => rfl
  | @step ds d φ φ' _ step ih =>
    rw [← step.outcomes, ← ih, filterMap_cons_toList]

end Phase

/-- How many instances of `k` a request that ends so has put among the complete ones. -/
def Verdict.insertions (k : MethodKey) : Verdict → Nat
  | cached (.inflated _) l _ => if l = k then 1 else 0
  | _ => 0

namespace Phase

/-- How many instances of `k` a request in this phase has put among the complete ones. -/
def insertions (k : MethodKey) : Phase → Nat
  | inserted c _ => if c.key.key = k then 1 else 0
  | finished c _ => if c.key.key = k then 1 else 0
  | closing v => v.insertions k
  | closed v => v.insertions k
  | _ => 0

theorem Step.insertions (h : φ.Step K g d φ') (k : MethodKey) :
    φ.insertions k + (if d.adds k then 1 else 0) = φ'.insertions k := by
  cases h with
  | insert => simp [Phase.insertions, AnsweredAction.adds]
  | _ => rfl

theorem Reached.insertions (h : Reached K g a ds φ) (k : MethodKey) :
    ds.countP (AnsweredAction.adds k) = φ.insertions k :=
  h.countP (fun _ => rfl) fun step => step.insertions k

end Phase

end Monomorph
