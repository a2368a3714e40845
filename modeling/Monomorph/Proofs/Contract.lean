import Monomorph.Proofs.Session

/-!
What the collaborators of a cache may do, and what follows for a construction. A `Contract` says
which answers may be given, and which realizations and failures come out of them. `Contract.any`
allows every answer, `Contract.given` only some.
-/

namespace Monomorph

/-- The program only asks as `c` and reports events that name no key; with answers as `answers` has
them, it ends with a result in `Q`. -/
def Program.Consults {α : Type} (answers : (q : Query) → q.Answer → Prop) (c : Construction)
    (Q : α → Prop) : Program α → Prop
  | .done a => Q a
  | .act a next =>
    (∃ e, a = .emit e ∧ e.isNaming = false) ∧ ∀ x, (next x).Consults answers c Q
  | .ask c' q next => c' = c ∧ ∀ x, answers q x → (next x).Consults answers c Q

namespace Program

variable {α β : Type} {answers : (q : Query) → q.Answer → Prop} {c : Construction}

theorem Consults.bind {Q : α → Prop} {R : β → Prop} {p : Program α} {f : α → Program β}
    (hp : p.Consults answers c Q) (hf : ∀ a, Q a → (f a).Consults answers c R) :
    (p >>= f).Consults answers c R := by
  induction p with
  | done a => exact hf a hp
  | act a next ih => exact ⟨hp.1, fun x => ih x (hp.2 x)⟩
  | ask c' q next ih => exact ⟨hp.1, fun x hx => ih x (hp.2 x hx)⟩

theorem Consults.mono {Q R : α → Prop} {p : Program α} (hp : p.Consults answers c Q)
    (hQ : ∀ a, Q a → R a) : p.Consults answers c R := by
  induction p with
  | done a => exact hQ a hp
  | act a next ih => exact ⟨hp.1, fun x => ih x (hp.2 x)⟩
  | ask c' q next ih => exact ⟨hp.1, fun x hx => ih x (hp.2 x hx)⟩

theorem consults_emitIf {Q : Unit → Prop} {b : Bool} {e : Event} (naming : e.isNaming = false)
    (h : Q ()) : (emitIf b e).Consults answers c Q := by
  cases b with
  | false => exact h
  | true => exact ⟨⟨e, rfl, naming⟩, fun _ => h⟩

end Program

namespace Construction

variable {answers : (q : Query) → q.Answer → Prop}

/-- What may become of `c` once its declaring class is known, or known not to be realizable. -/
def Continues (answers : (q : Query) → q.Answer → Prop) (builds : Realization → Prop)
    (fails : Error → Prop) (c : Construction) : Except Error RuntimeClass → Prop
  | .error e => fails e
  | .ok owner => (c.realize owner).Consults answers c builds

end Construction

/-- What collaborators answer, and what comes out of it. -/
structure Contract where
  answers : (q : Query) → q.Answer → Prop
  /-- Descriptors may be completed from outside of the cache. -/
  mayPublish : Prop
  builds : Construction → Realization → Prop
  fails : Construction → Error → Prop
  sound : ∀ c : Construction,
    c.realizeOwner.Consults answers c (c.Continues answers (builds c) (fails c))

/-! ## Any answers at all -/

namespace Construction

open Program

variable {answers : (q : Query) → q.Answer → Prop}

private theorem query_consults (c : Construction) (q : Query) :
    (query c q).Consults answers c fun _ => True :=
  ⟨rfl, fun _ _ => trivial⟩

theorem realizeOwner_consults (c : Construction) {Q : Except Error RuntimeClass → Prop}
    (hQ : ∀ x, Q x) : c.realizeOwner.Consults answers c Q := by
  unfold realizeOwner
  split
  · exact ⟨rfl, fun x _ => hQ x⟩
  · exact hQ _

private theorem isClaimed_consults (c : Construction) (p : PendingMethod) :
    (c.isClaimed p).Consults answers c fun _ => True := by
  refine (c.query_consults _).bind fun b _ => ?_
  cases b with
  | true => trivial
  | false => exact c.query_consults _

private theorem interpretedDispatch_consults (c : Construction) (p : PendingMethod)
    (entry : Option MethodPointer) :
    (c.interpretedDispatch p entry).Consults answers c fun d => d ≠ .nestingTooDeep := by
  unfold interpretedDispatch
  split
  · refine (c.query_consults _).bind fun thunk _ => ?_
    exact (consults_emitIf rfl trivial).bind fun _ (_ : True) => nofun
  · exact nofun

private theorem resolveInterpreted_consults (c : Construction) (p : PendingMethod) :
    (c.resolveInterpreted p).Consults answers c
      fun o => ∀ d, o = some d → d.dispatch ≠ .nestingTooDeep := by
  refine (c.isClaimed_consults p).bind fun b _ => ?_
  cases b with
  | false => exact nofun
  | true =>
    refine (c.query_consults _).bind fun invoker _ => ?_
    refine (c.query_consults _).bind fun entry _ => ?_
    refine (consults_emitIf rfl trivial).bind fun _ (_ : True) => ?_
    refine (c.interpretedDispatch_consults p entry).bind fun dispatch hd => ?_
    rintro d ⟨⟩
    exact hd

theorem resolveDispatch_consults (c : Construction) (p : PendingMethod) :
    (c.resolveDispatch p).Consults answers c fun d => d.dispatch ≠ .nestingTooDeep := by
  refine (c.query_consults _).bind fun invoker _ => ?_
  refine (c.query_consults _).bind fun native _ => ?_
  cases native with
  | some method =>
    refine Consults.bind (Q := fun _ => True) ?_ fun _ _ => nofun
    unfold nativeCallByInterp
    split
    · exact c.query_consults _
    · trivial
  | none =>
    refine (c.resolveInterpreted_consults p).bind fun r hr => ?_
    cases r with
    | none => exact nofun
    | some d => exact hr d rfl

private theorem inflateReturnType_consults (c : Construction) :
    c.inflateReturnType.Consults answers c fun _ => True := by
  unfold inflateReturnType
  split
  · exact (c.query_consults _).bind fun _ _ => trivial
  · trivial

private theorem resolveContextData_consults (c : Construction) :
    c.resolveContextData.Consults answers c fun _ => True := by
  unfold resolveContextData
  split
  · exact c.query_consults _
  · trivial

/-- Whatever the answers are, the declaring class stays the one that is known, and what is found out
never takes the shape of the placeholder. -/
theorem realize_consults (c : Construction) (owner : RuntimeClass) :
    (c.realize owner).Consults answers c
      fun r => r.owner = some owner ∧ r.dispatch ≠ .nestingTooDeep := by
  refine c.inflateReturnType_consults.bind fun returnType _ => ?_
  refine (c.query_consults _).bind fun parameters _ => ?_
  refine c.resolveContextData_consults.bind fun contextData _ => ?_
  exact (c.resolveDispatch_consults _).bind fun _ hd => ⟨rfl, hd⟩

end Construction

namespace Contract

/-- Any answers, and completion from outside. -/
def any : Contract where
  answers _ _ := True
  mayPublish := True
  builds _ _ := True
  fails _ _ := True
  sound c := c.realizeOwner_consults fun x => by
    cases x with
    | error e => trivial
    | ok owner => exact (c.realize_consults owner).mono fun _ _ => trivial

/-- Answers in `G`, and completion from outside. Where a class is asked for, the construction
declares the class that it has been answered, or it fails with the error. -/
def given (G : (q : Query) → q.Answer → Prop) : Contract where
  answers := G
  mayPublish := True
  builds c r := ∀ as, c.context.classArgs = some as →
    ∃ owner, r.owner = some owner ∧ G (.realizeClass c.definition.owner as) (.ok owner)
  fails c e := ∃ as, c.context.classArgs = some as ∧
    G (.realizeClass c.definition.owner as) (.error e)
  sound c := by
    unfold Construction.realizeOwner
    split
    · next as args =>
      refine ⟨rfl, fun x hx => ?_⟩
      cases x with
      | error e => exact ⟨as, args, hx⟩
      | ok owner =>
        refine (c.realize_consults owner).mono fun r hr as' args' => ?_
        cases args.symm.trans args'
        exact ⟨owner, hr.1, hx⟩
    · next args =>
      refine (c.realize_consults _).mono fun r _ as' args' => ?_
      cases args.symm.trans args'

end Contract

end Monomorph
