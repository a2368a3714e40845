import Monomorph.Proofs.Collaborators
import Monomorph.Proofs.Contract

/-!
What constructions ask, and what they learn. `Program.Asks` bounds the questions of a program, and
says what it ends with, for answers in a relation. With it the entry points of a method are a
function of what native code and the interpreter answer (`CodeSources.dispatch`), and the
interpreter is asked only where there is no native code (`Construction.resolveDispatch_asks`).
-/

namespace Monomorph

/-- With answers as `answers` has them, the program asks only what `ok` allows, and ends with a
result in `Q`. -/
def Program.Asks {α : Type} (answers : (q : Query) → q.Answer → Prop) (ok : Query → Prop)
    (Q : α → Prop) : Program α → Prop
  | .done a => Q a
  | .act _ next => ∀ x, (next x).Asks answers ok Q
  | .ask _ q next => ok q ∧ ∀ x, answers q x → (next x).Asks answers ok Q

namespace Program

variable {α β : Type} {answers : (q : Query) → q.Answer → Prop} {ok : Query → Prop}
  {c : Construction}

theorem Asks.bind {Q : α → Prop} {R : β → Prop} {p : Program α} {f : α → Program β}
    (hp : p.Asks answers ok Q) (hf : ∀ a, Q a → (f a).Asks answers ok R) :
    (p >>= f).Asks answers ok R := by
  induction p with
  | done a => exact hf a hp
  | act a next ih => exact fun x => ih x (hp x)
  | ask c q next ih => exact ⟨hp.1, fun x hx => ih x (hp.2 x hx)⟩

theorem Asks.mono {Q R : α → Prop} {p : Program α} (hp : p.Asks answers ok Q)
    (hQ : ∀ a, Q a → R a) : p.Asks answers ok R := by
  induction p with
  | done a => exact hQ a hp
  | act a next ih => exact fun x => ih x (hp x)
  | ask c q next ih => exact ⟨hp.1, fun x hx => ih x (hp.2 x hx)⟩

/-- What a program ends with, without a bound on its questions. -/
theorem Asks.unbounded {Q : α → Prop} {p : Program α} (hp : p.Asks answers ok Q) :
    p.Asks answers (fun _ => True) Q := by
  induction p with
  | done a => exact hp
  | act a next ih => exact fun x => ih x (hp x)
  | ask c q next ih => exact ⟨trivial, fun x hx => ih x (hp.2 x hx)⟩

/-- Without a bound on its questions, and if nothing is to be shown of its result. -/
theorem asks_any (p : Program α) : p.Asks answers (fun _ => True) fun _ => True := by
  induction p with
  | done a => trivial
  | act a next ih => exact fun x => ih x
  | ask c q next ih => exact ⟨trivial, fun x _ => ih x⟩

theorem asks_query {q : Query} (h : ok q) : (query c q).Asks answers ok (answers q) :=
  ⟨h, fun _ hx => hx⟩

/-- A single action, and what comes after it. -/
theorem Asks.perform {Q : α → Prop} {a : Action} {f : a.Response → Program α}
    (h : ∀ x, (f x).Asks answers ok Q) : (Program.perform a >>= f).Asks answers ok Q :=
  h

theorem asks_perform (a : Action) : (perform a).Asks answers ok fun _ => True :=
  fun _ => trivial

theorem asks_emitIf (b : Bool) (e : Event) : (emitIf b e).Asks answers ok fun _ => True := by
  cases b with
  | false => trivial
  | true => exact asks_perform _

/-- What is learned from the answers comes on top of what is known anyway. -/
theorem Consults.and_asks {Q R : α → Prop} {p : Program α} (hp : p.Consults answers c Q)
    (h : p.Asks answers ok R) : p.Consults answers c fun a => Q a ∧ R a := by
  induction p with
  | done a => exact ⟨hp, h⟩
  | act a next ih => exact ⟨hp.1, fun x => ih x (hp.2 x) (h x)⟩
  | ask c q next ih => exact ⟨hp.1, fun x hx => ih x (hp.2 x hx) (h.2 x hx)⟩

end Program

/-! ## Entry points -/

/-- An interpreter whose answers about a method depend on the method alone. -/
structure Interpreter where
  isInterpreted : PendingMethod → Bool
  isImplemented : PendingMethod → Bool
  invoker : PendingMethod → Option InvokerPointer
  entry : PendingMethod → Option MethodPointer
  thunk : PendingMethod → Option MethodPointer

namespace Interpreter

/-- The interpreter claims the method, either with its image or by itself. -/
def claims (I : Interpreter) (p : PendingMethod) : Bool := I.isInterpreted p || I.isImplemented p

/-- The shape of an interpreted method. -/
def dispatch (I : Interpreter) (p : PendingMethod) : Dispatch :=
  if p.needsThunk then .interpretedViaThunk (I.entry p) (I.thunk p)
  else .interpretedDirect (I.entry p)

end Interpreter

/-- Where the code of methods comes from. -/
structure CodeSources where
  nativeInvoker : MethodDef → Context → Option InvokerPointer
  nativePointer : MethodDef → Context → Bool → Bool → Option MethodPointer
  interpreter : Interpreter

/-- The method that a question to the interpreter is about. -/
def Query.interpreted? : Query → Option PendingMethod
  | isInterpreted p => some p
  | isImplemented p => some p
  | interpreterInvoker p => some p
  | interpreterEntry p => some p
  | interpreterThunk p => some p
  | _ => none

namespace CodeSources

/-- An answer about code comes from these sources. -/
def Agrees (S : CodeSources) : (q : Query) → q.Answer → Prop
  | .nativeInvoker m c, x => x = S.nativeInvoker m c
  | .nativePointer m c preferDirect allowSharing, x =>
    x = S.nativePointer m c preferDirect allowSharing
  | .isInterpreted p, x => x = S.interpreter.isInterpreted p
  | .isImplemented p, x => x = S.interpreter.isImplemented p
  | .interpreterInvoker p, x => x = S.interpreter.invoker p
  | .interpreterEntry p, x => x = S.interpreter.entry p
  | .interpreterThunk p, x => x = S.interpreter.thunk p
  | _, _ => True

/-- The question is not about the interpretation of a method that has native code. -/
def Spares (S : CodeSources) (q : Query) : Prop :=
  ∀ p, q.interpreted? = some p → S.nativePointer p.definition p.context true true = none

/-- Native code if there is any, otherwise the interpreter if it claims the method. -/
def dispatch (S : CodeSources) (p : PendingMethod) : ResolvedDispatch :=
  match S.nativePointer p.definition p.context true true with
  | some method =>
    ⟨S.nativeInvoker p.definition p.context, .nativeDirect method
      (if p.needsThunk then S.nativePointer p.definition p.context false true else some method)⟩
  | none =>
    if S.interpreter.claims p then ⟨S.interpreter.invoker p, S.interpreter.dispatch p⟩
    else ⟨S.nativeInvoker p.definition p.context, .unresolved⟩

end CodeSources

/-- The sources of code that collaborators answer from. -/
def Collaborators.sources (C : Collaborators) : CodeSources where
  nativeInvoker := C.nativeInvoker
  nativePointer := C.nativePointer
  interpreter :=
    { isInterpreted := fun p => C.isInterpreted p.view
      isImplemented := fun p => C.isImplemented p.view
      invoker := fun p => C.interpreterInvoker p.view
      entry := fun p => C.interpreterEntry p.view
      thunk := fun p => C.interpreterThunk p.view }

theorem Collaborators.agrees_answer (C : Collaborators) (q : Query) :
    C.sources.Agrees q (C.answer q) := by
  cases q <;> trivial

namespace Construction

open Program

section Dispatch

variable {S : CodeSources} {answers : (q : Query) → q.Answer → Prop}
  (agrees : ∀ q x, answers q x → S.Agrees q x) (c : Construction) (p : PendingMethod)

include agrees

theorem isClaimed_asks (spares : ∀ q : Query, q.interpreted? = some p → S.Spares q) :
    (c.isClaimed p).Asks answers S.Spares (· = S.interpreter.claims p) := by
  refine (asks_query (spares (.isInterpreted p) rfl)).bind fun b hb => ?_
  have claimed : b = S.interpreter.isInterpreted p := agrees (.isInterpreted p) b hb
  unfold Interpreter.claims
  rw [← claimed]
  cases b with
  | true => exact rfl
  | false => exact (asks_query (spares (.isImplemented p) rfl)).mono (agrees (.isImplemented p))

theorem interpretedDispatch_asks (spares : ∀ q : Query, q.interpreted? = some p → S.Spares q) :
    (c.interpretedDispatch p (S.interpreter.entry p)).Asks answers S.Spares
      (· = S.interpreter.dispatch p) := by
  unfold interpretedDispatch Interpreter.dispatch
  cases p.needsThunk with
  | true =>
    refine (asks_query (spares (.interpreterThunk p) rfl)).bind fun thunk hthunk => ?_
    obtain rfl : thunk = S.interpreter.thunk p := agrees (.interpreterThunk p) thunk hthunk
    exact (asks_emitIf _ _).bind fun _ _ => rfl
  | false => exact rfl

theorem resolveInterpreted_asks (spares : ∀ q : Query, q.interpreted? = some p → S.Spares q) :
    (c.resolveInterpreted p).Asks answers S.Spares (· = if S.interpreter.claims p then
      some ⟨S.interpreter.invoker p, S.interpreter.dispatch p⟩ else none) := by
  refine (isClaimed_asks agrees c p spares).bind fun b hb => ?_
  rw [← hb]
  cases b with
  | false => exact rfl
  | true =>
    refine (asks_query (spares (.interpreterInvoker p) rfl)).bind fun invoker hinvoker => ?_
    obtain rfl : invoker = S.interpreter.invoker p :=
      agrees (.interpreterInvoker p) invoker hinvoker
    refine (asks_query (spares (.interpreterEntry p) rfl)).bind fun entry hentry => ?_
    obtain rfl : entry = S.interpreter.entry p := agrees (.interpreterEntry p) entry hentry
    refine (asks_emitIf _ _).bind fun _ _ => ?_
    refine (interpretedDispatch_asks agrees c p spares).bind fun dispatch hdispatch => ?_
    rw [hdispatch]
    exact rfl

theorem nativeCallByInterp_asks (method : MethodPointer) :
    (c.nativeCallByInterp p method).Asks answers S.Spares (· = if p.needsThunk then
      S.nativePointer p.definition p.context false true else some method) := by
  unfold nativeCallByInterp
  cases p.needsThunk with
  | true =>
    have spared : S.Spares (.nativePointer p.definition p.context false true) := nofun
    exact (asks_query spared).mono (agrees (.nativePointer p.definition p.context false true))
  | false => exact rfl

/-- The interpreter is asked about a method only if it has no native code. -/
theorem resolveDispatch_asks :
    (c.resolveDispatch p).Asks answers S.Spares (· = S.dispatch p) := by
  have spared : S.Spares (.nativeInvoker p.definition p.context) := nofun
  refine (asks_query spared).bind fun invoker hinvoker => ?_
  obtain rfl : invoker = S.nativeInvoker p.definition p.context :=
    agrees (.nativeInvoker p.definition p.context) invoker hinvoker
  have spared : S.Spares (.nativePointer p.definition p.context true true) := nofun
  refine (asks_query spared).bind fun native hnative => ?_
  have code : native = S.nativePointer p.definition p.context true true :=
    agrees (.nativePointer p.definition p.context true true) native hnative
  unfold CodeSources.dispatch
  rw [← code]
  cases native with
  | some method =>
    refine (nativeCallByInterp_asks agrees c p method).bind fun raw hraw => ?_
    rw [hraw]
    exact rfl
  | none =>
    have spares : ∀ q : Query, q.interpreted? = some p → S.Spares q := by
      intro q hq p' hp'
      rw [hq] at hp'
      cases hp'
      exact code.symm
    refine (resolveInterpreted_asks agrees c p spares).bind fun r hr => ?_
    rw [hr]
    cases S.interpreter.claims p with
    | true => exact rfl
    | false => exact rfl

end Dispatch

/-! ## Realizations -/

variable {answers : (q : Query) → q.Answer → Prop} {ok : Query → Prop} {c : Construction}

/-- The declaring class is the one that has been answered for the class arguments, or that of the
definition if there are none. -/
def Declares (answers : (q : Query) → q.Answer → Prop) (c : Construction) (owner : RuntimeClass) :
    Prop :=
  match c.context.classArgs with
  | some as => answers (.realizeClass c.definition.owner as) (.ok owner)
  | none => owner = c.definition.owner

theorem Declares.mono {answers' : (q : Query) → q.Answer → Prop} {owner : RuntimeClass}
    (h : c.Declares answers owner) (weaker : ∀ q x, answers q x → answers' q x) :
    c.Declares answers' owner := by
  unfold Declares at h ⊢
  generalize c.context.classArgs = args at h ⊢
  cases args with
  | none => exact h
  | some as => exact weaker _ _ h

/-- What is found out about an instance, from what is found out about its parts. -/
theorem realize_asks {owner : RuntimeClass} {D : Option ContextData → Prop}
    {R : Option TypeExpr → List Parameter → ResolvedDispatch → Prop}
    (types : ∀ e, ok (.inflateType e c.context))
    (parameters : ok (.inflateParameters c.definition.parameters c.context))
    (contextData : c.resolveContextData.Asks answers ok D)
    (dispatch : ∀ returnType parameters,
      (c.resolveDispatch ⟨c.method, c.key, owner, returnType, parameters⟩).Asks answers ok
        (R returnType parameters)) :
    (c.realize owner).Asks answers ok fun r =>
      D r.contextData ∧ R r.returnType r.parameters ⟨r.invoker, r.dispatch⟩ := by
  have returnType : c.inflateReturnType.Asks answers ok fun _ => True := by
    unfold inflateReturnType
    split
    · exact (asks_query (types _)).bind fun _ _ => trivial
    · trivial
  refine returnType.bind fun returnType _ => ?_
  refine (asks_query parameters).bind fun parameters _ => ?_
  refine contextData.bind fun contextData hdata => ?_
  exact (dispatch returnType parameters).bind fun resolved hresolved => ⟨hdata, hresolved⟩

end Construction

/-- Answers as `answers` has them, and completion from outside. What is built has a declaring class
that has been answered, and satisfies `R` with it. -/
def Contract.learning (answers : (q : Query) → q.Answer → Prop)
    (R : Construction → RuntimeClass → Realization → Prop)
    (learns : ∀ (c : Construction) owner,
      (c.realize owner).Asks answers (fun _ => True) (R c owner)) : Contract where
  answers := answers
  mayPublish := True
  builds c r := ∃ owner, r.owner = some owner ∧ c.Declares answers owner ∧ R c owner r
  fails c e := ∃ as, c.context.classArgs = some as ∧
    answers (.realizeClass c.definition.owner as) (.error e)
  sound c := by
    have known : ∀ owner, c.Declares answers owner → (c.realize owner).Consults answers c fun r =>
        ∃ owner, r.owner = some owner ∧ c.Declares answers owner ∧ R c owner r := by
      intro owner declares
      refine ((c.realize_consults owner).and_asks (learns c owner)).mono ?_
      rintro r ⟨⟨howner, -⟩, learned⟩
      exact ⟨owner, howner, declares, learned⟩
    unfold Construction.realizeOwner
    split
    · next as args =>
      refine ⟨rfl, fun x hx => ?_⟩
      cases x with
      | error e => exact ⟨as, args, hx⟩
      | ok owner =>
        refine known owner ?_
        unfold Construction.Declares
        rw [args]
        exact hx
    · next args =>
      refine known _ ?_
      unfold Construction.Declares
      rw [args]

/-! ## Requests -/

section Requests

open Program

variable {answers : (q : Query) → q.Answer → Prop} {ok : Query → Prop}
  (classes : ∀ c as, ok (.realizeClass c as))
  (realizes : ∀ (c : Construction) owner, (c.realize owner).Asks answers ok fun _ => True)

include classes realizes

theorem Construction.run_asks (names : NameFormatter) (c : Construction) :
    (c.run names).Asks answers ok fun _ => True := by
  have owner : c.realizeOwner.Asks answers ok fun _ => True := by
    unfold realizeOwner
    split
    · exact (asks_query (classes _ _)).mono fun _ _ => trivial
    · trivial
  refine owner.bind fun owner _ => ?_
  cases owner with
  | error e => exact fun _ _ _ => trivial
  | ok owner =>
    refine (realizes c owner).bind fun r _ => Asks.perform fun published => ?_
    cases published with
    | error e => exact fun _ => trivial
    | ok => exact fun _ _ _ _ => trivial

theorem Engine.constructLocked_asks (g : Engine) (k : KeyHandle) (copyKey : Bool) :
    (g.constructLocked k copyKey).Asks answers ok fun _ => True := by
  refine Asks.perform fun found => ?_
  cases found with
  | some m => exact fun _ => trivial
  | none =>
    refine Asks.perform fun pending => ?_
    cases pending with
    | some m => exact fun _ _ => trivial
    | none =>
      have start : (Construction.start k copyKey).Asks answers ok fun _ => True := by
        cases copyKey with
        | true => exact fun _ _ _ => trivial
        | false => exact fun _ _ => trivial
      exact start.bind fun c _ => c.run_asks classes realizes g.names

theorem Engine.request_asks (g : Engine) (r : Request) (copyKey : Bool) :
    (g.request r copyKey).Asks answers ok fun _ => True := by
  cases r with
  | tooDeeplyNested => exact fun _ _ => trivial
  | instantiate k =>
    refine Asks.perform fun found => ?_
    cases found with
    | some m => exact fun _ _ => trivial
    | none =>
      cases g.validate k.key with
      | error e => trivial
      | ok =>
        refine Asks.perform fun _ => ?_
        exact (g.constructLocked_asks classes realizes k copyKey).bind fun _ _ _ => trivial

theorem Engine.get_asks (g : Engine) (k : KeyHandle) (copyKey : Bool) :
    (g.get k copyKey).Asks answers ok fun _ => True := by
  unfold get
  split
  · exact fun _ => g.request_asks classes realizes .tooDeeplyNested copyKey
  · exact g.request_asks classes realizes (.instantiate k) copyKey

/-- A request asks what constructions ask. -/
theorem Call.program_asks (g : Engine) (c : Call) :
    (c.program g).Asks answers ok fun _ => True := by
  cases c with
  | get k copyKey => exact g.get_asks classes realizes k copyKey
  | request r copyKey => exact g.request_asks classes realizes r copyKey
  | virtualTarget v called =>
    simp only [program, Engine.virtualTarget]
    cases virtualKey v called with
    | error e => trivial
    | ok k => exact Asks.perform fun h => g.get_asks classes realizes h false

end Requests

end Monomorph
