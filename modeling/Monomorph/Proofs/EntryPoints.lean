import Monomorph.NativeCode
import Monomorph.Proofs.Questions
import Monomorph.Proofs.Replay
import Monomorph.Proofs.Results

/-!
Where a method enters its code. What native code there is, is read off the registrations: the code
registered last for the instantiation, or failing that the code registered last for all of them
(`lastCode?`). With an interpreter whose answers depend on the method alone, the addresses that a
descriptor shows follow from that, from what the interpreter says, and from whether the code of the
method expects an unboxed `this`. Main statement: `System.Run.entry_points_resolved`.
-/

namespace Monomorph

/-! ## Registrations -/

inductive Registration where
  | forInstance (t : Token) (c : Context) (code : MethodCode)
  | forAll (t : Token) (code : MethodCode)
  | invoker (t : Token) (p : InvokerPointer)

namespace Registration

/-- The code of one instantiation. -/
def instance? : Registration → Option (CodeKey × MethodCode)
  | forInstance t c code => some (⟨t, c⟩, code)
  | _ => none

/-- The code of all instantiations of a method. -/
def shared? : Registration → Option (Token × MethodCode)
  | forAll t code => some (t, code)
  | _ => none

def invoker? : Registration → Option (Token × InvokerPointer)
  | invoker t p => some (t, p)
  | _ => none

end Registration

/-- What has been noted last for a key, in a list of notes with the latest first. -/
def lastFor {ρ κ ν : Type} [DecidableEq κ] (note : ρ → Option (κ × ν)) (past : List ρ) (k : κ) :
    Option ν :=
  past.findSome? fun r => (note r).bind fun e => if k = e.1 then some e.2 else none

/-- The code registered last for the instantiation, or failing that for all of them. -/
def lastCode? (past : List Registration) (t : Token) (c : Context) : Option MethodCode :=
  (lastFor Registration.instance? past ⟨t, c⟩).or (lastFor Registration.shared? past t)

def lastInvoker? (past : List Registration) (t : Token) : Option InvokerPointer :=
  lastFor Registration.invoker? past t

theorem lastFor_cons {ρ κ ν : Type} [DecidableEq κ] (note : ρ → Option (κ × ν)) (r : ρ)
    (past : List ρ) (k : κ) : lastFor note (r :: past) k =
      ((note r).bind fun e => if k = e.1 then some e.2 else none).or (lastFor note past k) := by
  rw [lastFor, List.findSome?_cons]
  cases (note r).bind fun e => if k = e.1 then some e.2 else none <;> rfl

/-- A table into which notes are inserted one by one holds the last one of each key. -/
theorem Table.find?_eq_lastFor {ρ κ ν : Type} [DecidableEq κ] {note : ρ → Option (κ × ν)}
    (table : List ρ → Table κ ν) (new : table [] = {})
    (cons : ∀ r past, table (r :: past) =
      ((note r).map fun e => (table past).insert e.1 e.2).getD (table past))
    (past : List ρ) (k : κ) : (table past).find? k = lastFor note past k := by
  induction past with
  | nil =>
    rw [new]
    rfl
  | cons r past ih =>
    rw [lastFor_cons, cons, ← ih]
    cases note r with
    | none => rfl
    | some e =>
      by_cases h : k = e.1
      · simp [h]
      · simp [h, find?_insert_of_ne _ _ h]

namespace NativeCode

def apply (n : NativeCode) : Registration → NativeCode
  | .forInstance t c code => n.addInstance t c code
  | .forAll t code => n.addShared t code
  | .invoker t p => n.addInvoker t p

/-- The tables after these registrations, the latest first. -/
def after : List Registration → NativeCode
  | [] => default
  | r :: past => (after past).apply r

variable (past : List Registration)

theorem instances_after (k : CodeKey) :
    (after past).instances.find? k = lastFor Registration.instance? past k :=
  Table.find?_eq_lastFor (fun past => (after past).instances) rfl
    (fun r _ => by cases r <;> rfl) past k

theorem shared_after (t : Token) :
    (after past).shared.find? t = lastFor Registration.shared? past t :=
  Table.find?_eq_lastFor (fun past => (after past).shared) rfl
    (fun r _ => by cases r <;> rfl) past t

theorem invoker_after (t : Token) : (after past).invoker t = lastInvoker? past t :=
  Table.find?_eq_lastFor (fun past => (after past).invokers) rfl
    (fun r _ => by cases r <;> rfl) past t

theorem methodPointer_after (t : Token) (c : Context) (preferDirect : Bool) :
    (after past).methodPointer t c preferDirect true =
      (lastCode? past t c).map (·.select preferDirect) := by
  unfold methodPointer code? lastCode?
  rw [instances_after, shared_after]
  cases lastFor Registration.instance? past ⟨t, c⟩ <;> rfl

/-- The sources of code with these registrations. -/
def sources (I : Interpreter) : CodeSources where
  nativeInvoker m _ := (after past).invoker m.token
  nativePointer m c := (after past).methodPointer m.token c
  interpreter := I

end NativeCode

/-! ## What a descriptor shows -/

namespace Descriptor

/-- The method takes a `this` argument, and its code expects it unboxed. -/
def takesUnboxed (d : Descriptor) : Bool := d.isInstance && d.owner.any (·.isValueType)

/-- The descriptor of a method with native code. Vtables have the thunk if there is one; the entry
for interpreted callers is in the same code. -/
structure RunsNative (d : Descriptor) (code : MethodCode) : Prop where
  kind : d.dispatch.map (·.kind) = some .nativeDirect
  methodPointer : d.methodPointer = some (code.thunk.getD code.body)
  virtualCallByInterp : d.virtualCallByInterp = some (code.thunk.getD code.body)
  callByInterp : d.callByInterp = if d.takesUnboxed then some code.body else d.methodPointer
  isInterpreted : d.isInterpreted = false
  isCallableByInterp : d.isCallableByInterp = true
  entryPoint : d.entryPoint = .ok (code.thunk.getD code.body)

/-- The descriptor of a method that the interpreter claims, also if it gives no address. -/
structure RunsInterpreted (d : Descriptor) (I : Interpreter) (p : PendingMethod) : Prop where
  kind : d.dispatch.map (·.kind) =
    some (if d.takesUnboxed then .interpretedViaThunk else .interpretedDirect)
  methodPointer : d.methodPointer = if d.takesUnboxed then I.thunk p else I.entry p
  virtualCallByInterp : d.virtualCallByInterp = d.methodPointer
  callByInterp : d.callByInterp = I.entry p
  invoker : d.invoker = I.invoker p
  isInterpreted : d.isInterpreted = true
  isCallableByInterp : d.isCallableByInterp = true
  entryPoint : d.entryPoint = d.methodPointer.elim (.error (.missingPointer d.token)) .ok

/-- The descriptor of a method without code. -/
structure RunsNothing (d : Descriptor) : Prop where
  dispatch : d.dispatch = some .unresolved
  methodPointer : d.methodPointer = none
  virtualCallByInterp : d.virtualCallByInterp = none
  callByInterp : d.callByInterp = none
  isInterpreted : d.isInterpreted = false
  isCallableByInterp : d.isCallableByInterp = false
  entryPoint : d.entryPoint = .error (.missingPointer d.token)

end Descriptor

/-- The descriptor shows the code that there is for the method: native code before the
interpreter. -/
structure PendingMethod.Enters (past : List Registration) (I : Interpreter) (p : PendingMethod)
    (d : Descriptor) : Prop where
  native : ∀ code, lastCode? past p.definition.token p.context = some code →
    d.RunsNative code ∧ d.invoker = lastInvoker? past p.definition.token
  interpreted : lastCode? past p.definition.token p.context = none → I.claims p = true →
    d.RunsInterpreted I p
  unresolved : lastCode? past p.definition.token p.context = none → I.claims p = false →
    d.RunsNothing ∧ d.invoker = lastInvoker? past p.definition.token

theorem NativeCode.dispatch_sources (past : List Registration) (I : Interpreter)
    (p : PendingMethod) : (sources past I).dispatch p =
      match lastCode? past p.definition.token p.context with
      | some code => ⟨lastInvoker? past p.definition.token,
          .nativeDirect (code.select true) (some (code.select (!p.needsThunk)))⟩
      | none =>
        if I.claims p then ⟨I.invoker p, I.dispatch p⟩
        else ⟨lastInvoker? past p.definition.token, .unresolved⟩ := by
  simp only [CodeSources.dispatch, sources, invoker_after, methodPointer_after]
  cases lastCode? past p.definition.token p.context with
  | none => rfl
  | some code => cases p.needsThunk <;> rfl

section Enters

variable {past : List Registration} {I : Interpreter} {h : KeyHandle} {n : MethodId}
  {owner : RuntimeClass} {r : Realization} {p : PendingMethod} {d : Descriptor}

namespace Descriptor

/-- A method is entered at its primary address, if there is one. -/
theorem entryPoint_eq (h : d.dispatch ≠ some .nestingTooDeep) :
    d.entryPoint = d.methodPointer.elim (.error (.missingPointer d.token)) .ok := by
  unfold entryPoint Descriptor.methodPointer
  cases hd : d.dispatch with
  | none => rfl
  | some x =>
    cases x with
    | nestingTooDeep => exact absurd hd h
    | nativeDirect | unresolved => rfl
    | interpretedDirect entry => cases entry <;> rfl
    | interpretedViaThunk entry thunk => cases thunk <;> rfl

theorem RunsNative.of_dispatch {code : MethodCode} (hd : d.dispatch =
    some (.nativeDirect (code.select true) (some (code.select (!d.takesUnboxed))))) :
    d.RunsNative code := by
  have methodPointer : d.methodPointer = some (code.thunk.getD code.body) := by
    rw [Descriptor.methodPointer, hd]
    rfl
  refine ⟨?_, methodPointer, ?_, ?_, ?_, ?_, ?_⟩
  · rw [hd]
    rfl
  · rw [Descriptor.virtualCallByInterp, hd]
    rfl
  · rw [methodPointer, Descriptor.callByInterp, hd]
    cases d.takesUnboxed <;> rfl
  · rw [Descriptor.isInterpreted, hd]
    rfl
  · rw [Descriptor.isCallableByInterp, hd]
    rfl
  · rw [entryPoint_eq (by simp [hd]), methodPointer]
    rfl

theorem RunsInterpreted.of_dispatch (boxed : d.takesUnboxed = p.needsThunk)
    (hd : d.dispatch = some (I.dispatch p)) (invoker : d.invoker = I.invoker p) :
    d.RunsInterpreted I p := by
  unfold Interpreter.dispatch at hd
  rw [← boxed] at hd
  refine ⟨?_, ?_, ?_, ?_, invoker, ?_, ?_, ?_⟩
  · rw [hd]
    cases d.takesUnboxed <;> rfl
  · rw [Descriptor.methodPointer, hd]
    cases d.takesUnboxed <;> rfl
  · rfl
  · rw [Descriptor.callByInterp, hd]
    cases d.takesUnboxed <;> rfl
  · rw [Descriptor.isInterpreted, hd]
    cases d.takesUnboxed <;> rfl
  · rw [Descriptor.isCallableByInterp, hd]
    cases d.takesUnboxed <;> rfl
  · refine entryPoint_eq ?_
    rw [hd]
    cases d.takesUnboxed <;> nofun

theorem RunsNothing.of_dispatch (hd : d.dispatch = some .unresolved) : d.RunsNothing := by
  have methodPointer : d.methodPointer = none := by
    rw [Descriptor.methodPointer, hd]
    rfl
  refine ⟨hd, methodPointer, ?_, ?_, ?_, ?_, ?_⟩
  · rw [Descriptor.virtualCallByInterp, hd]
    rfl
  · rw [Descriptor.callByInterp, hd]
    rfl
  · rw [Descriptor.isInterpreted, hd]
    rfl
  · rw [Descriptor.isCallableByInterp, hd]
    rfl
  · rw [entryPoint_eq (by simp [hd]), methodPointer]
    rfl

end Descriptor

/-- A descriptor with the entry points that are resolved for it shows the code that there is. -/
theorem PendingMethod.enters (boxed : d.takesUnboxed = p.needsThunk)
    (resolved : d.realization.map (fun r => (⟨r.invoker, r.dispatch⟩ : ResolvedDispatch)) =
      some ((NativeCode.sources past I).dispatch p)) : p.Enters past I d := by
  obtain ⟨r, hr, resolved⟩ := Option.map_eq_some_iff.1 resolved
  have invoker : d.invoker = r.invoker := by simp [Descriptor.invoker, hr]
  have dispatch : d.dispatch = some r.dispatch := by simp [Descriptor.dispatch, hr]
  rw [NativeCode.dispatch_sources] at resolved
  refine ⟨fun code found => ?_, fun missing claimed => ?_, fun missing unclaimed => ?_⟩
  · rw [found] at resolved
    obtain ⟨hi, hd⟩ := ResolvedDispatch.mk.inj resolved
    rw [hd, ← boxed] at dispatch
    exact ⟨.of_dispatch dispatch, invoker.trans hi⟩
  · rw [missing, if_pos claimed] at resolved
    obtain ⟨hi, hd⟩ := ResolvedDispatch.mk.inj resolved
    rw [hd] at dispatch
    exact .of_dispatch boxed dispatch (invoker.trans hi)
  · rw [missing, if_neg (by simp [unclaimed])] at resolved
    obtain ⟨hi, hd⟩ := ResolvedDispatch.mk.inj resolved
    rw [hd] at dispatch
    exact ⟨.of_dispatch dispatch, invoker.trans hi⟩

end Enters

/-! ## Runs -/

/-- The question has been answered so in the run. -/
def Told (tr : List (ThreadId × Move)) (q : Query) (x : q.Answer) : Prop :=
  ∃ t c, (t, .answer c q x) ∈ tr

theorem Activity.Goes.asks {answers : (q : Query) → q.Answer → Prop} {ok : Query → Prop}
    {t : ThreadId} {m : Move} {f f' : Activity} {s s' : State} (goes : f.Goes t s m f' s')
    (answered : ∀ c q x, m = .answer c q x → answers q x)
    (h : f.rest.Asks answers ok fun _ => True) : f'.rest.Asks answers ok fun _ => True := by
  cases goes with
  | act rest =>
    rw [rest] at h
    exact h _
  | answer rest x =>
    rw [rest] at h
    exact h.2 x (answered _ _ x rfl)

/-- If no request asks too much at its beginning, none does later. -/
theorem System.Run.asks {g : Engine} {okMove : System → ThreadId → Move → Prop} {X Y : System}
    {tr : List (ThreadId × Move)} {answers : (q : Query) → q.Answer → Prop} {ok : Query → Prop}
    (run : System.Run g okMove X tr Y)
    (answered : ∀ Z t c q x, okMove Z t (.answer c q x) → answers q x)
    (idle : ∀ t, X.stackOf t = [])
    (asks : ∀ c : Call, (c.program g).Asks answers ok fun _ => True) :
    ∀ t, ∀ f ∈ Y.stackOf t, f.rest.Asks answers ok fun _ => True := by
  induction run with
  | nil => simp [idle]
  | step _ allowed move ih =>
    intro t f hf
    rcases move.mem_stackOf hf with hf | ⟨c, -, rfl⟩ | ⟨f₀, hf₀, goes⟩
    · exact ih t f hf
    · exact asks c
    · exact goes.asks (fun c q x hm => answered _ _ c q x (hm ▸ allowed)) (ih _ f₀ hf₀)

namespace NativeCode

variable (past : List Registration) (I : Interpreter)

/-- An answer about code comes from the registrations and the interpreter, and has been given in
the run. -/
def Answers (tr : List (ThreadId × Move)) (q : Query) (x : q.Answer) : Prop :=
  (sources past I).Agrees q x ∧ Told tr q x

variable (tr : List (ThreadId × Move))

theorem realize_asks_sources (c : Construction) (owner : RuntimeClass) :
    (c.realize owner).Asks (Answers past I tr) (sources past I).Spares fun r =>
      ⟨r.invoker, r.dispatch⟩ = (sources past I).dispatch
        ⟨c.method, c.key, owner, r.returnType, r.parameters⟩ := by
  have contextData : c.resolveContextData.Asks (Answers past I tr) (sources past I).Spares
      fun _ => True := by
    unfold Construction.resolveContextData
    split
    · exact (Program.asks_query nofun).mono fun _ _ => trivial
    · trivial
  have agrees : ∀ q x, Answers past I tr q x → (sources past I).Agrees q x := fun _ _ hx => hx.1
  have dispatch := fun returnType parameters =>
    c.resolveDispatch_asks agrees ⟨c.method, c.key, owner, returnType, parameters⟩
  exact (Construction.realize_asks (fun _ => nofun) nofun contextData dispatch).mono
    fun r learned => learned.2

/-- What constructions come to with these registrations and this interpreter. -/
def contract : Contract :=
  .learning (Answers past I tr)
    (fun c owner r => ⟨r.invoker, r.dispatch⟩ = (sources past I).dispatch
      ⟨c.method, c.key, owner, r.returnType, r.parameters⟩)
    fun c owner => (realize_asks_sources past I tr c owner).unbounded

end NativeCode

/-- In a run of a cache, what is built enters its code as the registrations and the interpreter have
it. -/
structure System.EntersCode (g : Engine) (past : List Registration) (I : Interpreter)
    (tr : List (ThreadId × Move)) (Y : System) : Prop where
  /-- The declaring class is the one that the construction has been told. -/
  built : ∀ n r, Completed tr n r → ∃ h owner,
    Y.state.store.get? n = some (.describing h (some r)) ∧ r.owner = some owner ∧
    (⟨h, n⟩ : Construction).Declares (Told tr) owner ∧
    (⟨n, h, owner, r.returnType, r.parameters⟩ : PendingMethod).Enters past I
      (.describing h (some r))
  /-- What is complete in the cache has been built in the run. -/
  cached : ∀ k n, Y.state.cache.methods.find? k = some n → Y.Built tr k n
  /-- So has what requests end with that the recursion guard has not answered. -/
  given : ∀ t, ∀ f ∈ Y.stackOf t, ∀ k n, f.call.aim g = .key k → f.rest = .done (.ok n) →
    f.isRecursive = false → Y.Built tr k n
  /-- The interpreter is never asked about a method with native code. -/
  spared : ∀ t, ∀ f ∈ Y.stackOf t, ∀ c q next, f.rest = .ask c q next →
    ∀ p, q.interpreted? = some p → lastCode? past p.definition.token p.context = none

/-- In every run, whatever is requested and whatever the answers to other questions are. -/
theorem System.Run.entry_points_resolved {past : List Registration} {I : Interpreter} {g : Engine}
    {ok : System → ThreadId → Move → Prop} {X Y : System} {tr : List (ThreadId × Move)}
    (run : System.Run g ok X tr Y) (fresh : X.state.IsFresh) (idle : ∀ t, X.stackOf t = [])
    (agrees : ∀ q x, Told tr q x → (NativeCode.sources past I).Agrees q x) :
    System.EntersCode g past I tr Y := by
  have admitted : System.Run g (fun _ _ m => (NativeCode.contract past I tr).Admits m) X tr Y := by
    refine run.of_mem fun t m hm => ?_
    cases m with
    | answer c q x => exact ⟨agrees q x ⟨t, c, hm⟩, t, c, hm⟩
    | _ => trivial
  have course := admitted.course (fun _ _ _ h => h) fresh idle
  refine ⟨fun n r hr => ?_, course.inserted, fun t f hf k n aim rest => ?_,
    fun t f hf c q next rest p hp => ?_⟩
  · obtain ⟨h, hd, owner, howner, declares, resolved⟩ := course.completed n r hr
    refine ⟨h, owner, hd, howner, declares.mono fun _ _ => And.right, ?_⟩
    refine PendingMethod.enters ?_ (congrArg some resolved)
    simp [Descriptor.takesUnboxed, Descriptor.owner, howner]
    rfl
  · exact (admitted.gives (fun _ _ _ h => h) fresh idle hf aim rest).built
  · have asks : ∀ c : Call, (c.program g).Asks (NativeCode.Answers past I tr)
        (NativeCode.sources past I).Spares fun _ => True := fun c =>
      c.program_asks (fun _ _ => nofun) (fun c owner =>
        (NativeCode.realize_asks_sources past I tr c owner).mono fun _ _ => trivial) g
    have asked := admitted.asks (fun _ _ _ _ _ h => h) idle asks t f hf
    rw [rest] at asked
    have missing := asked.1 p hp
    simpa [NativeCode.sources, NativeCode.methodPointer_after] using missing

namespace Sample

/-- A value type. -/
def point : TypeDef := { cell with serial := 2, name := "Point", isValueType := true }

def swap : MethodDef :=
  { read with serial := 3, token := .methodDef 1, name := "Swap", owner := .definition point }

def scale : MethodDef := { swap with serial := 4, token := .methodDef 2, name := "Scale" }

def body : MethodPointer := ⟨16, by decide⟩

def thunk : MethodPointer := ⟨24, by decide⟩

def entry : MethodPointer := ⟨40, by decide⟩

/-- The code for the instantiation comes after code for all of them. -/
def registrations : List Registration :=
  [.forInstance swap.token (key swap).context ⟨body, some thunk⟩,
    .forAll swap.token ⟨thunk, none⟩]

end Sample

/-- One of the methods of a value type has native code, the other is claimed by the interpreter,
which has an entry for it but no thunk. -/
def Collaborators.withCode : Collaborators :=
  { plain with
    nativePointer := fun m c => (NativeCode.after Sample.registrations).methodPointer m.token c
    nativeInvoker := fun m _ => (NativeCode.after Sample.registrations).invoker m.token
    isImplemented := fun v => v.key.definition.token = Sample.scale.token
    interpreterEntry := fun _ => some Sample.entry }

namespace Sample

/-- Instances of the two methods, one after the other. -/
def entered : List (ThreadId × Cue) :=
  (.call (.get ⟨0, key swap⟩ false) :: goOn 18 ++ .call (.get ⟨1, key scale⟩ false) ::
    goOn 23).map fun q => (0, q)

end Sample

/-- Vtables have the thunk of the compiled method, and nothing for the interpreted one; interpreted
callers have an entry for both. -/
theorem System.Run.entry_points_resolved_boxed :
    ∃ R, System.replay {} .withCode Sample.entered ([], {state := {}}) = some R ∧
      R.2.state.store.descriptors.toList.map (fun d => (d.methodPointer, d.callByInterp)) =
        [(some Sample.thunk, some Sample.body), (none, some Sample.entry)] ∧
      System.EntersCode {} Sample.registrations Collaborators.withCode.sources.interpreter
        R.1 R.2 := by
  have facts : (System.replay {} .withCode Sample.entered ([], {state := {}})).map (fun R =>
      R.2.state.store.descriptors.toList.map fun d => (d.methodPointer, d.callByInterp)) =
        some [(some Sample.thunk, some Sample.body),
          (none, some Sample.entry)] := by
    decide +kernel
  obtain ⟨R, hR, shown⟩ := Option.map_eq_some_iff.1 facts
  have run : System.Run {} (fun _ _ m => m.IsPlayed .withCode) {state := {}} R.1 R.2 :=
    System.replay_run (fun _ _ _ played => played) .nil hR
  refine ⟨R, hR, shown, run.entry_points_resolved ⟨rfl, rfl⟩ (fun _ => rfl) ?_⟩
  rintro q x ⟨t, c, told⟩
  obtain rfl : x = Collaborators.withCode.answer q := run.allows_of_mem told
  exact Collaborators.withCode.agrees_answer q

end Monomorph
