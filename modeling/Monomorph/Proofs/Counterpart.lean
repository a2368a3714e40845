import Monomorph.Proofs.Collaborators
import Monomorph.Proofs.Likeness

/-!
Like requests have like programs. Two programs are alike if they do the same, ask the same, and go
on alike after like responses and equal answers; the copying of keys does not count. Main
statement: `Call.program_like`, where requests for equal keys are alike whether or not the key is
to be copied.
-/

namespace Monomorph

/-! ## Questions and requests -/

structure Construction.Like (M N : Mark) (c c' : Construction) : Prop where
  key : c.key.key = c'.key.key
  method : c.method.Like M N c'.method

/-- Those who do not look at which copy of a key they are given cannot tell the two apart. -/
structure PendingMethod.Like (M N : Mark) (p p' : PendingMethod) : Prop where
  method : p.method.Like M N p'.method
  view : p.view = p'.view

/-- The same question, maybe about a method under construction and its counterpart. -/
inductive Query.Like (M N : Mark) : Query → Query → Prop where
  | realizeClass (c : RuntimeClass) (as : TypeArgs) :
      Like M N (.realizeClass c as) (.realizeClass c as)
  | inflateType (e : TypeExpr) (c : Context) : Like M N (.inflateType e c) (.inflateType e c)
  | inflateParameters (ps : List Parameter) (c : Context) :
      Like M N (.inflateParameters ps c) (.inflateParameters ps c)
  | contextData (i : ImageHandle) (t : Token) (c : Context) :
      Like M N (.contextData i t c) (.contextData i t c)
  | nativeInvoker (m : MethodDef) (c : Context) : Like M N (.nativeInvoker m c) (.nativeInvoker m c)
  | nativePointer (m : MethodDef) (c : Context) (preferDirect allowSharing : Bool) :
      Like M N (.nativePointer m c preferDirect allowSharing)
        (.nativePointer m c preferDirect allowSharing)
  | isInterpreted {p p' : PendingMethod} (h : p.Like M N p') :
      Like M N (.isInterpreted p) (.isInterpreted p')
  | isImplemented {p p' : PendingMethod} (h : p.Like M N p') :
      Like M N (.isImplemented p) (.isImplemented p')
  | interpreterInvoker {p p' : PendingMethod} (h : p.Like M N p') :
      Like M N (.interpreterInvoker p) (.interpreterInvoker p')
  | interpreterEntry {p p' : PendingMethod} (h : p.Like M N p') :
      Like M N (.interpreterEntry p) (.interpreterEntry p')
  | interpreterThunk {p p' : PendingMethod} (h : p.Like M N p') :
      Like M N (.interpreterThunk p) (.interpreterThunk p')

inductive MethodResult.Like (M N : Mark) : MethodResult → MethodResult → Prop where
  | ok {m n : MethodId} (h : m.Like M N n) : Like M N (.ok m) (.ok n)
  | error (e : Error) : Like M N (.error e) (.error e)

inductive SlotMethod.Like : SlotMethod → SlotMethod → Prop where
  | definition (m : MethodDef) : Like (.definition m) (.definition m)
  | descriptor {d d' : Descriptor} (h : d.Like d') : Like (.descriptor d) (.descriptor d')

/-- The same request, with any copies of its keys and with any demand to copy them. -/
inductive Call.Like : Call → Call → Prop where
  | get {h h' : KeyHandle} (hk : h.key = h'.key) (copyKey copyKey' : Bool) :
      Like (.get h copyKey) (.get h' copyKey')
  | instantiate {h h' : KeyHandle} (hk : h.key = h'.key) (copyKey copyKey' : Bool) :
      Like (.request (.instantiate h) copyKey) (.request (.instantiate h') copyKey')
  | tooDeeplyNested (copyKey copyKey' : Bool) :
      Like (.request .tooDeeplyNested copyKey) (.request .tooDeeplyNested copyKey')
  | virtualTarget {v v' : SlotMethod} {called called' : Descriptor} (hv : v.Like v')
      (hd : called.Like called') : Like (.virtualTarget v called) (.virtualTarget v' called')

section Data

variable {M N : Mark}

namespace Construction.Like

variable {c c' : Construction}

theorem symm (h : c.Like M N c') : c'.Like N M c := ⟨h.key.symm, h.method.symm⟩

theorem definition (h : c.Like M N c') : c.definition = c'.definition :=
  congrArg (·.definition) h.key

theorem context (h : c.Like M N c') : c.context = c'.context := congrArg (·.context) h.key

theorem isClassLevel (h : c.Like M N c') : c.isClassLevel = c'.isClassLevel :=
  congrArg (·.methodArgs.isNone) h.context

end Construction.Like

namespace PendingMethod.Like

variable {p p' : PendingMethod}

theorem symm (h : p.Like M N p') : p'.Like N M p := ⟨h.method.symm, h.view.symm⟩

theorem definition (h : p.Like M N p') : p.definition = p'.definition :=
  congrArg (·.key.definition) h.view

theorem context (h : p.Like M N p') : p.context = p'.context :=
  congrArg (·.key.context) h.view

theorem needsThunk (h : p.Like M N p') : p.needsThunk = p'.needsThunk := by
  have owner : p.owner = p'.owner := congrArg (·.owner) h.view
  unfold PendingMethod.needsThunk
  rw [h.definition, owner]

end PendingMethod.Like

theorem Query.Like.symm {q q' : Query} (h : q.Like M N q') : q'.Like N M q := by
  cases h with
  | isInterpreted h => exact .isInterpreted h.symm
  | isImplemented h => exact .isImplemented h.symm
  | interpreterInvoker h => exact .interpreterInvoker h.symm
  | interpreterEntry h => exact .interpreterEntry h.symm
  | interpreterThunk h => exact .interpreterThunk h.symm
  | realizeClass | inflateType | inflateParameters | contextData | nativeInvoker |
    nativePointer => constructor

/-- Like questions have the same answers. -/
theorem Query.Like.exists_answer {q q' : Query} (h : q.Like M N q') (x : q.Answer) :
    ∃ x' : q'.Answer, HEq x x' := by
  cases h <;> exact ⟨x, .rfl⟩

theorem MethodResult.Like.symm {r r' : MethodResult} (h : MethodResult.Like M N r r') :
    MethodResult.Like N M r' r := by
  cases h with
  | ok h => exact .ok h.symm
  | error e => exact .error e

theorem MethodResult.Like.eq {r r' : MethodResult} (h : MethodResult.Like {} {} r r') : r = r' := by
  cases h with
  | ok h => rw [h.eq]
  | error => rfl

theorem SlotMethod.Like.symm {v v' : SlotMethod} (h : v.Like v') : v'.Like v := by
  cases h with
  | definition m => exact .definition m
  | descriptor h => exact .descriptor h.symm

theorem SlotMethod.Like.refl (v : SlotMethod) : v.Like v := by
  cases v with
  | definition m => exact .definition m
  | descriptor d => exact .descriptor (.refl d)

theorem Call.Like.refl (c : Call) : c.Like c := by
  cases c with
  | get h b => exact .get rfl b b
  | request r b =>
    cases r with
    | instantiate h => exact .instantiate rfl b b
    | tooDeeplyNested => exact .tooDeeplyNested b b
  | virtualTarget v called => exact .virtualTarget (.refl v) (.refl called)

theorem Call.Like.symm {c c' : Call} (h : c.Like c') : c'.Like c := by
  cases h with
  | get hk b b' => exact .get hk.symm b' b
  | instantiate hk b b' => exact .instantiate hk.symm b' b
  | tooDeeplyNested b b' => exact .tooDeeplyNested b' b
  | virtualTarget hv hd => exact .virtualTarget hv.symm hd.symm

theorem SlotMethod.Like.target {v v' : SlotMethod} (h : v.Like v') : v.target = v'.target := by
  cases h with
  | definition m => rfl
  | @descriptor d d' h =>
    have key := h.key
    unfold SlotMethod.target
    cases hk : d.key with
    | none =>
      cases hk' : d'.key with
      | none => simp only [hk, hk', h.token]
      | some l' => simp [hk, hk'] at key
    | some l =>
      cases hk' : d'.key with
      | none => simp [hk, hk'] at key
      | some l' =>
        have same : l.key = l'.key := by simpa [hk, hk'] using key
        simp only [hk, hk', same]

/-- Like virtual calls are after the same key. -/
theorem virtualKey_like {v v' : SlotMethod} {called called' : Descriptor} (hv : v.Like v')
    (hd : called.Like called') : virtualKey v called = virtualKey v' called' := by
  unfold virtualKey
  rw [hv.target, hd.context, hd.token]

end Data

/-! ## Programs -/

/-- The programs do the same, and go on alike whatever comes of it. Their results are in `Q`. -/
inductive Program.Like (M N : Mark) {α β : Type} (Q : α → β → Prop) :
    Program α → Program β → Prop where
  | done {a : α} {b : β} (h : Q a b) : Like M N Q (.done a) (.done b)
  | act {a a' : Action} {next : a.Response → Program α} {next' : a'.Response → Program β}
      (like : a.Like M N a')
      (go : ∀ x x', AnsweredAction.Like M N ⟨a, x⟩ ⟨a', x'⟩ → Like M N Q (next x) (next' x')) :
      Like M N Q (.act a next) (.act a' next')
  | ask {c c' : Construction} {q q' : Query} {next : q.Answer → Program α}
      {next' : q'.Answer → Program β} (hc : c.Like M N c') (hq : q.Like M N q')
      (go : ∀ x x', HEq x x' → Like M N Q (next x) (next' x')) :
      Like M N Q (.ask c q next) (.ask c' q' next')
  | copyLeft {k : MethodKey} {next : KeyHandle → Program α} {p' : Program β}
      (go : ∀ h, h.key = k → Like M N Q (next h) p') : Like M N Q (.act (.copyKey k) next) p'
  | copyRight {k : MethodKey} {p : Program α} {next' : KeyHandle → Program β}
      (go : ∀ h, h.key = k → Like M N Q p (next' h)) : Like M N Q p (.act (.copyKey k) next')

namespace Program

variable {M N : Mark} {α β α' β' : Type} {Q : α → β → Prop} {R : α' → β' → Prop}
  {p : Program α} {p' : Program β} {c c' : Construction}

theorem Like.bind {f : α → Program α'} {f' : β → Program β'} (hp : p.Like M N Q p')
    (hf : ∀ a b, Q a b → (f a).Like M N R (f' b)) : (p >>= f).Like M N R (p' >>= f') := by
  induction hp with
  | done h => exact hf _ _ h
  | act like _ ih => exact .act like ih
  | ask hc hq _ ih => exact .ask hc hq ih
  | copyLeft _ ih => exact .copyLeft ih
  | copyRight _ ih => exact .copyRight ih

theorem Like.symm {Q' : β → α → Prop} (h : p.Like M N Q p') (hQ : ∀ a b, Q a b → Q' b a) :
    p'.Like N M Q' p := by
  induction h with
  | done h => exact .done (hQ _ _ h)
  | act like _ ih =>
    obtain ⟨x, x', hx⟩ := like
    exact .act ⟨x', x, hx.symm⟩ fun y' y hy => ih y y' hy.symm
  | ask hc hq _ ih => exact .ask hc.symm hq.symm fun y' y hy => ih y y' hy.symm
  | copyLeft _ ih => exact .copyRight ih
  | copyRight _ ih => exact .copyLeft ih

/-- Like actions, and what comes after them. -/
theorem Like.perform {a a' : Action} {f : a.Response → Program α} {f' : a'.Response → Program β}
    (like : a.Like M N a')
    (go : ∀ x x', AnsweredAction.Like M N ⟨a, x⟩ ⟨a', x'⟩ → (f x).Like M N Q (f' x')) :
    (Program.perform a >>= f).Like M N Q (Program.perform a' >>= f') :=
  .act like go

theorem query_like (hc : c.Like M N c') {q : Query} (hq : q.Like M N q) :
    (query c q).Like M N Eq (query c' q) :=
  .ask hc hq fun _ _ hx => .done (eq_of_heq hx)

theorem emitIf_like (b : Bool) (e : Event) : (emitIf b e).Like M N Eq (emitIf b e) := by
  cases b with
  | false => exact .done rfl
  | true => exact .act ⟨(), (), .emit e⟩ fun _ _ _ => .done rfl

end Program

/-! ## Constructions -/

namespace Construction

open Program

variable {M N : Mark} {c c' : Construction} {p p' : PendingMethod}

theorem isClaimed_like (hc : c.Like M N c') (hp : p.Like M N p') :
    (c.isClaimed p).Like M N Eq (c'.isClaimed p') := by
  refine Like.bind (Q := Eq) (.ask hc (.isInterpreted hp) fun _ _ hx => .done (eq_of_heq hx)) ?_
  rintro b _ rfl
  cases b with
  | true => exact .done rfl
  | false => exact .ask hc (.isImplemented hp) fun _ _ hx => .done (eq_of_heq hx)

theorem interpretedDispatch_like (hc : c.Like M N c') (hp : p.Like M N p')
    (entry : Option MethodPointer) :
    (c.interpretedDispatch p entry).Like M N Eq (c'.interpretedDispatch p' entry) := by
  unfold interpretedDispatch
  rw [hp.needsThunk, hp.definition]
  split
  · refine Like.bind (Q := Eq)
      (.ask hc (.interpreterThunk hp) fun _ _ hx => .done (eq_of_heq hx)) ?_
    rintro thunk _ rfl
    exact (emitIf_like _ _).bind fun _ _ _ => .done rfl
  · exact .done rfl

theorem resolveInterpreted_like (hc : c.Like M N c') (hp : p.Like M N p') :
    (c.resolveInterpreted p).Like M N Eq (c'.resolveInterpreted p') := by
  unfold resolveInterpreted
  rw [hp.definition]
  refine (isClaimed_like hc hp).bind ?_
  rintro b _ rfl
  cases b with
  | false => exact .done rfl
  | true =>
    refine Like.bind (Q := Eq)
      (.ask hc (.interpreterInvoker hp) fun _ _ hx => .done (eq_of_heq hx)) ?_
    rintro invoker _ rfl
    refine Like.bind (Q := Eq)
      (.ask hc (.interpreterEntry hp) fun _ _ hx => .done (eq_of_heq hx)) ?_
    rintro entry _ rfl
    refine (emitIf_like _ _).bind fun _ _ _ => ?_
    refine (interpretedDispatch_like hc hp entry).bind ?_
    rintro dispatch _ rfl
    exact .done rfl

theorem nativeCallByInterp_like (hc : c.Like M N c') (hp : p.Like M N p')
    (method : MethodPointer) :
    (c.nativeCallByInterp p method).Like M N Eq (c'.nativeCallByInterp p' method) := by
  unfold nativeCallByInterp
  rw [hp.needsThunk, hp.definition, hp.context]
  split
  · exact query_like hc (.nativePointer _ _ _ _)
  · exact .done rfl

theorem resolveDispatch_like (hc : c.Like M N c') (hp : p.Like M N p') :
    (c.resolveDispatch p).Like M N Eq (c'.resolveDispatch p') := by
  unfold resolveDispatch
  rw [hp.definition, hp.context]
  refine (query_like hc (.nativeInvoker _ _)).bind ?_
  rintro invoker _ rfl
  refine (query_like hc (.nativePointer _ _ _ _)).bind ?_
  rintro native _ rfl
  cases native with
  | some method =>
    refine (nativeCallByInterp_like hc hp method).bind ?_
    rintro raw _ rfl
    exact .done rfl
  | none =>
    refine (resolveInterpreted_like hc hp).bind ?_
    rintro r _ rfl
    cases r <;> exact .done rfl

theorem realizeOwner_like (hc : c.Like M N c') :
    c.realizeOwner.Like M N Eq c'.realizeOwner := by
  unfold realizeOwner
  rw [hc.context, hc.definition]
  split
  · exact query_like hc (.realizeClass _ _)
  · exact .done rfl

theorem inflateReturnType_like (hc : c.Like M N c') :
    c.inflateReturnType.Like M N Eq c'.inflateReturnType := by
  unfold inflateReturnType
  rw [hc.context, hc.definition]
  split
  · refine (query_like hc (.inflateType _ _)).bind ?_
    rintro e _ rfl
    exact .done rfl
  · exact .done rfl

theorem resolveContextData_like (hc : c.Like M N c') :
    c.resolveContextData.Like M N Eq c'.resolveContextData := by
  unfold resolveContextData
  rw [hc.context, hc.definition]
  split
  · exact query_like hc (.contextData _ _ _)
  · exact .done rfl

theorem realize_like (hc : c.Like M N c') (owner : RuntimeClass) :
    (c.realize owner).Like M N Eq (c'.realize owner) := by
  unfold realize
  rw [hc.context, hc.definition, hc.isClassLevel]
  refine (inflateReturnType_like hc).bind ?_
  rintro returnType _ rfl
  refine (query_like hc (.inflateParameters _ _)).bind ?_
  rintro parameters _ rfl
  refine (resolveContextData_like hc).bind ?_
  rintro contextData _ rfl
  have pending : PendingMethod.Like M N ⟨c.method, c.key, owner, returnType, parameters⟩
      ⟨c'.method, c'.key, owner, returnType, parameters⟩ :=
    ⟨hc.method, congrArg (MethodView.mk · owner returnType parameters) hc.key⟩
  refine (resolveDispatch_like hc pending).bind ?_
  rintro resolved _ rfl
  exact .done rfl

theorem complete_like (hc : c.Like M N c') (r : Realization) :
    (c.complete r).Like M N (MethodResult.Like M N) (c'.complete r) := by
  unfold complete
  rw [hc.key]
  refine Like.perform ⟨_, _, .publish hc.method r (.ok ())⟩ fun x x' hx => ?_
  obtain rfl : x = x' := by
    cases hx
    rfl
  cases x with
  | error e =>
    refine Like.perform ⟨_, _, .removePending _⟩ fun _ _ _ => ?_
    exact .done (.error e)
  | ok =>
    refine Like.perform ⟨_, _, .addMethod _ hc.method⟩ fun _ _ _ => ?_
    refine Like.perform ⟨_, _, .removePending _⟩ fun _ _ _ => ?_
    refine Like.perform ⟨_, _, .record _⟩ fun _ _ _ => ?_
    refine Like.perform ⟨_, _, .emit _⟩ fun _ _ _ => ?_
    exact .done (.ok hc.method)

theorem abandon_like (hc : c.Like M N c') (names : NameFormatter) (e : Error) :
    (c.abandon names e).Like M N (MethodResult.Like M N) (c'.abandon names e) := by
  unfold abandon
  rw [hc.key]
  refine Like.perform ⟨_, _, .removePending _⟩ fun _ _ _ => ?_
  refine Like.perform ⟨_, _, .record _⟩ fun _ _ _ => ?_
  refine Like.perform ⟨_, _, .emit _⟩ fun _ _ _ => ?_
  exact .done (.error _)

theorem run_like (hc : c.Like M N c') (names : NameFormatter) :
    (c.run names).Like M N (MethodResult.Like M N) (c'.run names) := by
  refine (realizeOwner_like hc).bind ?_
  rintro owner _ rfl
  cases owner with
  | error e => exact abandon_like hc names e
  | ok owner =>
    refine (realize_like hc owner).bind ?_
    rintro r _ rfl
    exact complete_like hc r

variable {h h' : KeyHandle}

/-- Whoever copies a key, the keys stay equal. -/
theorem ownKey_like (hk : h.key = h'.key) (copyKey copyKey' : Bool) :
    (ownKey h copyKey).Like M N (fun l l' => l.key = l'.key) (ownKey h' copyKey') := by
  cases copyKey with
  | false =>
    cases copyKey' with
    | false => exact .done hk
    | true => exact .copyRight fun l' hl' => .done (hk.trans hl'.symm)
  | true =>
    refine .copyLeft fun l hl => ?_
    cases copyKey' with
    | false => exact .done (hl.trans hk)
    | true => exact .copyRight fun l' hl' => .done (hl.trans (hk.trans hl'.symm))

theorem start_like (hk : h.key = h'.key) (copyKey copyKey' : Bool) :
    (start h copyKey).Like M N (Construction.Like M N) (start h' copyKey') := by
  refine (ownKey_like hk copyKey copyKey').bind fun l l' hl => ?_
  have own : (Descriptor.ofKey l).Like (.ofKey l') := .ofKey hl
  obtain ⟨m, n, hm⟩ : ∃ m n, MethodId.Like M N m n :=
    ⟨⟨M.size⟩, ⟨N.size⟩, Nat.le_refl _, Nat.add_comm _ _⟩
  refine Like.perform ⟨m, n, .allocate own hm⟩ fun m n hm => ?_
  have hm : m.Like M N n := by
    cases hm
    assumption
  rw [hl]
  refine Like.perform ⟨_, _, .addPending _ hm⟩ fun _ _ _ => ?_
  exact .done ⟨hl, hm⟩

end Construction

/-! ## Requests -/

namespace Engine

open Program Construction

variable {M N : Mark} {h h' : KeyHandle} {g : Engine}

theorem constructLocked_like (hk : h.key = h'.key) (copyKey copyKey' : Bool) :
    (g.constructLocked h copyKey).Like M N (MethodResult.Like M N)
      (g.constructLocked h' copyKey') := by
  unfold constructLocked
  rw [hk]
  refine Like.perform ⟨_, _, .findMethod _ .none⟩ fun x x' hx => ?_
  have found : Option.Rel (MethodId.Like M N) x x' := by
    cases hx
    assumption
  cases found with
  | some hm => exact Like.perform ⟨_, _, .record _⟩ fun _ _ _ => .done (.ok hm)
  | none =>
    refine Like.perform ⟨_, _, .findPending _ .none⟩ fun x x' hx => ?_
    have found : Option.Rel (MethodId.Like M N) x x' := by
      cases hx
      assumption
    cases found with
    | some hm =>
      refine Like.perform ⟨_, _, .record _⟩ fun _ _ _ => ?_
      exact Like.perform ⟨_, _, .emit _⟩ fun _ _ _ => .done (.ok hm)
    | none =>
      exact (start_like hk copyKey copyKey').bind fun c c' hc => run_like hc g.names

theorem construct_like (hk : h.key = h'.key) (copyKey copyKey' : Bool) :
    (g.construct h copyKey).Like M N (MethodResult.Like M N) (g.construct h' copyKey') := by
  refine Like.perform ⟨_, _, .acquire⟩ fun _ _ _ => ?_
  refine (constructLocked_like hk copyKey copyKey').bind fun r r' hr => ?_
  exact Like.perform ⟨_, _, .release⟩ fun _ _ _ => .done hr

theorem request_like (hk : h.key = h'.key) (copyKey copyKey' : Bool) :
    (g.request (.instantiate h) copyKey).Like M N (MethodResult.Like M N)
      (g.request (.instantiate h') copyKey') := by
  obtain ⟨i, k⟩ := h
  obtain ⟨i', k'⟩ := h'
  obtain rfl : k = k' := hk
  refine Like.perform ⟨_, _, .findMethod k .none⟩ fun x x' hx => ?_
  have found : Option.Rel (MethodId.Like M N) x x' := by
    cases hx
    assumption
  cases found with
  | some hm =>
    refine Like.perform ⟨_, _, .record _⟩ fun _ _ _ => ?_
    exact Like.perform ⟨_, _, .emit _⟩ fun _ _ _ => .done (.ok hm)
  | none =>
    have same : KeyHandle.key ⟨i, k⟩ = KeyHandle.key ⟨i', k⟩ := rfl
    simp only
    cases g.validate k with
    | error e => exact .done (.error _)
    | ok => exact construct_like same copyKey copyKey'

theorem placeholder_like (copyKey copyKey' : Bool) :
    (g.request .tooDeeplyNested copyKey).Like M N (MethodResult.Like M N)
      (g.request .tooDeeplyNested copyKey') := by
  refine Like.perform ⟨_, _, .record _⟩ fun _ _ _ => ?_
  obtain ⟨m, n, hm⟩ : ∃ m n, MethodId.Like M N m n :=
    ⟨⟨M.size⟩, ⟨N.size⟩, Nat.le_refl _, Nat.add_comm _ _⟩
  refine Like.perform ⟨m, n, .allocate (.refl _) hm⟩ fun m n hm => ?_
  have hm : m.Like M N n := by
    cases hm
    assumption
  exact .done (.ok hm)

theorem get_like (hk : h.key = h'.key) (copyKey copyKey' : Bool) :
    (g.get h copyKey).Like M N (MethodResult.Like M N) (g.get h' copyKey') := by
  unfold get
  rw [hk]
  split
  · refine Like.perform ⟨_, _, .emit _⟩ fun _ _ _ => ?_
    exact placeholder_like copyKey copyKey'
  · exact request_like hk copyKey copyKey'

theorem virtualTarget_like {v v' : SlotMethod} {called called' : Descriptor} (hv : v.Like v')
    (hd : called.Like called') :
    (g.virtualTarget v called).Like M N (MethodResult.Like M N) (g.virtualTarget v' called') := by
  unfold virtualTarget
  rw [virtualKey_like hv hd]
  cases virtualKey v' called' with
  | error e => exact .done (.error e)
  | ok k =>
    refine .copyLeft fun l hl => .copyRight fun l' hl' => ?_
    exact get_like (hl.trans hl'.symm) false false

end Engine

/-- Like requests are served alike. -/
theorem Call.Like.program_like {M N : Mark} {c c' : Call} (h : c.Like c') (g : Engine) :
    (c.program g).Like M N (MethodResult.Like M N) (c'.program g) := by
  cases h with
  | get hk b b' => exact Engine.get_like hk b b'
  | instantiate hk b b' => exact Engine.request_like hk b b'
  | tooDeeplyNested b b' => exact Engine.placeholder_like (g := g) b b'
  | virtualTarget hv hd => exact Engine.virtualTarget_like hv hd

end Monomorph
