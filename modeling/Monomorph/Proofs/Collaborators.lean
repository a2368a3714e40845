import Monomorph.Proofs.Session

/-!
Collaborators that answer the same question in the same way each time, and what an instance is if it
is built with their answers alone, without a cache: its declaring class (`Collaborators.owner`) and
its realization (`Collaborators.realization`) are functions of its key.
-/

namespace Monomorph

/-- What the answers about a method under construction depend on. -/
structure MethodView where
  key : MethodKey
  owner : RuntimeClass
  returnType : Option TypeExpr
  parameters : List Parameter

def PendingMethod.view (p : PendingMethod) : MethodView where
  key := p.key.key
  owner := p.owner
  returnType := p.returnType
  parameters := p.parameters

/-- Instance methods of value types need a thunk for calls through a vtable. -/
def MethodView.needsThunk (v : MethodView) : Bool :=
  v.key.definition.isInstance && v.owner.isValueType

/-- Collaborators that answer the same question in the same way each time. -/
structure Collaborators where
  realizeClass : RuntimeClass → TypeArgs → Except Error RuntimeClass
  inflateType : TypeExpr → Context → TypeExpr
  inflateParameters : List Parameter → Context → List Parameter
  contextData : ImageHandle → Token → Context → Option ContextData
  nativeInvoker : MethodDef → Context → Option InvokerPointer
  nativePointer : MethodDef → Context → Bool → Bool → Option MethodPointer
  isInterpreted : MethodView → Bool
  isImplemented : MethodView → Bool
  interpreterInvoker : MethodView → Option InvokerPointer
  interpreterEntry : MethodView → Option MethodPointer
  interpreterThunk : MethodView → Option MethodPointer

namespace Collaborators

variable (C : Collaborators)

def answer : (q : Query) → q.Answer
  | .realizeClass c as => C.realizeClass c as
  | .inflateType e c => C.inflateType e c
  | .inflateParameters ps c => C.inflateParameters ps c
  | .contextData i t c => C.contextData i t c
  | .nativeInvoker m c => C.nativeInvoker m c
  | .nativePointer m c preferDirect allowSharing => C.nativePointer m c preferDirect allowSharing
  | .isInterpreted p => C.isInterpreted p.view
  | .isImplemented p => C.isImplemented p.view
  | .interpreterInvoker p => C.interpreterInvoker p.view
  | .interpreterEntry p => C.interpreterEntry p.view
  | .interpreterThunk p => C.interpreterThunk p.view

/-! ## Construction without a cache -/

/-- The declaring class of an instance. -/
def owner (k : MethodKey) : Except Error RuntimeClass :=
  match k.context.classArgs with
  | some as => C.realizeClass k.definition.owner as
  | none => .ok k.definition.owner

/-- The shape of an interpreted method. -/
def interpretedDispatch (v : MethodView) : Dispatch :=
  if v.needsThunk then .interpretedViaThunk (C.interpreterEntry v) (C.interpreterThunk v)
  else .interpretedDirect (C.interpreterEntry v)

/-- Native code if there is any, otherwise the interpreter if it claims the method. -/
def dispatch (v : MethodView) : ResolvedDispatch :=
  match C.nativePointer v.key.definition v.key.context true true with
  | some p =>
    ⟨C.nativeInvoker v.key.definition v.key.context, .nativeDirect p
      (if v.needsThunk then C.nativePointer v.key.definition v.key.context false true else some p)⟩
  | none =>
    if C.isInterpreted v || C.isImplemented v then
      ⟨C.interpreterInvoker v, C.interpretedDispatch v⟩
    else ⟨C.nativeInvoker v.key.definition v.key.context, .unresolved⟩

/-- The method as it stands when its dispatch is resolved. -/
def view (k : MethodKey) (owner : RuntimeClass) : MethodView where
  key := k
  owner := owner
  returnType := k.definition.returnType.map fun e => C.inflateType e k.context
  parameters := C.inflateParameters k.definition.parameters k.context

/-- The realization of an instance with a known declaring class. Without method arguments it keeps
what the definition says of its parameters, with them it has runtime context data. -/
def realization (k : MethodKey) (owner : RuntimeClass) : Realization :=
  let v := C.view k owner
  let resolved := C.dispatch v
  let common : Realization :=
    { owner := some owner, returnType := v.returnType, parameters := v.parameters,
      invoker := resolved.invoker, dispatch := resolved.dispatch }
  match k.context.methodArgs with
  | none =>
    { common with
      isGeneric := k.definition.isGeneric
      container := if owner.isInstance then none else k.definition.container
      metadata := k.definition.metadata }
  | some _ =>
    { common with
      contextData := k.definition.image.bind fun i =>
        C.contextData i k.definition.token k.context }

end Collaborators

end Monomorph
