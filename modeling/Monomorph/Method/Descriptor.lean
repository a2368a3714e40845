import Monomorph.Error
import Monomorph.Method.Dispatch
import Monomorph.RuntimeContext

/-!
Descriptors of method instances. A descriptor is allocated with the identity of its method and is
pending until everything else, its realization, is published in one step; after that it never
changes.
-/

namespace Monomorph

inductive MethodState where
  | pending
  | complete
  deriving DecidableEq

def MethodState.text : MethodState → String
  | pending => "Pending"
  | complete => "Complete"

/-- What a descriptor learns while it is built. -/
structure Realization where
  /-- The declaring class, instantiated if it is generic. -/
  owner : Option RuntimeClass := none
  returnType : Option TypeExpr := none
  parameters : List Parameter := []
  isGeneric : Bool := false
  container : Option ContainerHandle := none
  metadata : Option MetadataHandle := none
  contextData : Option ContextData := none
  invoker : Option InvokerPointer := none
  dispatch : Dispatch := .unresolved
  deriving DecidableEq, Inhabited

structure Descriptor where
  /-- The instance described; absent in the placeholder for too deep an instantiation. -/
  key : Option KeyHandle
  token : Token
  name : String
  flags : MethodFlags
  implFlags : UInt32
  slot : UInt16
  realization : Option Realization := none
  deriving DecidableEq, Inhabited

namespace Descriptor

/-- A pending descriptor: the identity of the definition, and nothing else yet. -/
def ofKey (k : KeyHandle) : Descriptor where
  key := some k
  token := k.key.definition.token
  name := k.key.definition.name
  flags := k.key.definition.flags
  implFlags := k.key.definition.implFlags
  slot := k.key.definition.slot

/-- The answer to a request for an instantiation that nests too deeply. -/
def placeholder : Descriptor where
  key := none
  token := .null
  name := ""
  flags := ⟨0⟩
  implFlags := 0
  slot := 0
  realization := some { dispatch := .nestingTooDeep }

@[simp] theorem ofKey_inj {k l : KeyHandle} : ofKey k = ofKey l ↔ k = l :=
  ⟨fun h => Option.some.inj (congrArg key h), congrArg ofKey⟩

@[simp] theorem ofKey_ne_placeholder (k : KeyHandle) : ofKey k ≠ placeholder :=
  fun h => Option.some_ne_none k (congrArg key h)

/-- Completes a pending descriptor. -/
def publish (d : Descriptor) (r : Realization) : Except Error Descriptor :=
  match d.realization with
  | none => .ok { d with realization := some r }
  | some _ => .error (.alreadyRealized d.token)

def state (d : Descriptor) : MethodState :=
  match d.realization with
  | none => .pending
  | some _ => .complete

def definition (d : Descriptor) : Option MethodDef := d.key.map (·.key.definition)

def context (d : Descriptor) : Option Context := d.key.map (·.key.context)

/-- Every descriptor but the placeholder describes an instance. -/
def isInflated (d : Descriptor) : Bool := d.key.isSome

/-- The method takes a `this` argument. -/
def isInstance (d : Descriptor) : Bool := !d.flags.isStatic

/-- The instance is open: its method is generic, and no arguments were given for it. -/
def isGeneric (d : Descriptor) : Bool := (d.realization.map (·.isGeneric)).getD false

def owner (d : Descriptor) : Option RuntimeClass := d.realization.bind (·.owner)

def returnType (d : Descriptor) : Option TypeExpr := d.realization.bind (·.returnType)

def parameters (d : Descriptor) : List Parameter := (d.realization.map (·.parameters)).getD []

def container (d : Descriptor) : Option ContainerHandle := d.realization.bind (·.container)

def metadata (d : Descriptor) : Option MetadataHandle := d.realization.bind (·.metadata)

def contextData (d : Descriptor) : Option ContextData := d.realization.bind (·.contextData)

def invoker (d : Descriptor) : Option InvokerPointer := d.realization.bind (·.invoker)

def dispatch (d : Descriptor) : Option Dispatch := d.realization.map (·.dispatch)

def methodPointer (d : Descriptor) : Option MethodPointer := d.dispatch.bind (·.methodPointer)

def callByInterp (d : Descriptor) : Option MethodPointer := d.dispatch.bind (·.callByInterp)

def virtualCallByInterp (d : Descriptor) : Option MethodPointer :=
  d.dispatch.bind (·.virtualCallByInterp)

def isInterpreted (d : Descriptor) : Bool := (d.dispatch.map (·.isInterpreted)).getD false

def isCallableByInterp (d : Descriptor) : Bool :=
  (d.dispatch.map (·.isCallableByInterp)).getD false

/-- Where to jump to when the method is invoked. -/
def entryPoint (d : Descriptor) : Except Error MethodPointer :=
  match d.dispatch with
  | some .nestingTooDeep => .error .nestingTooDeep
  | some s =>
    match s.methodPointer with
    | some p => .ok p
    | none => .error (.missingPointer d.token)
  | none => .error (.missingPointer d.token)

end Descriptor

/-- The place of a descriptor among those allocated. -/
structure MethodId where
  index : Nat
  deriving DecidableEq, Inhabited

/-- What collaborators see of a method while its dispatch is resolved: its key, and what has been
found out so far. -/
structure PendingMethod where
  method : MethodId
  key : KeyHandle
  owner : RuntimeClass
  returnType : Option TypeExpr
  parameters : List Parameter

namespace PendingMethod

def definition (p : PendingMethod) : MethodDef := p.key.key.definition

def context (p : PendingMethod) : Context := p.key.key.context

/-- Instance methods of value types need a thunk for calls through a vtable. -/
def needsThunk (p : PendingMethod) : Bool := p.definition.isInstance && p.owner.isValueType

end PendingMethod

end Monomorph
