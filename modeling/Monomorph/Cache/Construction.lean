import Monomorph.Cache.Program
import Monomorph.Naming

/-!
The construction of an instance, under the metadata lock. The descriptor is pending from its
allocation until it is published, and requests for the same key that collaborators issue meanwhile
are answered with it. Publication comes first, then the entry among the complete instances, then
the end of the pending entry, and the lock is given back last. A construction that fails takes back
its pending entry and leaves no other.
-/

namespace Monomorph

/-- The entry points chosen for a method. -/
structure ResolvedDispatch where
  invoker : Option InvokerPointer
  dispatch : Dispatch
  deriving DecidableEq

namespace Construction

open Program

def definition (c : Construction) : MethodDef := c.key.key.definition

def context (c : Construction) : Context := c.key.key.context

/-- The instance has no arguments for the method itself. -/
def isClassLevel (c : Construction) : Bool := c.context.methodArgs.isNone

/-- The interpreter claims the method, either with its image or by itself. -/
def isClaimed (c : Construction) (p : PendingMethod) : Program Bool := do
  if ← query c (.isInterpreted p) then
    return true
  else
    query c (.isImplemented p)

/-- The shape of an interpreted method with a given entry. -/
def interpretedDispatch (c : Construction) (p : PendingMethod) (entry : Option MethodPointer) :
    Program Dispatch :=
  if p.needsThunk then do
    let thunk ← query c (.interpreterThunk p)
    emitIf thunk.isNone (.thunkMissing p.definition.token)
    return .interpretedViaThunk entry thunk
  else
    return .interpretedDirect entry

/-- The entry points of the interpreter, if it claims the method. -/
def resolveInterpreted (c : Construction) (p : PendingMethod) :
    Program (Option ResolvedDispatch) := do
  if ← c.isClaimed p then
    let invoker ← query c (.interpreterInvoker p)
    let entry ← query c (.interpreterEntry p)
    emitIf entry.isNone (.entryMissing p.definition.token)
    let dispatch ← c.interpretedDispatch p entry
    return some ⟨invoker, dispatch⟩
  else
    return none

/-- The native entry for interpreted callers: where a thunk is needed, the entry without it. -/
def nativeCallByInterp (c : Construction) (p : PendingMethod) (method : MethodPointer) :
    Program (Option MethodPointer) :=
  if p.needsThunk then
    query c (.nativePointer p.definition p.context false true)
  else
    return some method

/-- Native code comes before the interpreter. -/
def resolveDispatch (c : Construction) (p : PendingMethod) : Program ResolvedDispatch := do
  let invoker ← query c (.nativeInvoker p.definition p.context)
  match ← query c (.nativePointer p.definition p.context true true) with
  | some method =>
    let raw ← c.nativeCallByInterp p method
    return ⟨invoker, .nativeDirect method raw⟩
  | none =>
    match ← c.resolveInterpreted p with
    | some r => return r
    | none => return ⟨invoker, .unresolved⟩

/-- The declaring class: realized for the class arguments, if there are any. -/
def realizeOwner (c : Construction) : Program (Except Error RuntimeClass) :=
  match c.context.classArgs with
  | some as => query c (.realizeClass c.definition.owner as)
  | none => return .ok c.definition.owner

def inflateReturnType (c : Construction) : Program (Option TypeExpr) :=
  match c.definition.returnType with
  | some e => do return some (← query c (.inflateType e c.context))
  | none => return none

/-- The runtime context data of an instance with method arguments. -/
def resolveContextData (c : Construction) : Program (Option ContextData) :=
  match c.context.methodArgs, c.definition.image with
  | some _, some i => query c (.contextData i c.definition.token c.context)
  | _, _ => return none

/-- Finds out everything about an instance whose declaring class is known. Without method arguments
the instance keeps what the definition says of its own parameters, with them it has runtime context
data instead. -/
def realize (c : Construction) (owner : RuntimeClass) : Program Realization := do
  let returnType ← c.inflateReturnType
  let parameters ← query c (.inflateParameters c.definition.parameters c.context)
  let contextData ← c.resolveContextData
  let resolved ← c.resolveDispatch ⟨c.method, c.key, owner, returnType, parameters⟩
  return {
    owner := some owner
    returnType := returnType
    parameters := parameters
    isGeneric := c.isClassLevel && c.definition.isGeneric
    container := if c.isClassLevel && !owner.isInstance then c.definition.container else none
    metadata := if c.isClassLevel then c.definition.metadata else none
    contextData := contextData
    invoker := resolved.invoker
    dispatch := resolved.dispatch }

/-- Ends a construction with the realization it has found. -/
def complete (c : Construction) (r : Realization) : Program MethodResult := do
  let published ← perform (.publish c.method r)
  match published with
  | .error e =>
    perform (.removePending c.key.key)
    return .error e
  | .ok _ =>
    perform (.addMethod c.key.key c.method)
    perform (.removePending c.key.key)
    perform (.record (.inflated r.dispatch.kind))
    perform (.emit (.inflated r.dispatch.kind))
    return .ok c.method

/-- Ends a construction whose declaring class cannot be realized. -/
def abandon (c : Construction) (names : NameFormatter) (e : Error) :
    Program MethodResult := do
  perform (.removePending c.key.key)
  perform (.record .failure)
  let name := names.keyName c.key.key
  perform (.emit (.realizationFailed name e))
  return .error (.unresolvable name e)

/-- Carries a construction through once its descriptor is pending. -/
def run (c : Construction) (names : NameFormatter) : Program MethodResult := do
  let owner ← c.realizeOwner
  match owner with
  | .error e => c.abandon names e
  | .ok k =>
    let r ← c.realize k
    c.complete r

/-- The key to store: that of the requester, or a copy. -/
def ownKey (k : KeyHandle) (copyKey : Bool) : Program KeyHandle :=
  if copyKey then perform (.copyKey k.key) else return k

/-- Allocates a descriptor for a key and makes it pending. -/
def start (k : KeyHandle) (copyKey : Bool) : Program Construction := do
  let k ← ownKey k copyKey
  let m ← perform (.allocate (.ofKey k))
  perform (.addPending k.key m)
  return ⟨k, m⟩

end Construction

end Monomorph
