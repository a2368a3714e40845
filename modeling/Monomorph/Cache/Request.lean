import Monomorph.Cache.Construction
import Monomorph.Cache.Policy

/-!
Requests for instances. A request looks for a complete instance first; only when there is none does
it check the key, take the lock, look again, and build.
-/

namespace Monomorph

/-- A key with method arguments is valid if its method declares as many parameters, and at least
one. -/
def MethodKey.validate (k : MethodKey) : Except Rejection Unit :=
  match k.context.methodArgs with
  | none => .ok ()
  | some as =>
    if !k.definition.isGeneric then .error (.methodNotGeneric k.definition as.length)
    else if k.definition.params.length != as.length then
      .error (.methodArgCount k.definition as.length)
    else .ok ()

inductive Request where
  | instantiate (k : KeyHandle)
  /-- The caller itself noticed that the key would nest too deeply. -/
  | tooDeeplyNested

/-- A method in a slot of a vtable: a definition, or an instance of a generic class's method. -/
inductive SlotMethod where
  | definition (m : MethodDef)
  | descriptor (d : Descriptor)

namespace SlotMethod

/-- The definition and the class arguments that a slot stands for. -/
def target (v : SlotMethod) : Except Error (MethodDef × Option TypeArgs) :=
  match v with
  | definition m => .ok (m, none)
  | descriptor d =>
    match d.key with
    | some k => .ok (k.key.definition, k.key.context.classArgs)
    | none => .error (.notAnInstance d.token)

end SlotMethod

/-- The key of a virtual call: the method of the slot with its class arguments, and the method
arguments of the method that was called. -/
def virtualKey (v : SlotMethod) (called : Descriptor) : Except Error MethodKey := do
  let (m, classArgs) ← v.target
  match called.context with
  | some c => return ⟨m, ⟨classArgs, c.methodArgs⟩⟩
  | none => throw (.notAnInstance called.token)

/-- The part of a cache that never changes. -/
structure Engine where
  policy : Policy := {}
  names : NameFormatter := .fullNames

namespace Engine

open Program

/-- Looks again and builds, between taking the lock and giving it back. -/
def constructLocked (g : Engine) (k : KeyHandle) (copyKey : Bool) :
    Program MethodResult := do
  match ← perform (.findMethod k.key) with
  | some m =>
    perform (.record .recheckHit)
    return .ok m
  | none =>
    match ← perform (.findPending k.key) with
    | some m =>
      perform (.record .recursionHit)
      perform (.emit .pendingReturned)
      return .ok m
    | none =>
      let c ← Construction.start k copyKey
      c.run g.names

def construct (g : Engine) (k : KeyHandle) (copyKey : Bool) :
    Program MethodResult := do
  perform .acquire
  let r ← g.constructLocked k copyKey
  perform .release
  return r

def validate (g : Engine) (k : MethodKey) : Except Rejection Unit :=
  if g.policy.validateKeys then k.validate else .ok ()

/-- Serves a request without a look at the nesting limit. -/
def request (g : Engine) (r : Request) (copyKey : Bool) : Program MethodResult :=
  match r with
  | .tooDeeplyNested => do
    perform (.record .degenerate)
    return .ok (← perform (.allocate .placeholder))
  | .instantiate k => do
    match ← perform (.findMethod k.key) with
    | some m =>
      perform (.record .fastHit)
      perform (.emit (.cacheHit k.key.definition.token))
      return .ok m
    | none =>
      match g.validate k.key with
      | .error e => return .error (.invalid e)
      | .ok _ => g.construct k copyKey

/-- The instance of a key, or the placeholder if the key nests too deeply. -/
def get (g : Engine) (k : KeyHandle) (copyKey : Bool) : Program MethodResult := do
  if g.policy.exceeds k.key.depth then
    perform (.emit (.nestingLimitExceeded g.names k.key g.policy.maxNesting))
    g.request .tooDeeplyNested copyKey
  else
    g.request (.instantiate k) copyKey

/-- The instance that a virtual call reaches. -/
def virtualTarget (g : Engine) (v : SlotMethod) (called : Descriptor) :
    Program MethodResult :=
  match virtualKey v called with
  | .error e => return .error e
  | .ok k => do
    let k ← perform (.copyKey k)
    g.get k false

end Engine

end Monomorph
