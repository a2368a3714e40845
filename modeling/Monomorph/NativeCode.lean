import Monomorph.Method.Dispatch
import Monomorph.Method.Key
import Monomorph.Table

/-!
Tables of compiled code. Code is registered for one instantiation of a method, or for all of them
together; the latter is used where nothing was registered for the instantiation and the caller
accepts shared code.
-/

namespace Monomorph

/-- The compiled entries of a method body. -/
structure MethodCode where
  body : MethodPointer
  /-- Adjusts a boxed `this` before it enters the body. -/
  thunk : Option MethodPointer := none
  deriving DecidableEq

/-- The thunk, if it is preferred and there is one, and otherwise the body. -/
def MethodCode.select (c : MethodCode) (preferDirect : Bool) : MethodPointer :=
  if preferDirect then c.thunk.getD c.body else c.body

/-- One instantiation of the method with a given token. -/
structure CodeKey where
  token : Token
  context : Context
  deriving DecidableEq

structure NativeCode where
  instances : Table CodeKey MethodCode := {}
  shared : Table Token MethodCode := {}
  invokers : Table Token InvokerPointer := {}

namespace NativeCode

instance : Inhabited NativeCode := ⟨{}⟩

def addInstance (n : NativeCode) (t : Token) (c : Context) (code : MethodCode) : NativeCode :=
  { n with instances := n.instances.insert ⟨t, c⟩ code }

def addShared (n : NativeCode) (t : Token) (code : MethodCode) : NativeCode :=
  { n with shared := n.shared.insert t code }

def addInvoker (n : NativeCode) (t : Token) (p : InvokerPointer) : NativeCode :=
  { n with invokers := n.invokers.insert t p }

/-- The code for an instantiation: its own, or else the shared code if that is accepted. -/
def code? (n : NativeCode) (t : Token) (c : Context) (allowSharing : Bool) : Option MethodCode :=
  match n.instances.find? ⟨t, c⟩ with
  | some code => some code
  | none => if allowSharing then n.shared.find? t else none

def methodPointer (n : NativeCode) (t : Token) (c : Context) (preferDirect allowSharing : Bool) :
    Option MethodPointer :=
  (n.code? t c allowSharing).map (·.select preferDirect)

def invoker (n : NativeCode) (t : Token) : Option InvokerPointer := n.invokers.find? t

end NativeCode

end Monomorph
