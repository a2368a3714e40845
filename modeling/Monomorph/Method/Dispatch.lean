import Monomorph.Text.Spelling

/-!
Entry points. A method has up to three code addresses: the primary one for native callers and
vtables, one for direct calls from interpreted code, and one for calls of interpreted code through
a vtable. They differ for instance methods of value types, whose code expects an unboxed `this`
where a vtable call passes a boxed one. `Dispatch` says which shape a method has, and the three
addresses follow from the shape.
-/

namespace Monomorph

/-- The address of callable code; there is none at zero. -/
structure MethodPointer where
  address : UInt64
  address_ne_zero : address ≠ 0
  deriving DecidableEq

/-- The address of a stub through which reflection invokes a method. -/
structure InvokerPointer where
  address : UInt64
  address_ne_zero : address ≠ 0
  deriving DecidableEq

namespace MethodPointer

def ofAddress? (a : UInt64) : Option MethodPointer :=
  if h : a ≠ 0 then some ⟨a, h⟩ else none

def text (p : MethodPointer) : String := "0x" ++ Text.hex p.address.toNat

def record (p : MethodPointer) : String := "MethodPointer(" ++ p.text ++ ")"

end MethodPointer

namespace InvokerPointer

def ofAddress? (a : UInt64) : Option InvokerPointer :=
  if h : a ≠ 0 then some ⟨a, h⟩ else none

def text (p : InvokerPointer) : String := "0x" ++ Text.hex p.address.toNat

def record (p : InvokerPointer) : String := "InvokerPointer(" ++ p.text ++ ")"

end InvokerPointer

/-- The shape of a dispatch without its addresses. -/
inductive DispatchKind where
  | nativeDirect
  | interpretedDirect
  | interpretedViaThunk
  | unresolved
  | nestingTooDeep
  deriving DecidableEq, Inhabited

namespace DispatchKind

def all : List DispatchKind :=
  [nativeDirect, interpretedDirect, interpretedViaThunk, unresolved, nestingTooDeep]

def text : DispatchKind → String
  | nativeDirect => "NativeDirect"
  | interpretedDirect => "InterpretedDirect"
  | interpretedViaThunk => "InterpretedViaThunk"
  | unresolved => "Unresolved"
  | nestingTooDeep => "NestingTooDeep"

end DispatchKind

inductive Dispatch where
  /-- Native code, with the entry for interpreted callers, which may be missing. -/
  | nativeDirect (method : MethodPointer) (callByInterp : Option MethodPointer)
  /-- One interpreter entry for all callers, if the interpreter gave one. -/
  | interpretedDirect (entry : Option MethodPointer)
  /-- An interpreter entry that expects an unboxed `this`, and the thunk that unboxes it for
  vtable calls. -/
  | interpretedViaThunk (entry thunk : Option MethodPointer)
  /-- No code. -/
  | unresolved
  /-- Stands in for an instantiation beyond the nesting limit. -/
  | nestingTooDeep
  deriving DecidableEq, Inhabited

namespace Dispatch

def kind : Dispatch → DispatchKind
  | nativeDirect _ _ => .nativeDirect
  | interpretedDirect _ => .interpretedDirect
  | interpretedViaThunk _ _ => .interpretedViaThunk
  | unresolved => .unresolved
  | nestingTooDeep => .nestingTooDeep

/-- The entry for native callers and vtables. -/
def methodPointer : Dispatch → Option MethodPointer
  | nativeDirect method _ => some method
  | interpretedDirect entry => entry
  | interpretedViaThunk _ thunk => thunk
  | unresolved => none
  | nestingTooDeep => none

/-- The entry for direct calls from interpreted code. -/
def callByInterp : Dispatch → Option MethodPointer
  | nativeDirect _ p => p
  | interpretedDirect entry => entry
  | interpretedViaThunk entry _ => entry
  | unresolved => none
  | nestingTooDeep => none

/-- The entry for calls of interpreted code through a vtable, which passes what native callers
pass. -/
def virtualCallByInterp (d : Dispatch) : Option MethodPointer := d.methodPointer

/-- The interpreter implements the method, with or without an entry. -/
def isInterpreted : Dispatch → Bool
  | interpretedDirect _ => true
  | interpretedViaThunk _ _ => true
  | _ => false

/-- The entries for interpreted callers have been set up. -/
def isCallableByInterp : Dispatch → Bool
  | unresolved => false
  | nestingTooDeep => false
  | _ => true

def text (d : Dispatch) : String := d.kind.text

/-- A field that holds an address that may be missing. -/
def pointerField (name : String) (p : Option MethodPointer) : String :=
  Text.field name (Text.optional (p.map MethodPointer.record))

/-- The shape with its addresses. -/
def record (d : Dispatch) : String :=
  match d with
  | nativeDirect method byInterp =>
    Text.record d.text [Text.field "method" method.record, pointerField "call_by_interp" byInterp]
  | interpretedDirect entry => Text.record d.text [pointerField "entry" entry]
  | interpretedViaThunk entry thunk =>
    Text.record d.text [pointerField "entry" entry, pointerField "thunk" thunk]
  | unresolved => d.text
  | nestingTooDeep => d.text

end Dispatch

end Monomorph
