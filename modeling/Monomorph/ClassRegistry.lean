import Monomorph.Error
import Monomorph.Table

/-!
Realization of generic classes. The registry checks an instantiation and gives out one class for
each definition and argument list; an instantiation that is rejected leaves it as it was.
-/

namespace Monomorph

/-- Whether an argument is a value type; unknown for a parameter, which a later instantiation
replaces. References and pointers are no arguments at all. -/
inductive ArgumentKind where
  | value
  | reference
  | parameter
  | notAllowed
  deriving DecidableEq

def TypeExpr.argumentKind : TypeExpr → ArgumentKind
  | .named c => if c.isValueType then .value else .reference
  | .generic c _ => if c.isValueType then .value else .reference
  | .array _ => .reference
  | .classVar _ => .parameter
  | .methodVar _ => .parameter
  | .byRef _ => .notAllowed
  | .pointer _ => .notAllowed

/-- Checks one argument against the parameter it is put in for. -/
def GenericParam.check (p : GenericParam) (owner : RuntimeClass) (e : TypeExpr) :
    Except Rejection Unit :=
  match e.argumentKind with
  | .notAllowed => .error (.notAnArgument e owner p)
  | .reference =>
    if p.flags.contains .structConstraint then .error (.structConstraint e owner p) else .ok ()
  | .value =>
    if p.flags.contains .classConstraint then .error (.classConstraint e owner p) else .ok ()
  | .parameter => .ok ()

/-- Checks arguments one after another; the first that does not fit decides. -/
def checkEach (owner : RuntimeClass) : List GenericParam → List TypeExpr → Except Rejection Unit
  | p :: ps, e :: es => do
    p.check owner e
    checkEach owner ps es
  | _, _ => .ok ()

/-- Checks an instantiation: the class is generic, the number of arguments is right, and each
argument satisfies its parameter. -/
def RuntimeClass.checkArgs (c : RuntimeClass) (as : TypeArgs) : Except Rejection Unit :=
  if !c.isGenericDefinition then .error (.classNotGeneric c)
  else if c.params.length != as.length then .error (.classArgCount c as.length)
  else checkEach c c.params as.toList

/-- An instantiation of a class. -/
structure ClassKey where
  origin : RuntimeClass
  args : TypeArgs
  deriving DecidableEq

structure ClassRegistry where
  classes : Table ClassKey RuntimeClass := {}

namespace ClassRegistry

instance : Inhabited ClassRegistry := ⟨{}⟩

def get? (r : ClassRegistry) (c : RuntimeClass) (as : TypeArgs) : Option RuntimeClass :=
  r.classes.find? ⟨c, as⟩

def size (r : ClassRegistry) : Nat := r.classes.size

def isEmpty (r : ClassRegistry) : Bool := r.classes.isEmpty

def clear (_ : ClassRegistry) : ClassRegistry := {}

/-- An accepted instantiation: its class, the registry that holds it, and whether the class was
made now. -/
structure Realized where
  result : RuntimeClass
  registry : ClassRegistry
  isNew : Bool

/-- The class of an instantiation. A class that is made now gets the serial number `serial`. -/
def realize (r : ClassRegistry) (serial : Nat) (c : RuntimeClass) (as : TypeArgs) :
    Except Rejection Realized := do
  c.checkArgs as
  match r.get? c as with
  | some k => return ⟨k, r, false⟩
  | none =>
    let k := RuntimeClass.realized serial c as
    return ⟨k, ⟨r.classes.insert ⟨c, as⟩ k⟩, true⟩

end ClassRegistry

end Monomorph
