import Monomorph.Method.Attributes
import Monomorph.Signature.Identity
import Monomorph.Signature.Inflation

/-!
Method definitions, as the metadata describes them. A definition carries a serial number, so that
two definitions with the same contents are still two.
-/

namespace Monomorph

/-- A parameter of a method signature. -/
structure Parameter where
  name : String
  position : UInt16
  token : Token := {}
  type : TypeExpr
  deriving DecidableEq, Inhabited

/-- Inflates the type and keeps the rest. -/
def Parameter.inflate (p : Parameter) (c : Context) : Parameter :=
  { p with type := p.type.inflate c }

/-- Handle of the metadata record behind a method definition. -/
structure MetadataHandle where
  row : UInt32
  deriving DecidableEq

/-- The slot of a method that occupies none. -/
def noSlot : UInt16 := 0xffff

structure MethodDef where
  serial : Nat
  token : Token
  name : String
  /-- The class that declares the method; open for the methods of a generic class. -/
  owner : RuntimeClass
  flags : MethodFlags := ⟨0x0006⟩
  implFlags : UInt32 := 0
  slot : UInt16 := noSlot
  /-- Absent if the method returns nothing. -/
  returnType : Option TypeExpr := none
  parameters : List Parameter := []
  params : List GenericParam := []
  container : Option ContainerHandle := none
  metadata : Option MetadataHandle := none
  deriving DecidableEq, Inhabited

namespace MethodDef

/-- The method declares parameters of its own. -/
def isGeneric (m : MethodDef) : Bool := !m.params.isEmpty

/-- The method takes a `this` argument. -/
def isInstance (m : MethodDef) : Bool := !m.flags.isStatic

/-- The image that the declaring class came from. -/
def image (m : MethodDef) : Option ImageHandle := m.owner.image

/-- The name after the name of the declaring class. -/
def qualifiedName (m : MethodDef) : String := m.owner.qualifiedName ++ "::" ++ m.name

end MethodDef

end Monomorph
