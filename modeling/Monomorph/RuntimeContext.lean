import Monomorph.Method.Key
import Monomorph.Signature.Inflation
import Monomorph.Table

/-!
Runtime context data. An image lays out, for each of its generic methods, the types, classes and
callees that the body needs at run time, written with the parameters of the method. The data of an
instance is that layout, inflated by the context of the instance.
-/

namespace Monomorph

/-- A slot of a layout. -/
inductive ContextSlot where
  | typeHandle (e : TypeExpr)
  /-- A class that must be initialized. -/
  | classHandle (e : TypeExpr)
  /-- A generic method that the body calls. -/
  | callee (m : MethodDef) (c : Context)
  deriving DecidableEq

/-- An inflated slot. -/
inductive ContextEntry where
  | typeHandle (e : TypeExpr)
  | classHandle (e : TypeExpr)
  | callee (k : MethodKey)
  deriving DecidableEq

/-- The data of one instance, in the order of the layout. -/
abbrev ContextData := List ContextEntry

/-- The layouts of an image, by the token of the method. -/
structure Layouts where
  slots : Table Token (List ContextSlot) := {}

namespace Layouts

instance : Inhabited Layouts := ⟨{}⟩

def layout? (l : Layouts) (t : Token) : Option (List ContextSlot) := l.slots.find? t

/-- Appends a slot to the layout of a method, which begins empty. -/
def add (l : Layouts) (t : Token) (s : ContextSlot) : Layouts :=
  ⟨l.slots.insert t ((l.layout? t).getD [] ++ [s])⟩

end Layouts

namespace ContextSlot

def inflate (c : Context) : ContextSlot → ContextEntry
  | typeHandle e => .typeHandle (e.inflate c)
  | classHandle e => .classHandle (e.inflate c)
  | callee m d => .callee ⟨m, d.inflate c⟩

end ContextSlot

/-- The data of the method `t` for a context, if the image lays out the method. -/
def Layouts.resolve (l : Layouts) (t : Token) (c : Context) : Option ContextData :=
  (l.layout? t).map fun slots => slots.map (·.inflate c)

end Monomorph
