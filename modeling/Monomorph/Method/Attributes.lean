/-!
Attributes of a method: the access level in the low three bits, and the modifiers.
-/

namespace Monomorph

/-- The raw attributes of a method. -/
structure MethodFlags where
  bits : UInt32
  deriving DecidableEq, Inhabited

/-- Who may refer to a method. -/
structure Access where
  bits : UInt32
  deriving DecidableEq

namespace Access

/-- Everyone. -/
def everyone : Access := ⟨0x0006⟩

end Access

/-- A set of modifiers. -/
structure Modifiers where
  bits : UInt32
  deriving DecidableEq

namespace Modifiers

/-- No `this` argument. -/
def static : Modifiers := ⟨0x0010⟩

/-- Cannot be overridden. -/
def final : Modifiers := ⟨0x0020⟩

/-- Occupies a slot of the vtable. -/
def virtual : Modifiers := ⟨0x0040⟩

/-- Has no body. -/
def abstract : Modifiers := ⟨0x0400⟩

def contains (m n : Modifiers) : Bool := m.bits &&& n.bits == n.bits

/-- The modifiers in order of their bits, with the names of the metadata format. -/
def named : List (Modifiers × String) :=
  [(static, "STATIC"), (final, "FINAL"), (virtual, "VIRTUAL"), (abstract, "ABSTRACT")]

def names (m : Modifiers) : List String := (named.filter fun n => m.contains n.1).map Prod.snd

end Modifiers

namespace MethodFlags

def access (f : MethodFlags) : Access := ⟨f.bits &&& 0x0007⟩

/-- The modifiers among the attributes; every other bit is ignored. -/
def modifiers (f : MethodFlags) : Modifiers := ⟨f.bits &&& 0x0470⟩

def isPublic (f : MethodFlags) : Bool := f.access == Access.everyone

def isStatic (f : MethodFlags) : Bool := f.modifiers.contains Modifiers.static

end MethodFlags

end Monomorph
