import Monomorph.Digest

/-!
Classes and type expressions. A class is a definition or a realized instance of one; a type
expression is a type as a signature writes it, so it may mention the parameters of the declaring
class (`!n`) or of the method (`!!n`).

Definitions and realized classes carry a serial number given out when they are made. Two classes
that agree in everything else are still different classes, and equality of values is identity.

Instances share the classes they are made of, so a class is much smaller in memory than written
out in full. Its digest and its depth are therefore worked out once, when it is made.
-/

namespace Monomorph

/-- Variance and special constraints of a generic parameter. -/
structure ParamFlags where
  bits : UInt16 := 0
  deriving DecidableEq, Inhabited

namespace ParamFlags

def covariant : ParamFlags := ⟨0x0001⟩

def contravariant : ParamFlags := ⟨0x0002⟩

/-- The argument must be a reference type. -/
def classConstraint : ParamFlags := ⟨0x0004⟩

/-- The argument must be a value type. -/
def structConstraint : ParamFlags := ⟨0x0008⟩

/-- The argument must have a public default constructor. -/
def constructorConstraint : ParamFlags := ⟨0x0010⟩

/-- Drops the bits without a meaning. -/
def truncate (bits : UInt16) : ParamFlags := ⟨bits &&& 0x001f⟩

def contains (f g : ParamFlags) : Bool := f.bits &&& g.bits == g.bits

/-- The flags in order of their bits, with the names of the metadata format. -/
def named : List (ParamFlags × String) :=
  [(covariant, "COVARIANT"), (contravariant, "CONTRAVARIANT"),
    (classConstraint, "REFERENCE_TYPE_CONSTRAINT"),
    (structConstraint, "NOT_NULLABLE_VALUE_TYPE_CONSTRAINT"),
    (constructorConstraint, "DEFAULT_CONSTRUCTOR_CONSTRAINT")]

def names (f : ParamFlags) : List String :=
  (named.filter fun g => f.contains g.1).map Prod.snd

end ParamFlags

/-- A generic parameter of a class or a method. -/
structure GenericParam where
  name : String
  number : UInt16
  flags : ParamFlags := {}
  deriving DecidableEq, Inhabited

/-- Handle of the parameter list that a definition owns. -/
structure ContainerHandle where
  row : UInt32
  deriving DecidableEq

/-- A loaded image, as the definitions that came from it refer to it. -/
structure ImageHandle where
  serial : Nat
  name : String
  deriving DecidableEq, Inhabited

/-- A type definition of the metadata. It is generic if it declares parameters. -/
structure TypeDef where
  serial : Nat
  token : Token
  space : String := ""
  name : String
  flags : UInt32 := 0
  isValueType : Bool := false
  params : List GenericParam := []
  container : Option ContainerHandle := none
  image : Option ImageHandle := none
  deriving DecidableEq, Inhabited

mutual

/-- A class of the runtime. -/
inductive RuntimeClass where
  | definition (d : TypeDef)
  /-- An instance of `origin` for given arguments. -/
  | realized (serial : Nat) (origin : RuntimeClass) (args : TypeArgs)
with
  /-- A realized class has the digest of its origin and its arguments, whatever its number. -/
  @[computed_field] digest : RuntimeClass → UInt64
    | .definition d => ((Digest.start.token d.token).fullName d.space d.name).value
    | .realized _ c as => ((Digest.start.word c.digest).word (Digest.ofList as.digests)).value
  /-- A realized class nests as deeply as the instantiation it came from. -/
  @[computed_field] depth : RuntimeClass → Nat
    | .definition _ => 0
    | .realized _ _ as => 1 + as.maxDepth

/-- A type as it is written in a signature. -/
inductive TypeExpr where
  | named (c : RuntimeClass)
  | classVar (n : UInt16)
  | methodVar (n : UInt16)
  /-- An instance of `origin` that has not been realized. -/
  | generic (origin : RuntimeClass) (args : TypeArgs)
  | array (e : TypeExpr)
  | byRef (e : TypeExpr)
  | pointer (e : TypeExpr)
with
  /-- The digest begins with a mark for the form of the expression. -/
  @[computed_field] digest : TypeExpr → UInt64
    | .named c => ((Digest.start.byte 0).word c.digest).value
    | .classVar n => ((Digest.start.byte 1).short n).value
    | .methodVar n => ((Digest.start.byte 2).short n).value
    | .generic c as =>
      (((Digest.start.byte 3).word c.digest).word (Digest.ofList as.digests)).value
    | .array e => ((Digest.start.byte 4).word e.digest).value
    | .byRef e => ((Digest.start.byte 5).word e.digest).value
    | .pointer e => ((Digest.start.byte 6).word e.digest).value
  /-- How many levels of instantiation are nested. Arrays, references and pointers add none. -/
  @[computed_field] depth : TypeExpr → Nat
    | .named c => c.depth
    | .classVar _ => 0
    | .methodVar _ => 0
    | .generic _ as => 1 + as.maxDepth
    | .array e => e.depth
    | .byRef e => e.depth
    | .pointer e => e.depth

/-- A list of type arguments. -/
inductive TypeArgs where
  | nil
  | cons (e : TypeExpr) (rest : TypeArgs)
with
  /-- The digests of the arguments. -/
  @[computed_field] digests : TypeArgs → List UInt64
    | .nil => []
    | .cons e as => e.digest :: as.digests
  /-- The depth of the deepest argument. -/
  @[computed_field] maxDepth : TypeArgs → Nat
    | .nil => 0
    | .cons e as => max e.depth as.maxDepth

end

instance : Inhabited RuntimeClass := ⟨.definition default⟩
instance : Inhabited TypeExpr := ⟨.classVar 0⟩
instance : Inhabited TypeArgs := ⟨.nil⟩

namespace RuntimeClass

/-- The number given to the class when it was made. -/
def serial : RuntimeClass → Nat
  | definition d => d.serial
  | realized n _ _ => n

/-- The definition that a class goes back to. -/
def base : RuntimeClass → TypeDef
  | definition d => d
  | realized _ c _ => c.base

def token (c : RuntimeClass) : Token := c.base.token

def space (c : RuntimeClass) : String := c.base.space

def name (c : RuntimeClass) : String := c.base.name

def flags (c : RuntimeClass) : UInt32 := c.base.flags

/-- The instances of a class are value types if those of its definition are. -/
def isValueType (c : RuntimeClass) : Bool := c.base.isValueType

def image (c : RuntimeClass) : Option ImageHandle := c.base.image

/-- The open parameters: those of a definition, none for an instance. -/
def params : RuntimeClass → List GenericParam
  | definition d => d.params
  | realized _ _ _ => []

def container : RuntimeClass → Option ContainerHandle
  | definition d => d.container
  | realized _ _ _ => none

/-- The class and the arguments from which an instance was realized. -/
def instance? : RuntimeClass → Option (RuntimeClass × TypeArgs)
  | definition _ => none
  | realized _ c args => some (c, args)

def isInstance (c : RuntimeClass) : Bool := c.instance?.isSome

def isGenericDefinition : RuntimeClass → Bool
  | definition d => !d.params.isEmpty
  | realized _ _ _ => false

/-- The name after its namespace, or alone in the global namespace. -/
def qualifiedName (c : RuntimeClass) : String :=
  if c.space.isEmpty then c.name else c.space ++ "." ++ c.name

end RuntimeClass

namespace TypeArgs

def toList : TypeArgs → List TypeExpr
  | nil => []
  | cons e as => e :: as.toList

def ofList : List TypeExpr → TypeArgs
  | [] => nil
  | e :: es => cons e (ofList es)

def length : TypeArgs → Nat
  | nil => 0
  | cons _ as => as.length + 1

def isEmpty : TypeArgs → Bool
  | nil => true
  | cons _ _ => false

def get? : TypeArgs → Nat → Option TypeExpr
  | nil, _ => none
  | cons e _, 0 => some e
  | cons _ as, n + 1 => as.get? n

/-- Induction along a list. It leaves the arguments themselves alone. -/
@[induction_eliminator] theorem induct {motive : TypeArgs → Prop} (nil : motive nil)
    (cons : ∀ e as, motive as → motive (cons e as)) : ∀ as, motive as
  | .nil => nil
  | .cons e as => cons e as (induct nil cons as)

@[simp] theorem toList_ofList (es : List TypeExpr) : (ofList es).toList = es := by
  induction es with
  | nil => rfl
  | cons e es ih => simp [ofList, toList, ih]

@[simp] theorem ofList_toList (as : TypeArgs) : ofList as.toList = as := by
  induction as with
  | nil => rfl
  | cons e as ih => simp [ofList, toList, ih]

@[simp] theorem length_toList (as : TypeArgs) : as.toList.length = as.length := by
  induction as with
  | nil => rfl
  | cons e as ih => simp [toList, length, ih]

theorem get?_eq_getElem? (as : TypeArgs) (n : Nat) : as.get? n = as.toList[n]? := by
  induction as generalizing n with
  | nil => simp [get?, toList]
  | cons e as ih => cases n <;> simp [get?, toList, ih]

theorem digests_eq_map (as : TypeArgs) : as.digests = as.toList.map TypeExpr.digest := by
  induction as with
  | nil => rfl
  | cons e as ih => simp [digests, toList, ih]

end TypeArgs

/-- The arguments of an instantiation: those of the declaring class and those of the method.
Either list may be absent, which differs from an empty list. -/
structure Context where
  classArgs : Option TypeArgs := none
  methodArgs : Option TypeArgs := none
  deriving Inhabited

namespace Context

def empty : Context := {}

def isEmpty (c : Context) : Bool := c.classArgs.isNone && c.methodArgs.isNone

end Context

namespace TypeExpr

/-- The class that an expression names outright. -/
def asClass : TypeExpr → Option RuntimeClass
  | named c => some c
  | _ => none

end TypeExpr

end Monomorph
