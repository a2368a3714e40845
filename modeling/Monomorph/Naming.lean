import Monomorph.Method.Key

/-!
Full names, for messages. Unlike the short text, a full name shows the arguments of a realized
class. How classes, expressions and methods are named is up to a `NameFormatter`; `fullNames` is
the usual one.
-/

namespace Monomorph

structure NameFormatter where
  className : RuntimeClass → String
  typeName : TypeExpr → String
  methodName : MethodDef → String

/-- Puts the names of arguments between angle brackets. -/
def bracketed (names : List String) : String := "<" ++ ", ".intercalate names ++ ">"

mutual

def RuntimeClass.fullName : RuntimeClass → String
  | .definition d => (RuntimeClass.definition d).qualifiedName
  | .realized n c as => (RuntimeClass.realized n c as).qualifiedName ++ bracketed as.fullNames

def TypeExpr.fullName : TypeExpr → String
  | .named c => c.fullName
  | .classVar n => "!" ++ toString n.toNat
  | .methodVar n => "!!" ++ toString n.toNat
  | .generic c as => c.qualifiedName ++ bracketed as.fullNames
  | .array e => e.fullName ++ "[]"
  | .byRef e => e.fullName ++ "&"
  | .pointer e => e.fullName ++ "*"

def TypeArgs.fullNames : TypeArgs → List String
  | .nil => []
  | .cons e as => e.fullName :: as.fullNames

end

namespace NameFormatter

def fullNames : NameFormatter where
  className := RuntimeClass.fullName
  typeName := TypeExpr.fullName
  methodName := MethodDef.name

/-- Names an argument list. An absent list has no text, a present one always has brackets. -/
def argsName (f : NameFormatter) : Option TypeArgs → String
  | none => ""
  | some as => bracketed (as.toList.map f.typeName)

/-- Names a key: the declaring class as defined, then the arguments of the key. -/
def keyName (f : NameFormatter) (k : MethodKey) : String :=
  f.className k.definition.owner ++ f.argsName k.context.classArgs ++ "::" ++
    f.methodName k.definition ++ f.argsName k.context.methodArgs

end NameFormatter

end Monomorph
