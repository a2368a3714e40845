import Monomorph.Method.Definition
import Monomorph.Signature.Text

/-!
What can go wrong, and the message for each cause.
-/

namespace Monomorph

/-- Why an instantiation is not valid. -/
inductive Rejection where
  /-- The class declares no parameters, or is an instance already. -/
  | classNotGeneric (c : RuntimeClass)
  | classArgCount (c : RuntimeClass) (given : Nat)
  /-- References and pointers are no arguments. -/
  | notAnArgument (e : TypeExpr) (owner : RuntimeClass) (p : GenericParam)
  | structConstraint (e : TypeExpr) (owner : RuntimeClass) (p : GenericParam)
  | classConstraint (e : TypeExpr) (owner : RuntimeClass) (p : GenericParam)
  | methodNotGeneric (m : MethodDef) (given : Nat)
  | methodArgCount (m : MethodDef) (given : Nat)
  deriving DecidableEq

namespace Rejection

/-- A parameter after the class that declares it. -/
def paramName (owner : RuntimeClass) (p : GenericParam) : String :=
  owner.qualifiedName ++ "." ++ p.name

def message : Rejection → String
  | classNotGeneric c => c.qualifiedName ++ " is not a generic type definition"
  | classArgCount c given =>
    c.qualifiedName ++ " expects " ++ toString c.params.length ++ " generic arguments, got " ++
      toString given
  | notAnArgument e owner p =>
    e.text ++ " is not a valid generic argument for " ++ paramName owner p
  | structConstraint e owner p =>
    e.text ++ " violates the struct constraint of " ++ paramName owner p
  | classConstraint e owner p =>
    e.text ++ " violates the class constraint of " ++ paramName owner p
  | methodNotGeneric m given =>
    m.qualifiedName ++ " is not a generic method but was given " ++ toString given ++
      " method arguments"
  | methodArgCount m given =>
    m.qualifiedName ++ " expects " ++ toString m.params.length ++ " method arguments, got " ++
      toString given

end Rejection

inductive Error where
  /-- The declaring class of the named instance could not be realized. -/
  | unresolvable (method : String) (source : Error)
  | invalid (r : Rejection)
  /-- A method without arguments of its own stands where an instance is needed. -/
  | notAnInstance (t : Token)
  | nestingTooDeep
  /-- The method has no code. -/
  | missingPointer (t : Token)
  /-- The descriptor has been completed before. -/
  | alreadyRealized (t : Token)
  deriving DecidableEq, Inhabited

namespace Error

/-- Stands where a message names a place in the program text. -/
def place : String := "FILE:LINE"

def message : Error → String
  | unresolvable method source =>
    "Unable to realize the declaring type of " ++ method ++ " - " ++ source.message
  | invalid r => "Invalid instantiation - " ++ place ++ ": " ++ r.message
  | notAnInstance t => "Method " ++ t.text ++ " is not a generic method instance"
  | nestingTooDeep => "A generic method which is too deeply nested was invoked"
  | missingPointer t => "No method pointer is available for method " ++ t.text
  | alreadyRealized t => "Method " ++ t.text ++ " has already been realized"

end Error

end Monomorph
