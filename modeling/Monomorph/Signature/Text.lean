import Monomorph.Signature.Basic

/-!
The short text of type expressions. A class is written by its qualified name alone, so the
arguments of a realized class do not show.
-/

namespace Monomorph

mutual

def TypeExpr.text : TypeExpr → String
  | .named c => c.qualifiedName
  | .classVar n => "!" ++ toString n.toNat
  | .methodVar n => "!!" ++ toString n.toNat
  | .generic c as => c.qualifiedName ++ as.text
  | .array e => e.text ++ "[]"
  | .byRef e => e.text ++ "&"
  | .pointer e => e.text ++ "*"

/-- The arguments between angle brackets. -/
def TypeArgs.text : TypeArgs → String
  | .nil => "<>"
  | .cons e as => "<" ++ e.text ++ as.restText

/-- What follows the first argument. -/
def TypeArgs.restText : TypeArgs → String
  | .nil => ">"
  | .cons e as => ", " ++ e.text ++ as.restText

end

end Monomorph
