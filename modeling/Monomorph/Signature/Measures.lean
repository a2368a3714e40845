import Monomorph.Signature.Basic

/-!
Whether type expressions are open, that is, mention a parameter, and the depth of argument lists
and contexts. A realized class adds to the depth, but it is never open: openness does not look
inside it.
-/

namespace Monomorph

mutual

def TypeExpr.isOpen : TypeExpr → Bool
  | .named _ => false
  | .classVar _ => true
  | .methodVar _ => true
  | .generic _ as => as.isOpen
  | .array e => e.isOpen
  | .byRef e => e.isOpen
  | .pointer e => e.isOpen

/-- Some argument is open. -/
def TypeArgs.isOpen : TypeArgs → Bool
  | .nil => false
  | .cons e as => e.isOpen || as.isOpen

end

/-- A list is one level above its deepest argument, an empty list too. -/
def TypeArgs.depth (as : TypeArgs) : Nat := 1 + as.maxDepth

/-- The depth of the deeper list; an absent list has none. -/
def Context.depth (c : Context) : Nat :=
  max ((c.classArgs.map TypeArgs.depth).getD 0) ((c.methodArgs.map TypeArgs.depth).getD 0)

theorem TypeArgs.isOpen_eq_any (as : TypeArgs) : as.isOpen = as.toList.any TypeExpr.isOpen := by
  induction as with
  | nil => rfl
  | cons e as ih => simp [TypeArgs.isOpen, TypeArgs.toList, ih]

end Monomorph
