import Monomorph.Signature.Measures

/-!
Inflation replaces the parameters in a type expression by the arguments of a context. A parameter
for which the context has no argument stays, arguments are put in as they are, and whatever is not
open is handed back untouched.
-/

namespace Monomorph

namespace Context

/-- The argument for the `n`-th parameter of the declaring class. -/
def classArg? (c : Context) (n : UInt16) : Option TypeExpr :=
  c.classArgs.bind fun as => as.get? n.toNat

/-- The argument for the `n`-th parameter of the method. -/
def methodArg? (c : Context) (n : UInt16) : Option TypeExpr :=
  c.methodArgs.bind fun as => as.get? n.toNat

end Context

mutual

/-- Rebuilds an expression around the arguments put into it. -/
def TypeExpr.inflateOpen (c : Context) : TypeExpr → TypeExpr
  | .named k => .named k
  | .classVar n => (c.classArg? n).getD (.classVar n)
  | .methodVar n => (c.methodArg? n).getD (.methodVar n)
  | .generic k as => .generic k (if as.isOpen then as.inflateEach c else as)
  | .array e => .array (e.inflateOpen c)
  | .byRef e => .byRef (e.inflateOpen c)
  | .pointer e => .pointer (e.inflateOpen c)

def TypeArgs.inflateEach (c : Context) : TypeArgs → TypeArgs
  | .nil => .nil
  | .cons e as => .cons (e.inflateOpen c) (as.inflateEach c)

end

def TypeExpr.inflate (e : TypeExpr) (c : Context) : TypeExpr :=
  if e.isOpen then e.inflateOpen c else e

def TypeArgs.inflate (as : TypeArgs) (c : Context) : TypeArgs :=
  if as.isOpen then as.inflateEach c else as

/-- Inflates the lists of a context by another context; an absent list stays absent. -/
def Context.inflate (d c : Context) : Context where
  classArgs := d.classArgs.map (·.inflate c)
  methodArgs := d.methodArgs.map (·.inflate c)

end Monomorph
