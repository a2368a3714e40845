import Monomorph.Proofs.Identity

/-!
Inflation as simultaneous substitution. A substitution puts something in for every parameter at once
and rebuilds all the rest, open or not (`TypeExpr.substitute`); what a context puts in for a
parameter is its argument in that place, or else the parameter itself (`Context.assign`). Main
statement: `Context.inflation_is_substitution`, inflation is substitution, although it hands back
untouched whatever is not open, and so its results may stand for those of substitution wherever
digests are compared.
-/

namespace Monomorph

/-- Induction on an expression, with the arguments of an instance taken one by one. -/
@[elab_as_elim] theorem TypeExpr.induct {motive : TypeExpr → Prop}
    (named : ∀ k, motive (named k)) (classVar : ∀ n, motive (classVar n))
    (methodVar : ∀ n, motive (methodVar n))
    (generic : ∀ k as, (∀ e ∈ as.toList, motive e) → motive (generic k as))
    (array : ∀ e, motive e → motive (array e)) (byRef : ∀ e, motive e → motive (byRef e))
    (pointer : ∀ e, motive e → motive (pointer e)) (e : TypeExpr) : motive e := by
  refine @TypeExpr.rec (fun _ => True) motive (fun as => ∀ e ∈ as.toList, motive e)
    (fun _ => trivial) (fun _ _ _ _ _ => trivial) (fun k _ => named k) classVar methodVar
    (fun k as _ => generic k as) array byRef pointer ?nil ?cons e
  case nil => exact nofun
  case cons =>
    intro e as first rest e' he
    rcases List.mem_cons.1 he with rfl | he
    · exact first
    · exact rest e' he

theorem TypeArgs.toList_inj {as bs : TypeArgs} : as.toList = bs.toList ↔ as = bs := by
  constructor
  · intro h
    rw [← ofList_toList as, h, ofList_toList]
  · exact congrArg toList

/-! ## Substitution -/

/-- A parameter of the declaring class or of the method, by its position. -/
inductive TypeVar where
  | ofClass (n : UInt16)
  | ofMethod (n : UInt16)
  deriving DecidableEq

namespace TypeVar

def position : TypeVar → Nat
  | ofClass n => n.toNat
  | ofMethod n => n.toNat

/-- The parameter as an expression of its own. -/
def expr : TypeVar → TypeExpr
  | ofClass n => .classVar n
  | ofMethod n => .methodVar n

end TypeVar

mutual

/-- Puts something in for each parameter and rebuilds the rest around it, with the very classes that
are named there. What is put in is not looked at again. -/
def TypeExpr.substitute (σ : TypeVar → TypeExpr) : TypeExpr → TypeExpr
  | .named k => .named k
  | .classVar n => σ (.ofClass n)
  | .methodVar n => σ (.ofMethod n)
  | .generic k as => .generic k (as.substitute σ)
  | .array e => .array (e.substitute σ)
  | .byRef e => .byRef (e.substitute σ)
  | .pointer e => .pointer (e.substitute σ)

def TypeArgs.substitute (σ : TypeVar → TypeExpr) : TypeArgs → TypeArgs
  | .nil => .nil
  | .cons e as => .cons (e.substitute σ) (as.substitute σ)

end

theorem TypeArgs.toList_substitute (as : TypeArgs) (σ : TypeVar → TypeExpr) :
    (as.substitute σ).toList = as.toList.map (·.substitute σ) := by
  induction as with
  | nil => rfl
  | cons e as ih => simp [substitute, toList, ih]

/-- Substitution in a list can be compared argument by argument. -/
theorem TypeArgs.substitute_eq_of {as bs : TypeArgs} {σ : TypeVar → TypeExpr}
    {f : TypeExpr → TypeExpr} (h : bs.toList = as.toList.map f)
    (each : ∀ e ∈ as.toList, e.substitute σ = f e) : as.substitute σ = bs := by
  rw [← toList_inj, toList_substitute, h]
  exact List.map_congr_left each

/-- Parameters that are put in for themselves change nothing. -/
theorem TypeExpr.substitute_expr (e : TypeExpr) : e.substitute TypeVar.expr = e := by
  induction e using TypeExpr.induct with
  | named | classVar | methodVar => rfl
  | generic k as ih => exact congrArg (generic k) (TypeArgs.substitute_eq_of (by simp) ih)
  | array e ih => exact congrArg array ih
  | byRef e ih => exact congrArg byRef ih
  | pointer e ih => exact congrArg pointer ih

/-- Two substitutions after one another are one: the second goes on with what the first has put
in. -/
theorem TypeExpr.substitute_substitute (e : TypeExpr) (σ τ : TypeVar → TypeExpr) :
    (e.substitute σ).substitute τ = e.substitute fun v => (σ v).substitute τ := by
  induction e using TypeExpr.induct with
  | named | classVar | methodVar => rfl
  | generic k as ih =>
    refine congrArg (generic k) (TypeArgs.substitute_eq_of ?_ fun e he => (ih e he).symm).symm
    simp [TypeArgs.toList_substitute]
  | array e ih => exact congrArg array ih
  | byRef e ih => exact congrArg byRef ih
  | pointer e ih => exact congrArg pointer ih

/-! ## What a context puts in -/

namespace Context

/-- The list that has the arguments for a parameter. -/
def argsFor? (c : Context) : TypeVar → Option TypeArgs
  | .ofClass _ => c.classArgs
  | .ofMethod _ => c.methodArgs

/-- The argument in the place of the parameter, if there is a list and it is long enough. -/
def arg? (c : Context) (v : TypeVar) : Option TypeExpr :=
  (c.argsFor? v).bind fun as => as.toList[v.position]?

/-- What the context puts in for a parameter: its argument, or the parameter itself. -/
def assign (c : Context) (v : TypeVar) : TypeExpr := (c.arg? v).getD v.expr

/-- Puts something in for the parameters in both lists. -/
def substitute (d : Context) (σ : TypeVar → TypeExpr) : Context where
  classArgs := d.classArgs.map (·.substitute σ)
  methodArgs := d.methodArgs.map (·.substitute σ)

/-- Every argument in both lists. -/
def args (c : Context) : List TypeExpr :=
  (c.classArgs.map TypeArgs.toList).getD [] ++ (c.methodArgs.map TypeArgs.toList).getD []

variable {c : Context} {v : TypeVar} {e : TypeExpr}

theorem assign_of_some (h : c.arg? v = some e) : c.assign v = e := by
  rw [assign, h, Option.getD_some]

theorem assign_of_none (h : c.arg? v = none) : c.assign v = v.expr := by
  rw [assign, h, Option.getD_none]

theorem arg?_eq_some_iff : c.arg? v = some e ↔
    ∃ as, c.argsFor? v = some as ∧ as.get? v.position = some e := by
  simp only [arg?, Option.bind_eq_some_iff, TypeArgs.get?_eq_getElem?]

theorem mem_args_iff : e ∈ c.args ↔
    ∃ as, (c.classArgs = some as ∨ c.methodArgs = some as) ∧ e ∈ as.toList := by
  rw [args, List.mem_append]
  cases c.classArgs <;> cases c.methodArgs <;> simp

theorem mem_args_of_arg? (h : c.arg? v = some e) : e ∈ c.args := by
  obtain ⟨as, has, he⟩ := arg?_eq_some_iff.1 h
  rw [TypeArgs.get?_eq_getElem?] at he
  refine mem_args_iff.2 ⟨as, ?_, List.mem_of_getElem? he⟩
  cases v with
  | ofClass => exact .inl has
  | ofMethod => exact .inr has

theorem classArg?_eq (c : Context) (n : UInt16) : c.classArg? n = c.arg? (.ofClass n) := by
  simp only [classArg?, TypeArgs.get?_eq_getElem?]
  rfl

theorem methodArg?_eq (c : Context) (n : UInt16) : c.methodArg? n = c.arg? (.ofMethod n) := by
  simp only [methodArg?, TypeArgs.get?_eq_getElem?]
  rfl

end Context

/-! ## Inflation -/

/-- Inflation goes on inside an instance, whichever of its arguments are open. -/
theorem TypeExpr.inflate_generic (k : RuntimeClass) (as : TypeArgs) (c : Context) :
    (generic k as).inflate c = generic k (as.inflate c) :=
  inflate_eq (generic k as) c

theorem TypeExpr.inflate_eq_substitute (e : TypeExpr) (c : Context) :
    e.inflate c = e.substitute c.assign := by
  induction e using TypeExpr.induct with
  | named => rfl
  | classVar n => exact congrArg (Option.getD · _) (c.classArg?_eq n)
  | methodVar n => exact congrArg (Option.getD · _) (c.methodArg?_eq n)
  | generic k as ih =>
    have args : as.substitute c.assign = as.inflate c :=
      TypeArgs.substitute_eq_of (as.toList_inflate c) fun e he => (ih e he).symm
    rw [inflate_generic, substitute, args]
  | array e ih | byRef e ih | pointer e ih =>
    rw [inflate_eq] at ih ⊢
    rw [inflateOpen, substitute, ih]

theorem TypeArgs.inflate_eq_substitute (as : TypeArgs) (c : Context) :
    as.inflate c = as.substitute c.assign := by
  refine (substitute_eq_of (as.toList_inflate c) fun e _ => ?_).symm
  exact (e.inflate_eq_substitute c).symm

theorem Context.inflate_eq_substitute (d c : Context) : d.inflate c = d.substitute c.assign := by
  simp only [inflate, substitute, TypeArgs.inflate_eq_substitute]

mutual

/-- The argument lists at every depth of an expression, each before those within it. -/
def TypeExpr.lists : TypeExpr → List TypeArgs
  | .named _ => []
  | .classVar _ => []
  | .methodVar _ => []
  | .generic _ as => as :: as.lists
  | .array e => e.lists
  | .byRef e => e.lists
  | .pointer e => e.lists

def TypeArgs.lists : TypeArgs → List TypeArgs
  | .nil => []
  | .cons e as => e.lists ++ as.lists

end

/-- Inflation by the context puts its arguments in for the parameters and changes nothing else. -/
structure Context.InflatesPlainly (c : Context) : Prop where
  types : ∀ e : TypeExpr, e.inflate c = e.substitute c.assign
  /-- A list is made anew of its arguments, each with its own parameters replaced. -/
  args : ∀ as : TypeArgs, as.inflate c = .ofList (as.toList.map (·.substitute c.assign))
  length : ∀ as : TypeArgs, (as.inflate c).length = as.length
  get? : ∀ (as : TypeArgs) (n : Nat),
    (as.inflate c).get? n = (as.get? n).map (·.substitute c.assign)
  parameters : ∀ ps : List Parameter, ps.map (·.inflate c) =
    ps.map fun p => ⟨p.name, p.position, p.token, p.type.substitute c.assign⟩
  /-- The lists in the result, kept or made, have the digests that they get if they are made of
  their arguments anew. -/
  digests : ∀ e : TypeExpr, (e.inflate c).lists.map TypeArgs.digest =
    (e.substitute c.assign).lists.map fun as => Digest.ofList (as.toList.map TypeExpr.digest)
  /-- A key of inflated arguments passes for one of arguments that were made from scratch. -/
  keys : ∀ (m : MethodDef) (d : Context),
    (MethodKey.mk m (d.inflate c)).beq ⟨m, d.substitute c.assign⟩ = true ∧
      (MethodKey.mk m (d.inflate c)).digest = (MethodKey.mk m (d.substitute c.assign)).digest

/-- Inflation is simultaneous substitution, and that it leaves alone what is not open never
shows. -/
theorem Context.inflation_is_substitution (c : Context) : c.InflatesPlainly where
  types e := e.inflate_eq_substitute c
  args as := by
    rw [← TypeArgs.toList_substitute, TypeArgs.ofList_toList, as.inflate_eq_substitute c]
  length as := by
    rw [← TypeArgs.length_toList, as.toList_inflate c, List.length_map, TypeArgs.length_toList]
  get? as n := by
    rw [as.inflate_eq_substitute c, TypeArgs.get?_eq_getElem?, TypeArgs.toList_substitute,
      List.getElem?_map, TypeArgs.get?_eq_getElem?]
  parameters ps := by
    refine List.map_congr_left fun p _ => ?_
    rw [Parameter.inflate, p.type.inflate_eq_substitute c]
  digests e := by
    rw [e.inflate_eq_substitute c]
    exact List.map_congr_left fun as _ => as.digest_eq
  keys m d := by
    rw [d.inflate_eq_substitute c]
    exact ⟨MethodKey.beq_iff.2 rfl, rfl⟩

end Monomorph
