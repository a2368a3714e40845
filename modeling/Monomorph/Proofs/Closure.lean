import Mathlib.Data.List.Basic
import Monomorph.Proofs.Composition

/-!
Which expressions inflation closes. The parameters that an expression mentions (`TypeExpr.vars`) are
those that openness and inflation see; they do not look inside realized classes. Main statement:
`Context.closes_exactly`, what is left open is what mentions a parameter for which the context has
no argument, or an open one.
-/

namespace Monomorph

mutual

/-- The parameters that an expression mentions, from left to right. -/
def TypeExpr.vars : TypeExpr → List TypeVar
  | .named _ => []
  | .classVar n => [.ofClass n]
  | .methodVar n => [.ofMethod n]
  | .generic _ as => as.vars
  | .array e => e.vars
  | .byRef e => e.vars
  | .pointer e => e.vars

def TypeArgs.vars : TypeArgs → List TypeVar
  | .nil => []
  | .cons e as => e.vars ++ as.vars

end

theorem TypeArgs.vars_eq_flatMap (as : TypeArgs) : as.vars = as.toList.flatMap TypeExpr.vars := by
  induction as with
  | nil => rfl
  | cons e as ih => simp [vars, toList, ih]

/-- An expression is open if it mentions a parameter. -/
theorem TypeExpr.isOpen_iff (e : TypeExpr) : e.isOpen = true ↔ ∃ v, v ∈ e.vars := by
  induction e using TypeExpr.induct with
  | named | classVar | methodVar => simp [isOpen, vars]
  | generic k as ih =>
    rw [isOpen, vars, TypeArgs.isOpen_eq_any, TypeArgs.vars_eq_flatMap, List.any_eq_true]
    simp only [List.mem_flatMap]
    constructor
    · rintro ⟨e, he, hopen⟩
      obtain ⟨v, hv⟩ := (ih e he).1 hopen
      exact ⟨v, e, he, hv⟩
    · rintro ⟨v, e, he, hv⟩
      exact ⟨e, he, (ih e he).2 ⟨v, hv⟩⟩
  | array e ih | byRef e ih | pointer e ih => exact ih

/-- A substitution leaves the parameters of what it puts in, in the places where it puts it. -/
theorem TypeExpr.vars_substitute (e : TypeExpr) (σ : TypeVar → TypeExpr) :
    (e.substitute σ).vars = e.vars.flatMap fun v => (σ v).vars := by
  induction e using TypeExpr.induct with
  | named => rfl
  | classVar | methodVar => simp [substitute, vars]
  | generic k as ih =>
    simp only [substitute, vars, TypeArgs.vars_eq_flatMap, TypeArgs.toList_substitute,
      List.flatMap_map, List.flatMap_assoc]
    exact List.flatMap_congr ih
  | array e ih | byRef e ih | pointer e ih => exact ih

namespace Context

variable {c : Context} {v : TypeVar} {e : TypeExpr}

/-- Every argument is closed. -/
def IsClosed (c : Context) : Prop := ∀ e ∈ c.args, e.isOpen = false

/-- The context has an argument for the parameter. -/
def Covers (c : Context) (v : TypeVar) : Prop :=
  ∃ as, c.argsFor? v = some as ∧ v.position < as.length

/-- The context does not close the parameter. -/
inductive LeavesOpen (c : Context) (v : TypeVar) : Prop where
  | absent (h : c.argsFor? v = none)
  | short (as : TypeArgs) (h : c.argsFor? v = some as) (beyond : as.length ≤ v.position)
  | unclosed (as : TypeArgs) (e : TypeExpr) (h : c.argsFor? v = some as)
    (he : as.get? v.position = some e) (hopen : e.isOpen = true)

theorem arg?_eq_none_iff : c.arg? v = none ↔
    c.argsFor? v = none ∨ ∃ as, c.argsFor? v = some as ∧ as.length ≤ v.position := by
  cases h : c.argsFor? v <;> simp [arg?, h]

theorem isOpen_expr (v : TypeVar) : v.expr.isOpen = true := by
  cases v <;> rfl

/-- What the context puts in for a parameter is open exactly if the context does not close it. -/
theorem isOpen_assign_iff : (c.assign v).isOpen = true ↔ c.LeavesOpen v := by
  cases h : c.arg? v with
  | none =>
    rw [assign_of_none h]
    refine iff_of_true (isOpen_expr v) ?_
    rcases arg?_eq_none_iff.1 h with missing | ⟨as, has, beyond⟩
    · exact .absent missing
    · exact .short as has beyond
  | some e =>
    obtain ⟨as, has, he⟩ := arg?_eq_some_iff.1 h
    rw [assign_of_some h]
    constructor
    · exact .unclosed as e has he
    · rintro (missing | ⟨bs, hbs, beyond⟩ | ⟨bs, e', hbs, he', hopen⟩)
      · exact absurd (arg?_eq_none_iff.2 (.inl missing)) (by simp [h])
      · exact absurd (arg?_eq_none_iff.2 (.inr ⟨bs, hbs, beyond⟩)) (by simp [h])
      · have same : c.arg? v = some e' := arg?_eq_some_iff.2 ⟨bs, hbs, he'⟩
        rw [h] at same
        obtain rfl := Option.some.inj same
        exact hopen

theorem not_leavesOpen (closed : c.IsClosed) (covers : c.Covers v) : ¬c.LeavesOpen v := by
  obtain ⟨as, has, within⟩ := covers
  rintro (missing | ⟨bs, hbs, beyond⟩ | ⟨bs, e, hbs, he, hopen⟩)
  · rw [has] at missing
    cases missing
  · rw [has] at hbs
    obtain rfl := Option.some.inj hbs
    omega
  · have member : e ∈ c.args := mem_args_of_arg? (arg?_eq_some_iff.2 ⟨bs, hbs, he⟩)
    rw [closed e member] at hopen
    cases hopen

/-- What a context of closed arguments puts in is not touched if it is inflated again. -/
theorem inflate_assign (closed : c.IsClosed) (v : TypeVar) :
    (c.assign v).inflate c = c.assign v := by
  cases h : c.arg? v with
  | none =>
    conv_lhs => rw [assign_of_none h, inflate_expr]
  | some e =>
    rw [assign_of_some h, TypeExpr.inflate, closed e (mem_args_of_arg? h)]
    rfl

end Context

theorem TypeExpr.isOpen_inflate_iff (e : TypeExpr) (c : Context) :
    (e.inflate c).isOpen = true ↔ ∃ v ∈ e.vars, c.LeavesOpen v := by
  rw [isOpen_iff, e.inflate_eq_substitute c, vars_substitute]
  simp only [List.mem_flatMap]
  constructor
  · rintro ⟨w, v, hv, hw⟩
    exact ⟨v, hv, Context.isOpen_assign_iff.1 ((isOpen_iff _).2 ⟨w, hw⟩)⟩
  · rintro ⟨v, hv, leaves⟩
    obtain ⟨w, hw⟩ := (isOpen_iff _).1 (Context.isOpen_assign_iff.2 leaves)
    exact ⟨w, v, hv, hw⟩

/-- What inflation by the context leaves open. -/
structure Context.ClosesExactly (c : Context) : Prop where
  isOpen_iff : ∀ e : TypeExpr, (e.inflate c).isOpen = true ↔ ∃ v ∈ e.vars, c.LeavesOpen v
  covered : c.IsClosed → ∀ e : TypeExpr, (∀ v ∈ e.vars, c.Covers v) →
    (e.inflate c).isOpen = false
  /-- Closed arguments are put in once and for all, also where some parameters stay. -/
  again : c.IsClosed → ∀ e : TypeExpr, (e.inflate c).inflate c = e.inflate c

/-- An inflated expression is open exactly if it mentions a parameter that the context does not
close. -/
theorem Context.closes_exactly (c : Context) : c.ClosesExactly where
  isOpen_iff e := e.isOpen_inflate_iff c
  covered closed e covers := by
    rw [Bool.eq_false_iff, ne_eq, e.isOpen_inflate_iff c]
    rintro ⟨v, hv, leaves⟩
    exact not_leavesOpen closed (covers v hv) leaves
  again closed e := by
    have same : (c.andThen c).assign = c.assign := by
      funext v
      rw [assign_andThen, inflate_assign closed]
    calc (e.inflate c).inflate c
        = e.inflate (c.andThen c) := e.inflate_inflate c c
      _ = e.substitute c.assign := by rw [e.inflate_eq_substitute (c.andThen c), same]
      _ = e.inflate c := (e.inflate_eq_substitute c).symm

namespace Sample

/-- One closed argument for the class and none for the method. -/
def oneArg : Context where
  classArgs := some (.cons (.named default) .nil)

/-- An instance for two parameters. -/
def pair : TypeExpr := .generic default (.cons (.classVar 0) (.cons (.classVar 1) .nil))

end Sample

/-- A context that closes the first of two parameters. -/
theorem Context.closes_exactly_oneArg :
    (Sample.oneArg.IsClosed ∧ Sample.oneArg.Covers (.ofClass 0) ∧
      ((TypeExpr.array (.classVar 0)).inflate Sample.oneArg).isOpen = false) ∧
    Sample.oneArg.LeavesOpen (.ofClass 1) ∧ (Sample.pair.inflate Sample.oneArg).isOpen = true ∧
      (Sample.pair.inflate Sample.oneArg).inflate Sample.oneArg =
        Sample.pair.inflate Sample.oneArg := by
  have closed : Sample.oneArg.IsClosed := by
    intro e he
    obtain rfl := List.mem_singleton.1 he
    rfl
  have covers : Sample.oneArg.Covers (.ofClass 0) := ⟨_, rfl, by decide⟩
  have leaves : Sample.oneArg.LeavesOpen (.ofClass 1) := .short _ rfl (by decide)
  have exactly := Context.closes_exactly Sample.oneArg
  refine ⟨⟨closed, covers, exactly.covered closed _ fun v hv => ?_⟩, leaves, ?_, ?_⟩
  · obtain rfl := List.mem_singleton.1 hv
    exact covers
  · exact (exactly.isOpen_iff Sample.pair).2 ⟨.ofClass 1, .tail _ (.head _), leaves⟩
  · exact exactly.again closed Sample.pair

end Monomorph
