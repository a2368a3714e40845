import Monomorph.Proofs.Substitution

/-!
Inflation by one context and then by another. The two amount to a single context
(`Context.andThen`), whose lists hold the arguments of the first, inflated by the second, and behind
them what the second has for the parameters that the first leaves as they are. Main statement:
`Context.inflation_composes`.
-/

namespace Monomorph

namespace Context

/-- The one list that does what `first`, inflated by `d`, and `second` after it do. Parameters
beyond the end of `first` are left for `second`. -/
def joinArgs (d : Context) : (first second : Option TypeArgs) → Option TypeArgs
  | none, second => second
  | some as, none => some (as.inflate d)
  | some as, some bs =>
    some (.ofList (as.toList.map (·.inflate d) ++ bs.toList.drop as.length))

/-- The context that puts in what `c` and then `d` put in. -/
def andThen (c d : Context) : Context where
  classArgs := d.joinArgs c.classArgs d.classArgs
  methodArgs := d.joinArgs c.methodArgs d.methodArgs

theorem argsFor?_andThen (c d : Context) (v : TypeVar) :
    (c.andThen d).argsFor? v = d.joinArgs (c.argsFor? v) (d.argsFor? v) := by
  cases v <;> rfl

/-- The joined list has the inflated argument of the first list in each place where there is one,
and the argument of the second list elsewhere. -/
theorem bind_joinArgs (d : Context) (first second : Option TypeArgs) (n : Nat) :
    ((d.joinArgs first second).bind fun as => as.toList[n]?) =
      ((first.bind fun as => as.toList[n]?).map (·.inflate d)).or
        (second.bind fun as => as.toList[n]?) := by
  cases first with
  | none => rfl
  | some as =>
    cases second with
    | none => simp [joinArgs, as.toList_inflate d]
    | some bs =>
      simp only [joinArgs, Option.bind_some, TypeArgs.toList_ofList]
      rcases Nat.lt_or_ge n as.toList.length with within | beyond
      · rw [List.getElem?_append_left (by simpa using within), List.getElem?_map,
          List.getElem?_eq_getElem within]
        rfl
      · have place : as.length + (n - as.length) = n := by
          rw [TypeArgs.length_toList] at beyond
          omega
        rw [List.getElem?_append_right (by simpa using beyond), List.getElem?_drop,
          List.getElem?_eq_none beyond, List.length_map, TypeArgs.length_toList, place]
        rfl

theorem arg?_andThen (c d : Context) (v : TypeVar) :
    (c.andThen d).arg? v = ((c.arg? v).map (·.inflate d)).or (d.arg? v) := by
  rw [arg?, argsFor?_andThen]
  exact d.bind_joinArgs _ _ _

/-- A parameter by itself is inflated to what the context assigns to it. -/
theorem inflate_expr (v : TypeVar) (d : Context) : v.expr.inflate d = d.assign v := by
  rw [v.expr.inflate_eq_substitute d]
  cases v <;> rfl

/-- What the first context leaves as it is falls to the second. -/
theorem assign_andThen (c d : Context) (v : TypeVar) :
    (c.andThen d).assign v = (c.assign v).inflate d := by
  rw [assign, arg?_andThen]
  cases h : c.arg? v with
  | some e =>
    rw [assign_of_some h]
    rfl
  | none =>
    rw [assign_of_none h, inflate_expr]
    rfl

end Context

/-- Two inflations are two substitutions, and those make one. -/
theorem TypeExpr.inflate_inflate (e : TypeExpr) (c d : Context) :
    (e.inflate c).inflate d = e.inflate (c.andThen d) := by
  have after : (fun v => (c.assign v).substitute d.assign) = (c.andThen d).assign := by
    funext v
    rw [Context.assign_andThen, TypeExpr.inflate_eq_substitute]
  calc (e.inflate c).inflate d
      = (e.substitute c.assign).substitute d.assign := by
        rw [inflate_eq_substitute, inflate_eq_substitute]
    _ = e.substitute fun v => (c.assign v).substitute d.assign := e.substitute_substitute _ _
    _ = e.inflate (c.andThen d) := by rw [after, inflate_eq_substitute]

theorem TypeArgs.inflate_inflate (as : TypeArgs) (c d : Context) :
    (as.inflate c).inflate d = as.inflate (c.andThen d) := by
  simp [← toList_inj, toList_inflate, TypeExpr.inflate_inflate]

theorem TypeExpr.inflate_empty (e : TypeExpr) : e.inflate .empty = e := by
  rw [e.inflate_eq_substitute .empty]
  have same : Context.empty.assign = TypeVar.expr := by
    funext v
    cases v <;> rfl
  rw [same, e.substitute_expr]

theorem TypeArgs.inflate_empty (as : TypeArgs) : as.inflate .empty = as := by
  simp [← toList_inj, toList_inflate, TypeExpr.inflate_empty]

/-- Inflation by `c` and then by `d` is inflation by one context, and the empty context does
nothing. -/
structure Context.Composes (c d : Context) : Prop where
  types : ∀ e : TypeExpr, (e.inflate c).inflate d = e.inflate (c.andThen d)
  args : ∀ as : TypeArgs, (as.inflate c).inflate d = as.inflate (c.andThen d)
  parameters : ∀ ps : List Parameter,
    (ps.map (·.inflate c)).map (·.inflate d) = ps.map (·.inflate (c.andThen d))
  contexts : ∀ o : Context, (o.inflate c).inflate d = o.inflate (c.andThen d)
  types_empty : ∀ e : TypeExpr, e.inflate .empty = e
  args_empty : ∀ as : TypeArgs, as.inflate .empty = as
  parameters_empty : ∀ ps : List Parameter, ps.map (·.inflate .empty) = ps
  contexts_empty : ∀ o : Context, o.inflate .empty = o

/-- Inflation composes, also for parameters for which the first context has too few arguments or
none. -/
theorem Context.inflation_composes (c d : Context) : c.Composes d where
  types e := e.inflate_inflate c d
  args as := as.inflate_inflate c d
  parameters ps := by
    rw [List.map_map]
    refine List.map_congr_left fun p _ => ?_
    simp [Parameter.inflate, p.type.inflate_inflate c d]
  contexts o := by
    simp [inflate, Option.map_map, Function.comp_def, TypeArgs.inflate_inflate]
  types_empty := TypeExpr.inflate_empty
  args_empty := TypeArgs.inflate_empty
  parameters_empty ps := by
    refine (List.map_congr_left fun p _ => ?_).trans ps.map_id
    rw [Parameter.inflate, p.type.inflate_empty]
    rfl
  contexts_empty o := by
    cases o
    simp [inflate, TypeArgs.inflate_empty]

/-- The first context has no second argument, so the second parameter is left for the other one,
whose first argument is not used. -/
example :
    ((TypeExpr.generic default (.cons (.classVar 0) (.cons (.classVar 1) .nil))).inflate
        ⟨some (.cons (.methodVar 0) .nil), none⟩).inflate
      ⟨some (.cons (.named default) (.cons (.array (.named default)) .nil)),
        some (.cons (.pointer (.named default)) .nil)⟩ =
    .generic default (.cons (.pointer (.named default)) (.cons (.array (.named default)) .nil)) :=
  rfl

end Monomorph
