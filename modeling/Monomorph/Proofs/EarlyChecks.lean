import Monomorph.Proofs.Composition
import Monomorph.Proofs.Registry

/-!
Instantiations that are checked while they are open. A parameter among the arguments passes every
check, and all other arguments are judged by what inflation never changes. So an instantiation that
is closed can fail only by what is put in for such a parameter (`RuntimeClass.accepts_inflate_iff`).
Main statement: `ClassRegistry.rejection_is_final`, what is rejected while it is open is never
accepted later.
-/

namespace Monomorph

/-! ## One argument -/

section Argument

variable {p : GenericParam} {e e' : TypeExpr}

/-- Parameters are checked when they are replaced. -/
theorem GenericParam.allows_expr (p : GenericParam) (v : TypeVar) : p.Allows v.expr := by
  cases v <;> exact ⟨nofun, nofun, nofun, nofun⟩

/-- Of an argument, only the kind is judged. -/
theorem GenericParam.allows_iff_of_kind (h : e'.argumentKind = e.argumentKind) :
    p.Allows e' ↔ p.Allows e := by
  have checked (e : TypeExpr) : p.Allows e ↔ p.check default e = .ok () := check_eq_ok_iff.symm
  rw [checked, checked]
  unfold check
  rw [h]
  cases e.argumentKind with
  | value | reference => split <;> simp
  | parameter => rfl
  | notAllowed => simp

/-- Inflation rebuilds an argument in its own form, unless the argument is a parameter. -/
theorem TypeExpr.argumentKind_inflate (h : ∀ v : TypeVar, e ≠ v.expr) (d : Context) :
    (e.inflate d).argumentKind = e.argumentKind := by
  rw [inflate_eq]
  cases e with
  | classVar n => exact absurd rfl (h (.ofClass n))
  | methodVar n => exact absurd rfl (h (.ofMethod n))
  | named | generic | array | byRef | pointer => rfl

/-- An inflated argument is allowed if it was before, and what replaces it, if it is a parameter,
is allowed too. -/
theorem GenericParam.allows_inflate_iff (p : GenericParam) (e : TypeExpr) (d : Context) :
    p.Allows (e.inflate d) ↔
      p.Allows e ∧ ∀ v : TypeVar, e = v.expr → p.Allows (d.assign v) := by
  by_cases parameter : ∃ v : TypeVar, e = v.expr
  · obtain ⟨v, rfl⟩ := parameter
    rw [Context.inflate_expr]
    constructor
    · intro h
      refine ⟨p.allows_expr v, fun w same => ?_⟩
      have vw : d.assign v = d.assign w := by
        rw [← Context.inflate_expr, same, Context.inflate_expr]
      rwa [vw] at h
    · rintro ⟨-, h⟩
      exact h v rfl
  · have not_expr : ∀ v : TypeVar, e ≠ v.expr := fun v h => parameter ⟨v, h⟩
    rw [allows_iff_of_kind (TypeExpr.argumentKind_inflate not_expr d)]
    exact ⟨fun h => ⟨h, fun v same => absurd same (not_expr v)⟩, And.left⟩

end Argument

/-! ## A list of arguments -/

theorem TypeArgs.length_inflate (as : TypeArgs) (d : Context) :
    (as.inflate d).length = as.length := by
  rw [← length_toList, as.toList_inflate d, List.length_map, length_toList]

theorem TypeArgs.get?_inflate (as : TypeArgs) (d : Context) (n : Nat) :
    (as.inflate d).get? n = (as.get? n).map (·.inflate d) := by
  rw [get?_eq_getElem?, as.toList_inflate d, List.getElem?_map, get?_eq_getElem?]

/-- A closed instantiation is accepted if the open one is, and each parameter among its arguments is
replaced by something allowed. -/
theorem RuntimeClass.accepts_inflate_iff (c : RuntimeClass) (as : TypeArgs) (d : Context) :
    c.Accepts (as.inflate d) ↔ c.Accepts as ∧ ∀ (n : Nat) (p : GenericParam) (v : TypeVar),
      c.params[n]? = some p → as.get? n = some v.expr → p.Allows (d.assign v) := by
  constructor
  · intro h
    have each : ∀ (n : Nat) (p : GenericParam) (e : TypeExpr), c.params[n]? = some p →
        as.get? n = some e → p.Allows (e.inflate d) := by
      intro n p e hp he
      exact h.each n p _ hp (by rw [as.get?_inflate d, he, Option.map_some])
    refine ⟨⟨h.not_instance, h.generic, ?_, fun n p e hp he => ?_⟩, fun n p v hp hv => ?_⟩
    · rw [← as.length_inflate d, h.count]
    · exact ((p.allows_inflate_iff e d).1 (each n p e hp he)).1
    · exact ((p.allows_inflate_iff _ d).1 (each n p _ hp hv)).2 v rfl
  · rintro ⟨h, replaced⟩
    refine ⟨h.not_instance, h.generic, ?_, fun n p e' hp he' => ?_⟩
    · rw [as.length_inflate d, h.count]
    · rw [as.get?_inflate d, Option.map_eq_some_iff] at he'
      obtain ⟨e, he, rfl⟩ := he'
      refine (p.allows_inflate_iff e d).2 ⟨h.each n p e hp he, ?_⟩
      rintro v rfl
      exact replaced n p v hp he

/-! ## The registry -/

namespace ClassRegistry

variable {r : ClassRegistry} {n : Nat} {c : RuntimeClass} {as : TypeArgs}

theorem exists_rejection_iff : (∃ e, r.realize n c as = .error e) ↔ ¬c.Accepts as := by
  constructor
  · rintro ⟨e, he⟩ accepts
    obtain ⟨x, hx⟩ := exists_realize_iff (r := r) (n := n).2 accepts
    rw [he] at hx
    cases hx
  · exact realize_rejected

/-- What the check of an instantiation says about the instantiation that `d` makes of it. The two
may be checked at different times, whatever the registry holds by then. -/
structure ChecksEarly (c : RuntimeClass) (as : TypeArgs) (d : Context) : Prop where
  rejected : ∀ (r r' : ClassRegistry) (n n' : Nat), (∃ e, r.realize n c as = .error e) →
    ∃ e, r'.realize n' c (as.inflate d) = .error e
  accepted : ∀ (r r' : ClassRegistry) (n n' : Nat), (∃ x, r'.realize n' c (as.inflate d) = .ok x) →
    ∃ x, r.realize n c as = .ok x
  /-- No parameter among the arguments, and the check says all there is to say. -/
  decided : (∀ v : TypeVar, v.expr ∉ as.toList) → ∀ (r r' : ClassRegistry) (n n' : Nat),
    (∃ x, r'.realize n' c (as.inflate d) = .ok x) ↔ ∃ x, r.realize n c as = .ok x
  /-- What is accepted while it is open is rejected later exactly if a parameter among the arguments
  is replaced by something that is not allowed. -/
  late : ∀ (r r' : ClassRegistry) (n n' : Nat), (∃ x, r.realize n c as = .ok x) →
    ((∃ e, r'.realize n' c (as.inflate d) = .error e) ↔
      ∃ (i : Nat) (p : GenericParam) (v : TypeVar), c.params[i]? = some p ∧
        as.get? i = some v.expr ∧ ¬p.Allows (d.assign v))

/-- The rejection of an open instantiation is final. -/
theorem rejection_is_final (c : RuntimeClass) (as : TypeArgs) (d : Context) :
    ChecksEarly c as d where
  rejected r r' n n' h := by
    rw [exists_rejection_iff] at h ⊢
    exact fun accepts => h ((c.accepts_inflate_iff as d).1 accepts).1
  accepted r r' n n' h := by
    rw [exists_realize_iff] at h ⊢
    exact ((c.accepts_inflate_iff as d).1 h).1
  decided closed r r' n n' := by
    rw [exists_realize_iff, exists_realize_iff, c.accepts_inflate_iff as d]
    refine and_iff_left fun i p v _ hv => absurd ?_ (closed v)
    rw [TypeArgs.get?_eq_getElem?] at hv
    exact List.mem_of_getElem? hv
  late r r' n n' h := by
    rw [exists_realize_iff] at h
    rw [exists_rejection_iff, c.accepts_inflate_iff as d]
    simp only [h, true_and]
    push Not
    rfl

end ClassRegistry

namespace Sample

/-- A class for a key that is a value and for an item that is a reference. -/
def slot : RuntimeClass := .definition {
  serial := 0
  token := .typeDef 7
  name := "Slot"
  params := [{ name := "TKey", number := 0, flags := .structConstraint },
    { name := "TItem", number := 1, flags := .classConstraint }] }

def word : TypeExpr :=
  .named (.definition { serial := 1, token := .typeDef 8, name := "Word", isValueType := true })

/-- The instantiation of `slot` for the key and the item. -/
def slotFor (key item : TypeExpr) : TypeArgs := .cons key (.cons item .nil)

/-- Puts in the expression for the first parameter of the class. -/
def putIn (e : TypeExpr) : Context := ⟨some (.cons e .nil), none⟩

end Sample

/-- A slot for `!0`: with values for items it is rejected at once; with arrays of `!0` it is
accepted as long as `!0` is open, also if it turns out to be a value, but not if it turns out to be
a reference to one. For a given key, nothing about arrays of `!0` is left to be decided. -/
theorem ClassRegistry.rejection_is_final_slot :
    ((∃ e, (default : ClassRegistry).realize 2 Sample.slot
        (Sample.slotFor (.classVar 0) Sample.word) = .error e) ∧
      ∃ e, (default : ClassRegistry).realize 2 Sample.slot
        ((Sample.slotFor (.classVar 0) Sample.word).inflate (Sample.putIn Sample.word)) =
          .error e) ∧
    ((∃ x, (default : ClassRegistry).realize 2 Sample.slot
        ((Sample.slotFor (.classVar 0) (.array (.classVar 0))).inflate
          (Sample.putIn Sample.word)) = .ok x) ∧
      ∃ x, (default : ClassRegistry).realize 2 Sample.slot
        (Sample.slotFor (.classVar 0) (.array (.classVar 0))) = .ok x) ∧
    (∃ e, (default : ClassRegistry).realize 2 Sample.slot
      ((Sample.slotFor (.classVar 0) (.array (.classVar 0))).inflate
        (Sample.putIn (.byRef Sample.word))) = .error e) ∧
    ((∀ v : TypeVar, v.expr ∉ (Sample.slotFor Sample.word (.array (.classVar 0))).toList) ∧
      ∃ x, (default : ClassRegistry).realize 2 Sample.slot
        ((Sample.slotFor Sample.word (.array (.classVar 0))).inflate
          (Sample.putIn (.byRef Sample.word))) = .ok x) := by
  have refused : ∃ e, (default : ClassRegistry).realize 2 Sample.slot
      (Sample.slotFor (.classVar 0) Sample.word) = .error e :=
    exists_rejection_iff.2 (by decide)
  have closed : ∃ x, (default : ClassRegistry).realize 2 Sample.slot
      ((Sample.slotFor (.classVar 0) (.array (.classVar 0))).inflate (Sample.putIn Sample.word)) =
        .ok x :=
    exists_realize_iff.2 (by decide)
  have accepted := (rejection_is_final Sample.slot _ _).accepted default default 2 2 closed
  have given : ∀ v : TypeVar,
      v.expr ∉ (Sample.slotFor Sample.word (.array (.classVar 0))).toList := by
    intro v hv
    cases v <;> simp [Sample.slotFor, Sample.word, TypeArgs.toList, TypeVar.expr] at hv
  refine ⟨⟨refused, ?_⟩, ⟨closed, accepted⟩, ?_, given, ?_⟩
  · exact (rejection_is_final Sample.slot _ _).rejected default default 2 2 refused
  · refine ((rejection_is_final Sample.slot _ _).late default default 2 2 accepted).2 ?_
    exact ⟨0, _, .ofClass 0, rfl, rfl, fun allowed => allowed.not_byRef _ rfl⟩
  · refine ((rejection_is_final Sample.slot _ _).decided given default default 2 2).2 ?_
    exact exists_realize_iff.2 (by decide)

end Monomorph
