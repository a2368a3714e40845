import Mathlib.Data.List.Chain
import Monomorph.Method.Key

/-!
What the depth of a key measures. An argument list nests another one if one of its arguments is an
instance for it, realized or not, beneath any arrays, references and pointers (`TypeArgs.Nests`).
Main statement: `MethodKey.depth_le_iff`, the depth of a key is the length of the longest descent
through its argument lists.
-/

namespace Monomorph

/-- The arguments of the instance that stands beneath arrays, references and pointers. -/
def TypeExpr.args? : TypeExpr → Option TypeArgs
  | .named c => c.instance?.map Prod.snd
  | .classVar _ => none
  | .methodVar _ => none
  | .generic _ as => some as
  | .array e => e.args?
  | .byRef e => e.args?
  | .pointer e => e.args?

theorem RuntimeClass.depth_eq (c : RuntimeClass) :
    c.depth = ((c.instance?.map Prod.snd).map TypeArgs.depth).getD 0 := by
  cases c <;> rfl

theorem TypeExpr.depth_eq (e : TypeExpr) : e.depth = (e.args?.map TypeArgs.depth).getD 0 := by
  fun_induction TypeExpr.args? e with
  | case1 c => exact c.depth_eq
  | case2 | case3 | case4 => rfl
  | case5 e ih | case6 e ih | case7 e ih => exact ih

namespace TypeArgs

variable {as bs : TypeArgs} {n : Nat}

/-- Some argument is an instance for `bs`. -/
def Nests (as bs : TypeArgs) : Prop := ∃ e ∈ as.toList, e.args? = some bs

theorem maxDepth_le_iff : as.maxDepth ≤ n ↔ ∀ e ∈ as.toList, e.depth ≤ n := by
  induction as with
  | nil => simp [maxDepth, toList]
  | cons e as ih =>
    have members : (cons e as).maxDepth ≤ n ↔ e.depth ≤ n ∧ as.maxDepth ≤ n := Nat.max_le
    simp [members, ih, toList]

/-- A list is one level above what it nests. -/
theorem depth_le_succ_iff : as.depth ≤ n + 1 ↔ ∀ bs, as.Nests bs → bs.depth ≤ n := by
  have levels : as.depth ≤ n + 1 ↔ as.maxDepth ≤ n := by
    unfold depth
    omega
  rw [levels, maxDepth_le_iff]
  constructor
  · rintro h bs ⟨e, he, args⟩
    have deep := h e he
    rw [e.depth_eq, args] at deep
    exact deep
  · intro h e he
    rw [e.depth_eq]
    cases args : e.args? with
    | none => exact Nat.zero_le n
    | some bs => exact h bs ⟨e, he, args⟩

/-- The depth of a list is the length of the longest descent that begins with it. -/
theorem depth_le_iff :
    as.depth ≤ n ↔ ∀ ls, (as :: ls).IsChain Nests → (as :: ls).length ≤ n := by
  induction n generalizing as with
  | zero =>
    constructor
    · intro h
      simp [depth] at h
    · intro h
      exact absurd (h [] (.singleton as)) (by simp)
  | succ n ih =>
    rw [depth_le_succ_iff]
    constructor
    · intro h ls chain
      cases ls with
      | nil => simp
      | cons bs ls =>
        obtain ⟨nests, chain⟩ := List.isChain_cons_cons.1 chain
        exact Nat.succ_le_succ (ih.1 (h bs nests) ls chain)
    · intro h bs nests
      refine ih.2 fun ls chain => ?_
      exact Nat.le_of_succ_le_succ (h (bs :: ls) (List.isChain_cons_cons.2 ⟨nests, chain⟩))

end TypeArgs

/-- The argument lists lead inwards, and the first is one of the key's own. -/
def MethodKey.Descends (k : MethodKey) (ls : List TypeArgs) : Prop :=
  ls.IsChain TypeArgs.Nests ∧
    ∀ as ∈ ls.head?, k.context.classArgs = some as ∨ k.context.methodArgs = some as

/-- The depth of an absent list, or of a list that is present. -/
theorem Context.argsDepth_le_iff {o : Option TypeArgs} {n : Nat} :
    (o.map TypeArgs.depth).getD 0 ≤ n ↔ ∀ as, o = some as → as.depth ≤ n := by
  cases o <;> simp

/-- The depth of a key is the length of the longest descent through its argument lists. -/
theorem MethodKey.depth_le_iff {k : MethodKey} {n : Nat} :
    k.depth ≤ n ↔ ∀ ls, k.Descends ls → ls.length ≤ n := by
  have lists : k.depth ≤ n ↔ ∀ as,
      k.context.classArgs = some as ∨ k.context.methodArgs = some as → as.depth ≤ n := by
    simp only [depth, Context.depth, Nat.max_le, Context.argsDepth_le_iff, or_imp, forall_and]
  rw [lists]
  constructor
  · rintro h ls ⟨chain, first⟩
    cases ls with
    | nil => exact Nat.zero_le n
    | cons as ls => exact TypeArgs.depth_le_iff.1 (h as (first as rfl)) ls chain
  · intro h as own
    refine TypeArgs.depth_le_iff.2 fun ls chain => h (as :: ls) ⟨chain, ?_⟩
    rintro _ ⟨⟩
    exact own

end Monomorph
