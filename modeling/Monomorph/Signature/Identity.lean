import Monomorph.Signature.Basic

/-!
Identity of classes, type expressions and contexts. Expressions are compared form by form down to
the classes they name, which are compared as a whole, and the digests of two argument lists come
before the lists themselves. The digest only rejects early, so the test decides equality
(`TypeExpr.beq_iff`, `TypeArgs.beq_iff`).
-/

namespace Monomorph

deriving instance DecidableEq for RuntimeClass, TypeExpr, TypeArgs

/-- Classes that are one object in memory are equal without a look inside; the numbers of other
classes differ. -/
instance : DecidableEq RuntimeClass := fun c c' => withPtrEqDecEq c c' fun _ => inferInstance

/-- The digest of an argument list begins with the number of arguments. -/
def TypeArgs.digest (as : TypeArgs) : UInt64 := Digest.ofList as.digests

namespace Context

/-- Folds in one of the two lists, after a mark that tells an absent list from an empty one. -/
def foldArgs (d : Digest) : Option TypeArgs → Digest
  | none => d.byte 0
  | some as => (d.byte 1).word as.digest

def digest (c : Context) : UInt64 :=
  (foldArgs (foldArgs Digest.start c.classArgs) c.methodArgs).value

end Context

mutual

def TypeExpr.beq : TypeExpr → TypeExpr → Bool
  | .named c, .named c' => c == c'
  | .classVar n, .classVar n' => n == n'
  | .methodVar n, .methodVar n' => n == n'
  | .generic c as, .generic c' as' =>
    c == c' && (as.digest == as'.digest && as.beqEach as')
  | .array e, .array e' => e.beq e'
  | .byRef e, .byRef e' => e.beq e'
  | .pointer e, .pointer e' => e.beq e'
  | _, _ => false

/-- Compares argument by argument. -/
def TypeArgs.beqEach : TypeArgs → TypeArgs → Bool
  | .nil, .nil => true
  | .cons e as, .cons e' as' => e.beq e' && as.beqEach as'
  | _, _ => false

end

/-- Lists with different digests are told apart without looking at the arguments. -/
def TypeArgs.beq (as bs : TypeArgs) : Bool := as.digest == bs.digest && as.beqEach bs

mutual

theorem TypeExpr.beq_self : ∀ e : TypeExpr, e.beq e = true
  | .named c => by simp [TypeExpr.beq]
  | .classVar n => by simp [TypeExpr.beq]
  | .methodVar n => by simp [TypeExpr.beq]
  | .generic c as => by simp [TypeExpr.beq, as.beqEach_self]
  | .array e => by simp [TypeExpr.beq, e.beq_self]
  | .byRef e => by simp [TypeExpr.beq, e.beq_self]
  | .pointer e => by simp [TypeExpr.beq, e.beq_self]

theorem TypeArgs.beqEach_self : ∀ as : TypeArgs, as.beqEach as = true
  | .nil => by simp [TypeArgs.beqEach]
  | .cons e as => by simp [TypeArgs.beqEach, e.beq_self, as.beqEach_self]

end

mutual

theorem TypeExpr.eq_of_beq : ∀ {e e' : TypeExpr}, e.beq e' = true → e = e'
  | .named c, e', h => by
    cases e' <;> simp only [TypeExpr.beq, Bool.false_eq_true, beq_iff_eq] at h
    rw [h]
  | .classVar n, e', h => by
    cases e' <;> simp only [TypeExpr.beq, Bool.false_eq_true, beq_iff_eq] at h
    rw [h]
  | .methodVar n, e', h => by
    cases e' <;> simp only [TypeExpr.beq, Bool.false_eq_true, beq_iff_eq] at h
    rw [h]
  | .generic c as, e', h => by
    cases e' <;> simp only [TypeExpr.beq, Bool.false_eq_true, Bool.and_eq_true, beq_iff_eq] at h
    rw [h.1, TypeArgs.eq_of_beqEach h.2.2]
  | .array e, e', h => by
    cases e' <;> simp only [TypeExpr.beq, Bool.false_eq_true] at h
    rw [TypeExpr.eq_of_beq h]
  | .byRef e, e', h => by
    cases e' <;> simp only [TypeExpr.beq, Bool.false_eq_true] at h
    rw [TypeExpr.eq_of_beq h]
  | .pointer e, e', h => by
    cases e' <;> simp only [TypeExpr.beq, Bool.false_eq_true] at h
    rw [TypeExpr.eq_of_beq h]

theorem TypeArgs.eq_of_beqEach : ∀ {as bs : TypeArgs}, as.beqEach bs = true → as = bs
  | .nil, bs, h => by
    cases bs with
    | nil => rfl
    | cons _ _ => simp [TypeArgs.beqEach] at h
  | .cons e as, bs, h => by
    cases bs with
    | nil => simp [TypeArgs.beqEach] at h
    | cons e' as' =>
      simp only [TypeArgs.beqEach, Bool.and_eq_true] at h
      rw [TypeExpr.eq_of_beq h.1, TypeArgs.eq_of_beqEach h.2]

end

theorem TypeExpr.beq_iff {e e' : TypeExpr} : e.beq e' = true ↔ e = e' :=
  ⟨TypeExpr.eq_of_beq, fun h => h ▸ e.beq_self⟩

theorem TypeArgs.beq_iff {as bs : TypeArgs} : as.beq bs = true ↔ as = bs := by
  constructor
  · intro h
    exact TypeArgs.eq_of_beqEach (by simp only [TypeArgs.beq, Bool.and_eq_true] at h; exact h.2)
  · rintro rfl
    simp [TypeArgs.beq, as.beqEach_self]

instance : DecidableEq TypeExpr := fun _ _ => decidable_of_iff _ TypeExpr.beq_iff
instance : DecidableEq TypeArgs := fun _ _ => decidable_of_iff _ TypeArgs.beq_iff

instance : BEq TypeExpr := ⟨TypeExpr.beq⟩
instance : BEq TypeArgs := ⟨TypeArgs.beq⟩

instance : LawfulBEq TypeExpr where
  eq_of_beq := TypeExpr.eq_of_beq
  rfl := TypeExpr.beq_self _

instance : LawfulBEq TypeArgs where
  eq_of_beq := TypeArgs.beq_iff.1
  rfl := TypeArgs.beq_iff.2 rfl

deriving instance DecidableEq for Context

instance : BEq Context :=
  ⟨fun c d => c.classArgs == d.classArgs && c.methodArgs == d.methodArgs⟩

instance : LawfulBEq Context where
  eq_of_beq {c d} h := by
    simp only [BEq.beq, Bool.and_eq_true] at h
    cases c; cases d
    have h₁ := eq_of_beq (α := Option TypeArgs) h.1
    have h₂ := eq_of_beq (α := Option TypeArgs) h.2
    simp_all
  rfl {c} := by
    show (c.classArgs == c.classArgs && c.methodArgs == c.methodArgs) = true
    simp

end Monomorph
