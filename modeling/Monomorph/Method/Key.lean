import Monomorph.Method.Definition
import Monomorph.Signature.Measures
import Monomorph.Signature.Text

/-!
Keys name one instantiation of a method: its definition and the arguments put in for the
parameters of the class and of the method. Keys are equal exactly if definition and arguments are
(`MethodKey.beq_iff`); their digest only makes the test fail early.
-/

namespace Monomorph

structure MethodKey where
  definition : MethodDef
  context : Context
  deriving Inhabited

namespace MethodKey

/-- A definition enters the digest with its token and the class that declares it. -/
def digest (k : MethodKey) : UInt64 :=
  (((Digest.start.token k.definition.token).word k.definition.owner.digest).word
    k.context.digest).value

/-- Instantiations of one definition with different digests are told apart without looking at the
arguments. -/
def beq (k l : MethodKey) : Bool :=
  k.definition == l.definition && (k.digest == l.digest && k.context == l.context)

theorem beq_iff {k l : MethodKey} : k.beq l = true ↔ k = l := by
  constructor
  · intro h
    simp only [beq, Bool.and_eq_true, beq_iff_eq] at h
    obtain ⟨m, c⟩ := k
    obtain ⟨m', c'⟩ := l
    obtain rfl : m = m' := h.1
    obtain rfl : c = c' := h.2.2
    rfl
  · rintro rfl
    simp [beq]

instance : DecidableEq MethodKey := fun _ _ => decidable_of_iff _ beq_iff

instance : BEq MethodKey := ⟨beq⟩

instance : LawfulBEq MethodKey where
  eq_of_beq := beq_iff.1
  rfl := beq_iff.2 rfl

/-- The depth of the arguments. -/
def depth (k : MethodKey) : Nat := k.context.depth

/-- Marks an argument list, if there is one, with the place it belongs to. -/
def argsText (mark : String) : Option TypeArgs → String
  | none => ""
  | some as => mark ++ as.text

/-- The short text of a key. -/
def text (k : MethodKey) : String :=
  k.definition.qualifiedName ++ argsText " class" k.context.classArgs ++
    argsText " method" k.context.methodArgs

end MethodKey

/-- A key as one requester owns it. Handles of equal keys with different serial numbers are
different copies of one key. -/
structure KeyHandle where
  serial : Nat
  key : MethodKey
  deriving DecidableEq, Inhabited

end Monomorph
