import Mathlib.Logic.Function.Basic
import Monomorph.Method.Key

/-!
What digests are sure to tell apart. Each stage of mixing can be undone, so two mixings agree
exactly if the words differ by as much as the states do (`Digest.mix_eq_mix_iff`). A digest is mixed
from the digests of parts, so a difference in one part, however deep inside, reaches the digest of
the whole. Main statement: `digest_shows_difference`.
-/

namespace Monomorph

/-! ## Mixing -/

namespace Digest

variable {s s' w w' a b x y : UInt64} {d d' : Digest}

theorem shiftRight_shiftRight (x : UInt64) : (x >>> 33) >>> 33 = 0 := by
  apply UInt64.toBitVec_inj.1
  simp [← BitVec.shiftRight_add, BitVec.ushiftRight_eq_zero]

/-- A copy that is folded in twice cancels out. -/
theorem foldHigh_foldHigh (x : UInt64) : foldHigh (foldHigh x) = x := by
  unfold foldHigh
  rw [UInt64.shiftRight_xor, shiftRight_shiftRight, UInt64.xor_zero, UInt64.xor_assoc,
    UInt64.xor_self, UInt64.xor_zero]

theorem foldHigh_inj : foldHigh x = foldHigh y ↔ x = y :=
  (show Function.Involutive foldHigh from foldHigh_foldHigh).injective.eq_iff

/-- Multiplication by a word that has an inverse loses nothing. -/
theorem mul_inj_of_unit (unit : a * b = 1) : x * a = y * a ↔ x = y := by
  constructor
  · intro h
    calc x = x * a * b := by rw [UInt64.mul_assoc, unit, UInt64.mul_one]
      _ = y * a * b := by rw [h]
      _ = y := by rw [UInt64.mul_assoc, unit, UInt64.mul_one]
  · exact congrArg (· * a)

/-- Two mixings agree exactly if the words differ where the states do. -/
theorem mix_eq_mix_iff : mix s w = mix s' w' ↔ s ^^^ w = s' ^^^ w' := by
  have first : (0x100000001b3 : UInt64) * 0xce965057aff6957b = 1 := by decide
  have second : (0xff51afd7ed558ccd : UInt64) * 0x4f74430c22a54005 = 1 := by decide
  unfold mix
  rw [foldHigh_inj, mul_inj_of_unit second, foldHigh_inj, mul_inj_of_unit first]

theorem mix_word_injective (s : UInt64) : Function.Injective (mix s) := fun _ _ h =>
  (UInt64.xor_right_inj s).1 (mix_eq_mix_iff.1 h)

theorem mix_state_injective (w : UInt64) : Function.Injective (mix · w) := fun _ _ h =>
  (UInt64.xor_left_inj w).1 (mix_eq_mix_iff.1 h)

theorem value_inj : d.value = d'.value ↔ d = d' := by
  cases d
  cases d'
  simp

theorem word_right_inj : d.word w = d.word w' ↔ w = w' := by
  rw [word, word, mk.injEq, (mix_word_injective d.value).eq_iff]

theorem word_left_inj : d.word w = d'.word w ↔ d = d' := by
  rw [word, word, mk.injEq, (mix_state_injective w).eq_iff, value_inj]

/-- A difference stays, whatever is mixed in after it. -/
theorem foldl_word_inj (ws : List UInt64) : ws.foldl word d = ws.foldl word d' ↔ d = d' := by
  induction ws generalizing d d' with
  | nil => rfl
  | cons w ws ih => rw [List.foldl_cons, List.foldl_cons, ih, word_left_inj]

/-- Lists of one length are folded into the same start. -/
theorem ofList_eq_iff {ws ws' : List UInt64} (h : ws'.length = ws.length) :
    ofList ws = ofList ws' ↔
      ws.foldl word (start.size ws.length) = ws'.foldl word (start.size ws.length) := by
  unfold ofList
  rw [h, value_inj]

end Digest

/-! ## One place -/

mutual

/-- The second class is made like the first one, with `q` for `p` in one place of the arguments that
it, or its origin, is made for. -/
inductive RuntimeClass.Replaces (p q : TypeExpr) : RuntimeClass → RuntimeClass → Prop where
  | origin {n n' : Nat} {c c' : RuntimeClass} (as : TypeArgs) (h : RuntimeClass.Replaces p q c c') :
    RuntimeClass.Replaces p q (.realized n c as) (.realized n' c' as)
  | args {n n' : Nat} (c : RuntimeClass) {as as' : TypeArgs} (h : TypeArgs.Replaces p q as as') :
    RuntimeClass.Replaces p q (.realized n c as) (.realized n' c as')

/-- The second expression is the first one with `q` for `p` in one place. -/
inductive TypeExpr.Replaces (p q : TypeExpr) : TypeExpr → TypeExpr → Prop where
  | here : TypeExpr.Replaces p q p q
  | named {c c' : RuntimeClass} (h : RuntimeClass.Replaces p q c c') :
    TypeExpr.Replaces p q (.named c) (.named c')
  | origin {c c' : RuntimeClass} (as : TypeArgs) (h : RuntimeClass.Replaces p q c c') :
    TypeExpr.Replaces p q (.generic c as) (.generic c' as)
  | args (c : RuntimeClass) {as as' : TypeArgs} (h : TypeArgs.Replaces p q as as') :
    TypeExpr.Replaces p q (.generic c as) (.generic c as')
  | array {e e' : TypeExpr} (h : TypeExpr.Replaces p q e e') :
    TypeExpr.Replaces p q (.array e) (.array e')
  | byRef {e e' : TypeExpr} (h : TypeExpr.Replaces p q e e') :
    TypeExpr.Replaces p q (.byRef e) (.byRef e')
  | pointer {e e' : TypeExpr} (h : TypeExpr.Replaces p q e e') :
    TypeExpr.Replaces p q (.pointer e) (.pointer e')

/-- The second list is the first one with `q` for `p` in one place of one argument. -/
inductive TypeArgs.Replaces (p q : TypeExpr) : TypeArgs → TypeArgs → Prop where
  | first {e e' : TypeExpr} (as : TypeArgs) (h : TypeExpr.Replaces p q e e') :
    TypeArgs.Replaces p q (.cons e as) (.cons e' as)
  | later (e : TypeExpr) {as as' : TypeArgs} (h : TypeArgs.Replaces p q as as') :
    TypeArgs.Replaces p q (.cons e as) (.cons e as')

end

/-- The place is in one of the two lists. -/
inductive Context.Replaces (p q : TypeExpr) : Context → Context → Prop where
  | classArgs {as as' : TypeArgs} (o : Option TypeArgs) (h : TypeArgs.Replaces p q as as') :
    Context.Replaces p q ⟨some as, o⟩ ⟨some as', o⟩
  | methodArgs {as as' : TypeArgs} (o : Option TypeArgs) (h : TypeArgs.Replaces p q as as') :
    Context.Replaces p q ⟨o, some as⟩ ⟨o, some as'⟩

/-- The place is in the context of the key, or in the class that declares its definition. -/
inductive MethodKey.Replaces (p q : TypeExpr) : MethodKey → MethodKey → Prop where
  | context (m : MethodDef) {c c' : Context} (h : Context.Replaces p q c c') :
    MethodKey.Replaces p q ⟨m, c⟩ ⟨m, c'⟩
  | owner {m m' : MethodDef} (c : Context) (token : m'.token = m.token)
    (h : RuntimeClass.Replaces p q m.owner m'.owner) : MethodKey.Replaces p q ⟨m, c⟩ ⟨m', c⟩

/-! ## What a difference in one place does to digests -/

section Digests

open Digest (value_inj word_left_inj word_right_inj foldl_word_inj ofList_eq_iff)

variable {p q : TypeExpr}

theorem TypeArgs.Replaces.length_eq : ∀ {as as' : TypeArgs}, TypeArgs.Replaces p q as as' →
    as'.digests.length = as.digests.length
  | _, _, .first _ _ => rfl
  | _, _, .later _ h => congrArg (· + 1) h.length_eq

mutual

theorem RuntimeClass.Replaces.digest_eq_iff : ∀ {c c' : RuntimeClass},
    RuntimeClass.Replaces p q c c' → (c.digest = c'.digest ↔ p.digest = q.digest)
  -- The origins are mixed in first: their digests make two states for the same arguments.
  | _, _, .origin as h => by
    rw [RuntimeClass.digest, RuntimeClass.digest, value_inj, word_left_inj, word_right_inj]
    exact h.digest_eq_iff
  | _, _, .args c h => by
    rw [RuntimeClass.digest, RuntimeClass.digest, value_inj, word_right_inj,
      ofList_eq_iff h.length_eq]
    exact h.foldl_eq_iff _

theorem TypeExpr.Replaces.digest_eq_iff : ∀ {e e' : TypeExpr},
    TypeExpr.Replaces p q e e' → (e.digest = e'.digest ↔ p.digest = q.digest)
  | _, _, .here => Iff.rfl
  | _, _, .named h => by
    rw [TypeExpr.digest, TypeExpr.digest, value_inj, word_right_inj]
    exact h.digest_eq_iff
  | _, _, .origin as h => by
    rw [TypeExpr.digest, TypeExpr.digest, value_inj, word_left_inj, word_right_inj]
    exact h.digest_eq_iff
  | _, _, .args c h => by
    rw [TypeExpr.digest, TypeExpr.digest, value_inj, word_right_inj,
      ofList_eq_iff h.length_eq]
    exact h.foldl_eq_iff _
  | _, _, .array h => by
    rw [TypeExpr.digest, TypeExpr.digest, value_inj, word_right_inj]
    exact h.digest_eq_iff
  | _, _, .byRef h => by
    rw [TypeExpr.digest, TypeExpr.digest, value_inj, word_right_inj]
    exact h.digest_eq_iff
  | _, _, .pointer h => by
    rw [TypeExpr.digest, TypeExpr.digest, value_inj, word_right_inj]
    exact h.digest_eq_iff

theorem TypeArgs.Replaces.foldl_eq_iff : ∀ {as as' : TypeArgs}, TypeArgs.Replaces p q as as' →
    ∀ d, as.digests.foldl Digest.word d = as'.digests.foldl Digest.word d ↔ p.digest = q.digest
  | _, _, .first as h, d => by
    rw [TypeArgs.digests, TypeArgs.digests, List.foldl_cons, List.foldl_cons, foldl_word_inj,
      word_right_inj]
    exact h.digest_eq_iff
  | _, _, .later e h, d => h.foldl_eq_iff (d.word e.digest)

end

theorem TypeArgs.Replaces.digest_eq_iff {as as' : TypeArgs} (h : TypeArgs.Replaces p q as as') :
    as.digest = as'.digest ↔ p.digest = q.digest :=
  (ofList_eq_iff h.length_eq).trans (h.foldl_eq_iff _)

theorem Context.foldArgs_inj (o : Option TypeArgs) {d d' : Digest} :
    foldArgs d o = foldArgs d' o ↔ d = d' := by
  cases o with
  | none => exact word_left_inj
  | some as => exact word_left_inj.trans word_left_inj

theorem Context.foldArgs_some_inj {d : Digest} {as as' : TypeArgs} :
    foldArgs d (some as) = foldArgs d (some as') ↔ as.digest = as'.digest :=
  word_right_inj

theorem Context.Replaces.digest_eq_iff {c c' : Context} (h : Context.Replaces p q c c') :
    c.digest = c'.digest ↔ p.digest = q.digest := by
  unfold Context.digest
  rw [value_inj]
  cases h with
  | classArgs o h =>
    rw [Context.foldArgs_inj, Context.foldArgs_some_inj]
    exact h.digest_eq_iff
  | methodArgs o h =>
    rw [Context.foldArgs_some_inj]
    exact h.digest_eq_iff

theorem MethodKey.Replaces.digest_eq_iff {k k' : MethodKey} (h : MethodKey.Replaces p q k k') :
    k.digest = k'.digest ↔ p.digest = q.digest := by
  unfold MethodKey.digest
  rw [value_inj]
  cases h with
  | context m h =>
    rw [word_right_inj]
    exact h.digest_eq_iff
  | owner c token h =>
    simp only [token, word_left_inj, word_right_inj]
    exact h.digest_eq_iff

/-- Tokens are mixed in as they are. -/
theorem MethodKey.digest_eq_iff_token {k k' : MethodKey}
    (owner : k.definition.owner.digest = k'.definition.owner.digest)
    (context : k.context.digest = k'.context.digest) :
    k.digest = k'.digest ↔ k.definition.token = k'.definition.token := by
  unfold MethodKey.digest
  rw [value_inj, owner, context, word_left_inj, word_left_inj]
  refine word_right_inj.trans (UInt32.toUInt64_inj.trans ⟨fun h => ?_, congrArg Token.value⟩)
  cases hk : k.definition.token
  cases hl : k'.definition.token
  rw [hk, hl] at h
  exact congrArg Token.mk h

end Digests

/-- Digests show a difference in one place. -/
structure DifferencesShow : Prop where
  mix_word : ∀ state : UInt64, Function.Injective (Digest.mix state)
  mix_state : ∀ word : UInt64, Function.Injective (Digest.mix · word)
  types : ∀ p q e e', TypeExpr.Replaces p q e e' → (e.digest = e'.digest ↔ p.digest = q.digest)
  args : ∀ p q as as', TypeArgs.Replaces p q as as' →
    (as.digest = as'.digest ↔ p.digest = q.digest)
  /-- Whatever the numbers of the two classes. -/
  classes : ∀ p q c c', RuntimeClass.Replaces p q c c' →
    (c.digest = c'.digest ↔ p.digest = q.digest)
  contexts : ∀ p q c c', Context.Replaces p q c c' → (c.digest = c'.digest ↔ p.digest = q.digest)
  keys : ∀ p q k k', MethodKey.Replaces p q k k' → (k.digest = k'.digest ↔ p.digest = q.digest)
  /-- Definitions that differ in their tokens, and in nothing else that is mixed in. -/
  tokens : ∀ k k' : MethodKey, k.definition.owner.digest = k'.definition.owner.digest →
    k.context.digest = k'.context.digest →
    (k.digest = k'.digest ↔ k.definition.token = k'.definition.token)

/-- A difference in one place, at any depth, is never masked by what is mixed in with it. -/
theorem digest_shows_difference : DifferencesShow where
  mix_word := Digest.mix_word_injective
  mix_state := Digest.mix_state_injective
  types _ _ _ _ h := h.digest_eq_iff
  args _ _ _ _ h := h.digest_eq_iff
  classes _ _ _ _ h := h.digest_eq_iff
  contexts _ _ _ _ h := h.digest_eq_iff
  keys _ _ _ _ h := h.digest_eq_iff
  tokens _ _ owner context := MethodKey.digest_eq_iff_token owner context

namespace Sample

/-- The expression in a realized class, as an argument of an instance that stands in an array. -/
def within (n : Nat) (e : TypeExpr) : TypeExpr :=
  .array (.generic default (.cons (.classVar 1) (.cons
    (.named (.realized n default (.cons (.byRef e) .nil))) .nil)))

def withinKey (n : Nat) (e : TypeExpr) : MethodKey where
  definition := default
  context := ⟨some .nil, some (.cons (.methodVar 1) (.cons (within n e) .nil))⟩

theorem withinKey_replaces (n n' : Nat) (p q : TypeExpr) :
    MethodKey.Replaces p q (withinKey n p) (withinKey n' q) :=
  .context _ (.methodArgs _ (.later _ (.first _
    (.array (.args _ (.later _ (.first _ (.named (.args _ (.first _ (.byRef .here)))))))))))

end Sample

/-- `!0` and `!!0` in the arguments of a realized class, four levels down in a key. -/
theorem digest_shows_difference_within :
    (TypeExpr.classVar 0).digest ≠ (TypeExpr.methodVar 0).digest ∧
      MethodKey.Replaces (.classVar 0) (.methodVar 0) (Sample.withinKey 5 (.classVar 0))
        (Sample.withinKey 6 (.methodVar 0)) ∧
      (Sample.withinKey 5 (.classVar 0)).digest ≠ (Sample.withinKey 6 (.methodVar 0)).digest := by
  have parts : (TypeExpr.classVar 0).digest ≠ (TypeExpr.methodVar 0).digest := by decide +kernel
  have replaces := Sample.withinKey_replaces 5 6 (.classVar 0) (.methodVar 0)
  exact ⟨parts, replaces, (digest_shows_difference.keys _ _ _ _ replaces).not.2 parts⟩

end Monomorph
