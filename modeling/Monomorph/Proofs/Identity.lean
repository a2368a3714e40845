import Monomorph.Method.Key

/-!
Structural identity. Two values are alike if they have the same form, down to classes and
definitions, which have to be the same; digests play no part in that. The tests of the library look
at digests first, and accept exactly what is alike (`TypeExpr.beq_iff_alike` and its kin), so they
are equivalences, and what they accept has one digest, however it has been built.
-/

namespace Monomorph

/-! ## Form by form -/

mutual

def TypeExpr.Alike : TypeExpr → TypeExpr → Prop
  | .named c, .named c' => c = c'
  | .classVar n, .classVar n' => n = n'
  | .methodVar n, .methodVar n' => n = n'
  | .generic c as, .generic c' as' => c = c' ∧ as.Alike as'
  | .array e, .array e' => e.Alike e'
  | .byRef e, .byRef e' => e.Alike e'
  | .pointer e, .pointer e' => e.Alike e'
  | _, _ => False

/-- Lists are alike argument by argument. -/
def TypeArgs.Alike : TypeArgs → TypeArgs → Prop
  | .nil, .nil => True
  | .cons e as, .cons e' as' => e.Alike e' ∧ as.Alike as'
  | _, _ => False

end

structure Context.Alike (c d : Context) : Prop where
  classArgs : Option.Rel TypeArgs.Alike c.classArgs d.classArgs
  methodArgs : Option.Rel TypeArgs.Alike c.methodArgs d.methodArgs

/-- Keys of one definition with arguments that are alike. -/
structure MethodKey.Alike (k l : MethodKey) : Prop where
  definition : k.definition = l.definition
  context : k.context.Alike l.context

mutual

theorem TypeExpr.Alike.refl : ∀ e : TypeExpr, e.Alike e
  | .named _ => by simp [TypeExpr.Alike]
  | .classVar _ => by simp [TypeExpr.Alike]
  | .methodVar _ => by simp [TypeExpr.Alike]
  | .generic _ as => by simp [TypeExpr.Alike, TypeArgs.Alike.refl as]
  | .array e => by simp [TypeExpr.Alike, TypeExpr.Alike.refl e]
  | .byRef e => by simp [TypeExpr.Alike, TypeExpr.Alike.refl e]
  | .pointer e => by simp [TypeExpr.Alike, TypeExpr.Alike.refl e]

theorem TypeArgs.Alike.refl : ∀ as : TypeArgs, as.Alike as
  | .nil => by simp [TypeArgs.Alike]
  | .cons e as => by simp [TypeArgs.Alike, TypeExpr.Alike.refl e, TypeArgs.Alike.refl as]

end

mutual

theorem TypeExpr.Alike.eq : ∀ {e e' : TypeExpr}, e.Alike e' → e = e'
  | .named c, e', h => by
    cases e' <;> simp only [TypeExpr.Alike] at h
    rw [h]
  | .classVar n, e', h => by
    cases e' <;> simp only [TypeExpr.Alike] at h
    rw [h]
  | .methodVar n, e', h => by
    cases e' <;> simp only [TypeExpr.Alike] at h
    rw [h]
  | .generic c as, e', h => by
    cases e' <;> simp only [TypeExpr.Alike] at h
    rw [h.1, TypeArgs.Alike.eq h.2]
  | .array e, e', h => by
    cases e' <;> simp only [TypeExpr.Alike] at h
    rw [TypeExpr.Alike.eq h]
  | .byRef e, e', h => by
    cases e' <;> simp only [TypeExpr.Alike] at h
    rw [TypeExpr.Alike.eq h]
  | .pointer e, e', h => by
    cases e' <;> simp only [TypeExpr.Alike] at h
    rw [TypeExpr.Alike.eq h]

theorem TypeArgs.Alike.eq : ∀ {as bs : TypeArgs}, as.Alike bs → as = bs
  | .nil, bs, h => by
    cases bs with
    | nil => rfl
    | cons _ _ => simp [TypeArgs.Alike] at h
  | .cons e as, bs, h => by
    cases bs with
    | nil => simp [TypeArgs.Alike] at h
    | cons e' as' =>
      simp only [TypeArgs.Alike] at h
      rw [TypeExpr.Alike.eq h.1, TypeArgs.Alike.eq h.2]

end

theorem TypeExpr.alike_iff {e e' : TypeExpr} : e.Alike e' ↔ e = e' :=
  ⟨TypeExpr.Alike.eq, fun h => h ▸ .refl e⟩

theorem TypeArgs.alike_iff {as bs : TypeArgs} : as.Alike bs ↔ as = bs :=
  ⟨TypeArgs.Alike.eq, fun h => h ▸ .refl as⟩

theorem TypeArgs.alike_option_iff {o o' : Option TypeArgs} :
    Option.Rel TypeArgs.Alike o o' ↔ o = o' := by
  constructor
  · rintro (h | -)
    · rw [h.eq]
    · rfl
  · rintro rfl
    cases o with
    | none => exact .none
    | some as => exact .some (.refl as)

theorem Context.alike_iff {c d : Context} : c.Alike d ↔ c = d := by
  constructor
  · rintro ⟨hc, hm⟩
    cases c
    cases d
    rw [TypeArgs.alike_option_iff] at hc hm
    cases hc
    cases hm
    rfl
  · rintro rfl
    exact ⟨TypeArgs.alike_option_iff.2 rfl, TypeArgs.alike_option_iff.2 rfl⟩

theorem MethodKey.alike_iff {k l : MethodKey} : k.Alike l ↔ k = l := by
  constructor
  · rintro ⟨hd, hc⟩
    cases k
    cases l
    rw [Context.alike_iff] at hc
    cases hd
    cases hc
    rfl
  · rintro rfl
    exact ⟨rfl, Context.alike_iff.2 rfl⟩

/-! ## The tests -/

theorem TypeExpr.beq_iff_alike {e e' : TypeExpr} : e.beq e' = true ↔ e.Alike e' :=
  TypeExpr.beq_iff.trans TypeExpr.alike_iff.symm

theorem TypeArgs.beq_iff_alike {as bs : TypeArgs} : as.beq bs = true ↔ as.Alike bs :=
  TypeArgs.beq_iff.trans TypeArgs.alike_iff.symm

theorem Context.beq_iff_alike {c d : Context} : (c == d) = true ↔ c.Alike d :=
  beq_iff_eq.trans Context.alike_iff.symm

theorem MethodKey.beq_iff_alike {k l : MethodKey} : k.beq l = true ↔ k.Alike l :=
  MethodKey.beq_iff.trans MethodKey.alike_iff.symm

/-- The test is an equivalence, and values that it takes for equal have one hash. -/
structure LawfulHash {κ : Type} (eq : κ → κ → Bool) (hash : κ → UInt64) : Prop where
  equivalence : Equivalence fun k l => eq k l = true
  hash_eq : ∀ {k l}, eq k l = true → hash k = hash l

theorem LawfulHash.of_iff {κ : Type} {eq : κ → κ → Bool} (h : ∀ {k l}, eq k l = true ↔ k = l)
    (hash : κ → UInt64) : LawfulHash eq hash where
  equivalence := by
    refine ⟨fun _ => h.2 rfl, fun hk => ?_, fun hk hl => ?_⟩
    · exact h.2 (h.1 hk).symm
    · exact h.2 ((h.1 hk).trans (h.1 hl))
  hash_eq hk := congrArg hash (h.1 hk)

/-! ## Lists that are built in different ways -/

theorem TypeExpr.inflateOpen_of_closed (c : Context) :
    ∀ {e : TypeExpr}, e.isOpen = false → e.inflateOpen c = e
  | .named _, _ => rfl
  | .classVar _, h => by cases h
  | .methodVar _, h => by cases h
  | .generic _ as, h => by
    have closed : as.isOpen = false := h
    simp [TypeExpr.inflateOpen, closed]
  | .array e, h => congrArg array (TypeExpr.inflateOpen_of_closed c (e := e) h)
  | .byRef e, h => congrArg byRef (TypeExpr.inflateOpen_of_closed c (e := e) h)
  | .pointer e, h => congrArg pointer (TypeExpr.inflateOpen_of_closed c (e := e) h)

theorem TypeExpr.inflate_eq (e : TypeExpr) (c : Context) : e.inflate c = e.inflateOpen c := by
  unfold inflate
  split
  · rfl
  · next closed => exact (inflateOpen_of_closed c (by simpa using closed)).symm

/-- An inflated list is the list of its inflated arguments, whichever of them are open. -/
theorem TypeArgs.toList_inflate (as : TypeArgs) (c : Context) :
    (as.inflate c).toList = as.toList.map (·.inflate c) := by
  have each : (as.inflateEach c).toList = as.toList.map (·.inflate c) := by
    induction as with
    | nil => rfl
    | cons e as ih => simp [inflateEach, toList, ih, e.inflate_eq c]
  unfold inflate
  split
  · exact each
  · next closed =>
    rw [isOpen_eq_any] at closed
    have same : as.toList.map (·.inflate c) = as.toList.map id := by
      refine List.map_congr_left fun e he => ?_
      have hf : e.isOpen = false := by simpa using fun h => closed (List.any_eq_true.2 ⟨e, he, h⟩)
      simp [TypeExpr.inflate, hf]
    rw [same, List.map_id]

/-- A list has the digest that its arguments give it, wherever it comes from. -/
theorem TypeArgs.digest_eq (as : TypeArgs) :
    as.digest = Digest.ofList (as.toList.map TypeExpr.digest) :=
  congrArg Digest.ofList as.digests_eq_map

/-- A list that is the result of inflation has the digest of one that is made anew of the inflated
arguments. -/
theorem TypeArgs.digest_inflate (as : TypeArgs) (c : Context) :
    (as.inflate c).digest = (ofList (as.toList.map (·.inflate c))).digest := by
  rw [digest_eq, digest_eq, toList_inflate, toList_ofList]

end Monomorph
