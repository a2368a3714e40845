import Mathlib.Data.Finset.Card
import Monomorph.Cache.State
import Monomorph.Proofs.Identity

/-!
Maps of keys. A map may find its keys by a hash and tell them apart by a test, as long as the two
are lawful; those of method keys are, so every such map of method keys answers as the finite map
that is indexed by the structural identity of keys, whatever digests coincide. Main statement:
`key_identity_structural`.
-/

namespace Monomorph

/-- What is done to a map. -/
inductive MapOp (κ ν : Type) where
  | add (k : κ) (v : ν)
  | tryGet (k : κ)
  | remove (k : κ)
  | contains (k : κ)
  | clear
  | len

/-- What is learned from it. -/
inductive MapAnswer (ν : Type) where
  | done
  | entry (o : Option ν)
  | present (b : Bool)
  | count (n : Nat)
  deriving DecidableEq

/-! ## Finite maps -/

namespace MapOp

variable {κ ν : Type} [DecidableEq κ]

/-- The value of the key after these operations, the latest first. -/
def value? (k : κ) : List (MapOp κ ν) → Option ν
  | [] => none
  | add l v :: past => if l = k then some v else value? k past
  | remove l :: past => if l = k then none else value? k past
  | clear :: _ => none
  | tryGet _ :: past | contains _ :: past | len :: past => value? k past

/-- The keys that have a value. -/
def keys : List (MapOp κ ν) → Finset κ
  | [] => ∅
  | add k _ :: past => insert k (keys past)
  | remove k :: past => (keys past).erase k
  | clear :: _ => ∅
  | tryGet _ :: past | contains _ :: past | len :: past => keys past

theorem mem_keys {k : κ} {past : List (MapOp κ ν)} : k ∈ keys past ↔ value? k past ≠ none := by
  induction past with
  | nil => simp [keys, value?]
  | cons o past ih =>
    cases o with
    | add l v | remove l =>
      by_cases hl : l = k
      · simp [keys, value?, hl]
      · simp [keys, value?, hl, ih, Ne.symm hl]
    | clear => simp [keys, value?]
    | tryGet | contains | len => exact ih

/-- What a finite map answers after the operations `past`. -/
def answer (past : List (MapOp κ ν)) : MapOp κ ν → MapAnswer ν
  | add _ _ => .done
  | tryGet k => .entry (value? k past)
  | remove k => .entry (value? k past)
  | contains k => .present (value? k past).isSome
  | clear => .done
  | len => .count (keys past).card

def answers (past : List (MapOp κ ν)) : List (MapOp κ ν) → List (MapAnswer ν)
  | [] => []
  | o :: os => answer past o :: answers (o :: past) os

end MapOp

/-! ## Maps of any make -/

/-- The operations of a map. -/
structure MapOps (κ ν : Type) where
  Map : Type
  empty : Map
  insert : Map → κ → ν → Map
  get : Map → κ → Option ν
  /-- The entry that was there, and the map without it. -/
  remove : Map → κ → Option (κ × ν) × Map
  containsKey : Map → κ → Bool
  clear : Map → Map
  len : Map → Nat

namespace MapOps

variable {κ ν : Type} (M : MapOps κ ν)

def apply (m : M.Map) : MapOp κ ν → MapAnswer ν × M.Map
  | .add k v => (.done, M.insert m k v)
  | .tryGet k => (.entry (M.get m k), m)
  | .remove k => (.entry ((M.remove m k).1.map Prod.snd), (M.remove m k).2)
  | .contains k => (.present (M.containsKey m k), m)
  | .clear => (.done, M.clear m)
  | .len => (.count (M.len m), m)

/-- The answers to the operations, one after the other. -/
def answers : M.Map → List (MapOp κ ν) → List (MapAnswer ν)
  | _, [] => []
  | m, o :: os => (M.apply m o).1 :: answers (M.apply m o).2 os

/-- These are the operations of a map with keys that are told apart by `eq`. -/
structure IsMap (eq : κ → κ → Bool) : Prop where
  get_empty : ∀ k, M.get M.empty k = none
  get_insert : ∀ m k v l, M.get (M.insert m k v) l = if eq k l then some v else M.get m l
  get_remove : ∀ m k l, M.get (M.remove m k).2 l = if eq k l then none else M.get m l
  get_clear : ∀ m k, M.get (M.clear m) k = none
  removed : ∀ m k, (M.remove m k).1.map Prod.snd = M.get m k
  containsKey : ∀ m k, M.containsKey m k = (M.get m k).isSome
  len_empty : M.len M.empty = 0
  len_insert : ∀ m k v, M.len (M.insert m k v) = M.len m + if (M.get m k).isSome then 0 else 1
  len_remove : ∀ m k, M.len (M.remove m k).2 = M.len m - if (M.get m k).isSome then 1 else 0
  len_clear : ∀ m, M.len (M.clear m) = 0

variable {M} [DecidableEq κ] {eq : κ → κ → Bool}

/-- The map holds what a finite map holds after the operations `past`. -/
structure Holds (M : MapOps κ ν) (m : M.Map) (past : List (MapOp κ ν)) : Prop where
  get : ∀ k, M.get m k = MapOp.value? k past
  len : M.len m = (MapOp.keys past).card

theorem Holds.apply (h : M.IsMap eq) (lawful : ∀ {k l}, eq k l = true ↔ k = l) {m : M.Map}
    {past : List (MapOp κ ν)} (hm : M.Holds m past) (o : MapOp κ ν) :
    (M.apply m o).1 = o.answer past ∧ M.Holds (M.apply m o).2 (o :: past) := by
  have present : ∀ k, (M.get m k).isSome = true ↔ k ∈ MapOp.keys past := fun k => by
    rw [MapOp.mem_keys, hm.get, Option.isSome_iff_ne_none]
  cases o with
  | add k v =>
    refine ⟨rfl, fun l => ?_, ?_⟩
    · simp only [MapOps.apply, h.get_insert, lawful, MapOp.value?, hm.get]
    · simp only [MapOps.apply, h.len_insert, present, MapOp.keys, hm.len]
      split
      · next hk => rw [Finset.insert_eq_of_mem hk, Nat.add_zero]
      · next hk => rw [Finset.card_insert_of_notMem hk]
  | tryGet k => exact ⟨congrArg MapAnswer.entry (hm.get k), hm.get, hm.len⟩
  | remove k =>
    refine ⟨congrArg MapAnswer.entry ((h.removed m k).trans (hm.get k)), fun l => ?_, ?_⟩
    · simp only [MapOps.apply, h.get_remove, lawful, MapOp.value?, hm.get]
    · simp only [MapOps.apply, h.len_remove, present, MapOp.keys, hm.len]
      split
      · next hk => rw [Finset.card_erase_of_mem hk]
      · next hk => rw [Finset.erase_eq_of_notMem hk, Nat.sub_zero]
  | contains k =>
    refine ⟨congrArg MapAnswer.present ?_, hm.get, hm.len⟩
    rw [h.containsKey, hm.get]
  | clear => exact ⟨rfl, h.get_clear m, h.len_clear m⟩
  | len => exact ⟨congrArg MapAnswer.count hm.len, hm.get, hm.len⟩

/-- A map whose test tells equal from different keys answers as a finite map. -/
theorem IsMap.answers_eq (h : M.IsMap eq) (lawful : ∀ {k l}, eq k l = true ↔ k = l)
    (os : List (MapOp κ ν)) : M.answers M.empty os = MapOp.answers [] os := by
  have all : ∀ {m past}, M.Holds m past → M.answers m os = MapOp.answers past os := by
    induction os with
    | nil => exact fun _ => rfl
    | cons o os ih =>
      intro m past hm
      obtain ⟨answer, hm⟩ := hm.apply h lawful o
      rw [answers, MapOp.answers, answer, ih hm]
  exact all ⟨h.get_empty, h.len_empty⟩

end MapOps

/-! ## Tables and hash maps -/

/-- A table is such a map. -/
def Table.mapOps (κ ν : Type) [BEq κ] : MapOps κ ν where
  Map := Table κ ν
  empty := Table.empty
  insert := Table.insert
  get := Table.find?
  remove t k := ((t.find? k).map fun v => (k, v), t.erase k)
  containsKey := Table.contains
  clear _ := Table.empty
  len := Table.size

theorem Table.isMap (κ ν : Type) [BEq κ] [LawfulBEq κ] :
    (mapOps κ ν).IsMap fun k l => k == l where
  get_empty _ := rfl
  get_insert (t : Table κ ν) k v l := by
    show (t.insert k v).find? l = if k == l then some v else t.find? l
    by_cases hk : k = l
    · simp [hk]
    · simp [hk, find?_insert_of_ne t v (Ne.symm hk)]
  get_remove (t : Table κ ν) k l := by
    show (t.erase k).find? l = if k == l then none else t.find? l
    by_cases hk : k = l
    · simp [hk]
    · simp [hk, find?_erase_of_ne t (Ne.symm hk)]
  get_clear _ _ := rfl
  removed (t : Table κ ν) k := by
    show ((t.find? k).map fun v => (k, v)).map Prod.snd = t.find? k
    simp
  containsKey _ _ := rfl
  len_empty := rfl
  len_insert (t : Table κ ν) k v := by
    show (t.insert k v).size = t.size + if (t.find? k).isSome then 0 else 1
    cases hk : t.find? k with
    | none => simp [size_insert_new v hk]
    | some w => simp [size_insert, size_erase (t := t) (k := k) (by simp [hk])]
  len_remove (t : Table κ ν) k := by
    show (t.erase k).size = t.size - if (t.find? k).isSome then 1 else 0
    cases hk : t.find? k with
    | none => simp [erase_eq_self hk]
    | some w => simp [← size_erase (t := t) (k := k) (by simp [hk])]
  len_clear _ := rfl

/-- A table of buckets, which are found by the hash of a key and searched with the test. -/
def hashMap {κ ν : Type} (eq : κ → κ → Bool) (hash : κ → UInt64) : MapOps κ ν :=
  let _ : BEq κ := ⟨eq⟩
  let _ : Hashable κ := ⟨hash⟩
  { Map := Std.HashMap κ ν
    empty := ∅
    insert := Std.HashMap.insert
    get := fun m k => m[k]?
    remove := fun m k => (m[k]?.map fun v => (k, v), m.erase k)
    containsKey := Std.HashMap.contains
    clear := fun _ => ∅
    len := Std.HashMap.size }

theorem hashMap_isMap {κ ν : Type} {eq : κ → κ → Bool} {hash : κ → UInt64}
    (lawful : LawfulHash eq hash) : (hashMap (ν := ν) eq hash).IsMap eq := by
  let _ : BEq κ := ⟨eq⟩
  let _ : Hashable κ := ⟨hash⟩
  have : EquivBEq κ := {
    rfl := lawful.equivalence.refl _
    symm := lawful.equivalence.symm
    trans := lawful.equivalence.trans }
  have : LawfulHashable κ := ⟨fun _ _ => lawful.hash_eq⟩
  have empty : (∅ : Std.HashMap κ ν).size = 0 := Std.HashMap.size_empty
  constructor
  · exact fun _ => Std.HashMap.getElem?_empty
  · exact fun _ _ _ _ => Std.HashMap.getElem?_insert
  · exact fun _ _ _ => Std.HashMap.getElem?_erase
  · exact fun _ _ => Std.HashMap.getElem?_empty
  · intro (m : Std.HashMap κ ν) k
    show (m[k]?.map fun v => (k, v)).map Prod.snd = m[k]?
    simp
  · exact fun _ _ => Std.HashMap.contains_eq_isSome_getElem?
  · exact empty
  · intro (m : Std.HashMap κ ν) k v
    show (m.insert k v).size = m.size + if m[k]?.isSome then 0 else 1
    simp only [Std.HashMap.size_insert, Std.HashMap.mem_iff_isSome_getElem?]
    split <;> rfl
  · intro (m : Std.HashMap κ ν) k
    show (m.erase k).size = m.size - if m[k]?.isSome then 1 else 0
    simp only [Std.HashMap.size_erase, Std.HashMap.mem_iff_isSome_getElem?]
    split <;> rfl
  · exact fun _ => empty

/-! ## Method keys -/

/-- Keys are what they are made of, and a map of them is indexed by that. `impl` makes a map of a
test and a hash. -/
structure KeyIdentity
    (impl : (MethodKey → MethodKey → Bool) → (MethodKey → UInt64) → MapOps MethodKey MethodId) :
    Prop where
  types : ∀ e e' : TypeExpr, e.beq e' = true ↔ e.Alike e'
  args : ∀ as bs : TypeArgs, as.beq bs = true ↔ as.Alike bs
  contexts : ∀ c d : Context, (c == d) = true ↔ c.Alike d
  keys : ∀ k l : MethodKey, k.beq l = true ↔ k.Alike l
  lawful_types : LawfulHash TypeExpr.beq TypeExpr.digest
  lawful_args : LawfulHash TypeArgs.beq TypeArgs.digest
  lawful_contexts : LawfulHash (fun c d : Context => c == d) Context.digest
  lawful_keys : LawfulHash MethodKey.beq MethodKey.digest
  /-- A list has the digest that its arguments give it, wherever it comes from. -/
  digest_of_args : ∀ as : TypeArgs, as.digest = Digest.ofList (as.toList.map TypeExpr.digest)
  digest_of_inflated : ∀ (as : TypeArgs) (c : Context),
    (as.inflate c).digest = (TypeArgs.ofList (as.toList.map (·.inflate c))).digest
  /-- Keys with one digest are still different if their definitions or their arguments are. -/
  apart : ∀ k l : MethodKey, k.digest = l.digest →
    k.definition ≠ l.definition ∨ ¬k.context.Alike l.context → k.beq l = false
  /-- A map that is made for the test and the digest of keys answers as a finite map, and so does
  the table. -/
  finite_map : ∀ os : List (MapOp MethodKey MethodId),
    let M := impl MethodKey.beq MethodKey.digest
    M.answers M.empty os = MapOp.answers [] os ∧
      (Table.mapOps MethodKey MethodId).answers {} os = MapOp.answers [] os

/-- Method keys are identified by their structure, and every map that is one for lawful tests and
hashes is a finite map of them. -/
theorem key_identity_structural
    (impl : (MethodKey → MethodKey → Bool) → (MethodKey → UInt64) → MapOps MethodKey MethodId)
    (correct : ∀ eq hash, LawfulHash eq hash → (impl eq hash).IsMap eq) : KeyIdentity impl where
  types _ _ := TypeExpr.beq_iff_alike
  args _ _ := TypeArgs.beq_iff_alike
  contexts _ _ := Context.beq_iff_alike
  keys _ _ := MethodKey.beq_iff_alike
  lawful_types := .of_iff TypeExpr.beq_iff _
  lawful_args := .of_iff TypeArgs.beq_iff _
  lawful_contexts := .of_iff beq_iff_eq _
  lawful_keys := .of_iff MethodKey.beq_iff _
  digest_of_args := TypeArgs.digest_eq
  digest_of_inflated := TypeArgs.digest_inflate
  apart k l _ h := by
    rw [Bool.eq_false_iff, ne_eq, MethodKey.beq_iff_alike]
    rintro ⟨definition, context⟩
    exact h.elim (· definition) (· context)
  finite_map os := by
    have lawful : LawfulHash MethodKey.beq MethodKey.digest := .of_iff MethodKey.beq_iff _
    constructor
    · exact (correct _ _ lawful).answers_eq MethodKey.beq_iff os
    · exact (Table.isMap MethodKey MethodId).answers_eq beq_iff_eq os

namespace Sample

/-- Two definitions that only differ in what identifies them. -/
def twins (n : Nat) : MethodKey where
  definition := { serial := n, token := default, name := "Twin", owner := default }
  context := ⟨none, some (.cons (.classVar 0) .nil)⟩

end Sample

/-- In a hash map, keys with one digest do not get in each other's way. -/
theorem key_identity_structural_hashMap :
    KeyIdentity hashMap ∧ (Sample.twins 0).digest = (Sample.twins 1).digest ∧
      (hashMap MethodKey.beq MethodKey.digest).answers
        (hashMap MethodKey.beq MethodKey.digest).empty
        [.add (Sample.twins 0) ⟨0⟩, .add (Sample.twins 1) ⟨1⟩, .tryGet (Sample.twins 0),
          .remove (Sample.twins 0), .contains (Sample.twins 1), .len] =
      ([.done, .done, .entry (some ⟨0⟩), .entry (some ⟨0⟩), .present true, .count 1] :
        List (MapAnswer MethodId)) := by
  have identity : KeyIdentity hashMap := key_identity_structural hashMap fun _ _ => hashMap_isMap
  refine ⟨identity, by decide +kernel, (identity.finite_map _).1.trans ?_⟩
  decide +kernel

end Monomorph
