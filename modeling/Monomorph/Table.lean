/-!
Finite tables. A table keeps each key at most once, `find?` is its view, and inserting under a key
that is present replaces what was there.
-/

namespace Monomorph

structure Table (κ ν : Type) [BEq κ] where
  entries : List (κ × ν) := []
  /-- No entry's key occurs again further down. -/
  keys_pairwise : entries.Pairwise fun a b => (a.1 == b.1) = false := by exact List.Pairwise.nil

namespace Table

variable {κ ν : Type} [BEq κ]

def empty : Table κ ν := {}

instance : Inhabited (Table κ ν) := ⟨empty⟩

def find? (t : Table κ ν) (k : κ) : Option ν :=
  (t.entries.find? fun e => k == e.1).map Prod.snd

def contains (t : Table κ ν) (k : κ) : Bool := (t.find? k).isSome

def erase (t : Table κ ν) (k : κ) : Table κ ν where
  entries := t.entries.filter fun e => !(k == e.1)
  keys_pairwise := t.keys_pairwise.filter _

def insert (t : Table κ ν) (k : κ) (v : ν) : Table κ ν where
  entries := (k, v) :: (t.erase k).entries
  keys_pairwise := List.pairwise_cons.2
    ⟨fun e he => by simpa [erase] using (List.mem_filter.1 he).2, (t.erase k).keys_pairwise⟩

def size (t : Table κ ν) : Nat := t.entries.length

def isEmpty (t : Table κ ν) : Bool := t.entries.isEmpty

@[ext] theorem ext {t u : Table κ ν} (h : t.entries = u.entries) : t = u := by
  cases t; cases u; congr

theorem size_insert (t : Table κ ν) (k : κ) (v : ν) :
    (t.insert k v).size = (t.erase k).size + 1 := rfl

variable [LawfulBEq κ]

@[simp] theorem find?_insert_self (t : Table κ ν) (k : κ) (v : ν) :
    (t.insert k v).find? k = some v := by
  simp [find?, insert]

@[simp] theorem find?_erase_self (t : Table κ ν) (k : κ) : (t.erase k).find? k = none := by
  simp [find?, erase]

theorem find?_erase_of_ne (t : Table κ ν) {k l : κ} (h : l ≠ k) :
    (t.erase k).find? l = t.find? l := by
  simp only [find?, erase, List.find?_filter]
  congr 2
  funext e
  by_cases he : l = e.1
  · subst he
    simp [Ne.symm h]
  · simp [he]

theorem find?_insert_of_ne (t : Table κ ν) {k l : κ} (v : ν) (h : l ≠ k) :
    (t.insert k v).find? l = t.find? l := by
  rw [← find?_erase_of_ne t h]
  simp [find?, insert, h]

theorem find?_eq_none_iff {t : Table κ ν} {k : κ} :
    t.find? k = none ↔ ∀ e ∈ t.entries, e.1 ≠ k := by
  simp only [find?, Option.map_eq_none_iff, List.find?_eq_none, beq_iff_eq]
  exact ⟨fun h e he => Ne.symm (h e he), fun h e he => Ne.symm (h e he)⟩

/-- Erasing a key that is not there changes nothing. -/
theorem erase_eq_self {t : Table κ ν} {k : κ} (h : t.find? k = none) : t.erase k = t := by
  apply ext
  simp only [erase, List.filter_eq_self]
  intro e he
  simpa using (find?_eq_none_iff.1 h e he).symm

/-- A new key comes first. -/
theorem entries_insert_new {t : Table κ ν} {k : κ} (v : ν) (h : t.find? k = none) :
    (t.insert k v).entries = (k, v) :: t.entries := by
  simp [insert, erase_eq_self h]

/-- Erasing the first key leaves the other entries as they are. -/
theorem entries_erase_head {t : Table κ ν} {k : κ} {v : ν} {es : List (κ × ν)}
    (h : t.entries = (k, v) :: es) : (t.erase k).entries = es := by
  have hd := t.keys_pairwise
  rw [h] at hd
  have hk := (List.pairwise_cons.1 hd).1
  simp only [erase, h, List.filter_cons, BEq.rfl, Bool.not_true, Bool.false_eq_true, if_false,
    List.filter_eq_self]
  intro e he
  simpa using hk e he

theorem mem_entries_of_find? {t : Table κ ν} {k : κ} {v : ν} (h : t.find? k = some v) :
    (k, v) ∈ t.entries := by
  obtain ⟨e, he, rfl⟩ := Option.map_eq_some_iff.1 h
  obtain rfl : k = e.1 := by simpa using List.find?_some he
  exact List.mem_of_find?_eq_some he

theorem find?_of_mem_entries {t : Table κ ν} {k : κ} {v : ν} (h : (k, v) ∈ t.entries) :
    t.find? k = some v := by
  obtain ⟨es, keys_pairwise⟩ := t
  induction es with
  | nil => cases h
  | cons e es ih =>
    obtain ⟨first, rest⟩ := List.pairwise_cons.1 keys_pairwise
    rcases List.mem_cons.1 h with rfl | h
    · simp [find?]
    · have hk : k ≠ e.1 := Ne.symm (by simpa using first _ h)
      simpa [find?, hk] using ih rest h

theorem nodup_keys (t : Table κ ν) : (t.entries.map Prod.fst).Nodup := by
  rw [List.nodup_iff_pairwise_ne, List.pairwise_map]
  exact t.keys_pairwise.imp fun hne => by simpa using hne

/-- Erasing a key that is there takes one entry away. -/
theorem size_erase {t : Table κ ν} {k : κ} (h : t.find? k ≠ none) :
    (t.erase k).size + 1 = t.size := by
  obtain ⟨es, keys_pairwise⟩ := t
  induction es with
  | nil => exact absurd rfl h
  | cons e es ih =>
    obtain ⟨first, rest⟩ := List.pairwise_cons.1 keys_pairwise
    by_cases hk : k = e.1
    · subst hk
      have none : (⟨es, rest⟩ : Table κ ν).find? e.1 = none :=
        find?_eq_none_iff.2 fun e' he => Ne.symm (by simpa using first e' he)
      have same := congrArg entries (erase_eq_self none)
      simp only [erase] at same
      simp [size, erase, same]
    · have found : (⟨es, rest⟩ : Table κ ν).find? k ≠ none := by simpa [find?, hk] using h
      simpa [size, erase, hk] using ih rest found

theorem size_insert_new {t : Table κ ν} {k : κ} (v : ν) (h : t.find? k = none) :
    (t.insert k v).size = t.size + 1 := by
  simp [size, insert, erase_eq_self h]

end Table

end Monomorph
