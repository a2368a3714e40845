import Monomorph.Cache.Counters
import Monomorph.Cache.Lock
import Monomorph.Event
import Monomorph.Method.Descriptor

/-!
The state that requests work on: the cache itself, the descriptors allocated so far, the metadata
lock, and the events reported.
-/

namespace Monomorph

/-- Descriptors by key. -/
abbrev InstantiationMap := Table MethodKey MethodId

structure Cache where
  /-- The instances that are complete. -/
  methods : InstantiationMap := {}
  /-- The instances under construction. -/
  pending : InstantiationMap := {}
  counters : Counters := {}

namespace Cache

instance : Inhabited Cache := ⟨{}⟩

/-- Forgets every instance. The counters go on. -/
def reset (c : Cache) : Cache := { c with methods := {}, pending := {} }

end Cache

/-- The descriptors, and the serial number of the next copy of a key. -/
structure Store where
  descriptors : Array Descriptor := #[]
  nextKey : Nat := 0
  deriving Inhabited

namespace Store

def get? (s : Store) (m : MethodId) : Option Descriptor := s.descriptors[m.index]?

/-- The descriptor allocated next has this place. -/
def next (s : Store) : MethodId := ⟨s.descriptors.size⟩

def allocate (s : Store) (d : Descriptor) : Store :=
  { s with descriptors := s.descriptors.push d }

/-- Completes a descriptor; one that is complete already stays as it is. -/
def publish (s : Store) (m : MethodId) (r : Realization) : Except Error Store := do
  match s.get? m with
  | some d =>
    let complete ← d.publish r
    return { s with descriptors := s.descriptors.setIfInBounds m.index complete }
  | none => return s

/-- A copy of a key of its own. -/
def copyKey (s : Store) (k : MethodKey) : KeyHandle × Store :=
  (⟨s.nextKey, k⟩, { s with nextKey := s.nextKey + 1 })

variable {s s' : Store} {m : MethodId} {d : Descriptor} {r : Realization}

@[simp] theorem get?_allocate_next (s : Store) (d : Descriptor) :
    (s.allocate d).get? s.next = some d := by
  simp [get?, allocate, next]

/-- The descriptor allocated next is not there yet. -/
theorem ne_next (h : s.get? m = some d) : m ≠ s.next := by
  rintro rfl
  simp [get?, next] at h

theorem get?_allocate_of_some {d' : Descriptor} (h : s.get? m = some d) :
    (s.allocate d').get? m = some d := by
  obtain ⟨hm, hd⟩ := Array.getElem?_eq_some_iff.1 h
  simp [get?, allocate, Array.getElem?_push, Nat.ne_of_lt hm, ← hd, hm]

/-- A descriptor is published once, and no other changes with it. -/
theorem publish_eq_ok (h : s.publish m r = .ok s') :
    (∀ n, n ≠ m → s'.get? n = s.get? n) ∧
      (s.get? m = none ∧ s'.get? m = none ∨ ∃ d, s.get? m = some d ∧ d.realization = none ∧
        s'.get? m = some { d with realization := some r }) := by
  unfold publish at h
  split at h
  · next d hd =>
    unfold Descriptor.publish at h
    split at h
    · next hr =>
      cases h
      obtain ⟨hm, -⟩ := Array.getElem?_eq_some_iff.1 hd
      refine ⟨fun n hn => ?_, .inr ⟨d, hd, hr, ?_⟩⟩
      · have hi : m.index ≠ n.index := fun hi => hn (congrArg MethodId.mk hi.symm)
        simp [get?, hi]
      · simp [get?, hm]
    · cases h
  · next hd =>
    cases h
    exact ⟨fun n _ => rfl, .inl ⟨hd, hd⟩⟩

/-- Only a complete descriptor cannot be published. -/
theorem publish_eq_error {e : Error} (h : s.publish m r = .error e) :
    ∃ d r', s.get? m = some d ∧ d.realization = some r' ∧ e = .alreadyRealized d.token := by
  unfold publish at h
  split at h
  · next d hd =>
    unfold Descriptor.publish at h
    split at h
    · cases h
    · next r' hr =>
      cases h
      exact ⟨d, r', hd, hr, rfl⟩
  · cases h

end Store

structure State where
  cache : Cache := {}
  store : Store := {}
  lock : MetadataLock := .free
  /-- Oldest first. -/
  events : List Event := []

instance : Inhabited State := ⟨{}⟩

end Monomorph
