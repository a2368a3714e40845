/-!
The metadata lock. All construction happens under it; the thread that holds it may take it again,
and it is free once every hold has been given back.
-/

namespace Monomorph

abbrev ThreadId := Nat

inductive MetadataLock where
  | free
  /-- Held once by `owner`, and `more` times on top of that. -/
  | held (owner : ThreadId) (more : Nat)
  deriving DecidableEq, Inhabited

namespace MetadataLock

/-- A thread that takes the lock now does not have to wait. -/
def isAvailable (t : ThreadId) : MetadataLock → Bool
  | free => true
  | held o _ => o == t

/-- Takes the lock; meant for a thread to which it is available. -/
def acquire (t : ThreadId) : MetadataLock → MetadataLock
  | free => held t 0
  | held o n => held o (n + 1)

/-- Gives back one hold. -/
def release : MetadataLock → MetadataLock
  | free => free
  | held _ 0 => free
  | held o (n + 1) => held o n

def isLocked : MetadataLock → Bool
  | free => false
  | held _ _ => true

/-- How many holds a thread has. -/
def holds (t : ThreadId) : MetadataLock → Nat
  | free => 0
  | held o n => if o = t then n + 1 else 0

def isHeldBy (t : ThreadId) (l : MetadataLock) : Bool := l.holds t != 0

variable {l : MetadataLock} {t u : ThreadId}

/-- At most one thread holds the lock. -/
theorem exists_holder (l : MetadataLock) : ∃ t, ∀ u, u ≠ t → l.holds u = 0 := by
  cases l with
  | free => exact ⟨0, fun _ _ => rfl⟩
  | held o n => exact ⟨o, fun u hu => by simp [holds, hu.symm]⟩

/-- Two threads never hold the lock at the same time. -/
theorem holds_eq_zero_of_ne (h : l.holds t ≠ 0) (hu : u ≠ t) : l.holds u = 0 := by
  cases l with
  | free => rfl
  | held o n =>
    have ho : o = t := by simpa [holds] using h
    simp [holds, ho, hu.symm]

/-- A thread that holds the lock may take it again. -/
theorem isAvailable_of_holds (h : l.holds t ≠ 0) : l.isAvailable t = true := by
  cases l with
  | free => rfl
  | held o n =>
    have ho : o = t := by simpa [holds] using h
    simp [isAvailable, ho]

theorem isAvailable_acquire (h : l.isAvailable t = true) :
    (l.acquire t).isAvailable t = true := by
  cases l with
  | free => simp [acquire, isAvailable]
  | held o n => exact h

theorem isAvailable_release (h : l.isAvailable t = true) : l.release.isAvailable t = true := by
  cases l with
  | free => rfl
  | held o n =>
    cases n with
    | zero => rfl
    | succ n => exact h

/-- Giving back a hold takes back its taking. -/
@[simp] theorem release_acquire (l : MetadataLock) (t : ThreadId) : (l.acquire t).release = l := by
  cases l <;> rfl

theorem holds_acquire_self (h : l.isAvailable t = true) :
    (l.acquire t).holds t = l.holds t + 1 := by
  cases l with
  | free => simp [acquire, holds]
  | held o n =>
    have ho : o = t := by simpa [isAvailable] using h
    simp [acquire, holds, ho]

theorem holds_acquire_of_ne (h : l.isAvailable t = true) (hu : u ≠ t) :
    (l.acquire t).holds u = l.holds u := by
  cases l with
  | free => simp [acquire, holds, hu.symm]
  | held o n =>
    have ho : o = t := by simpa [isAvailable] using h
    simp [acquire, holds, ho, hu.symm]

theorem holds_release_self (h : l.holds t ≠ 0) : l.release.holds t + 1 = l.holds t := by
  cases l with
  | free => exact absurd rfl h
  | held o n =>
    by_cases ho : o = t
    · cases n <;> simp [release, holds, ho]
    · simp [holds, ho] at h

theorem holds_release_of_ne (h : l.holds t ≠ 0) (hu : u ≠ t) :
    l.release.holds u = l.holds u := by
  rw [holds_eq_zero_of_ne h hu]
  cases l with
  | free => rfl
  | held o n =>
    have ho : o ≠ u := by
      rintro rfl
      simp [holds, hu] at h
    cases n <;> simp [release, holds, ho]

end MetadataLock

end Monomorph
