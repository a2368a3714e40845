import Monomorph.Method.Dispatch

/-!
Counters of a cache. Each request that ends is counted once, by the way it ended.
-/

namespace Monomorph

/-- The ways of ending that are counted. -/
inductive Outcome where
  /-- A descriptor was built, with the given kind of dispatch. -/
  | inflated (k : DispatchKind)
  /-- Found before the lock was taken. -/
  | fastHit
  /-- Found under the lock. -/
  | recheckHit
  /-- Answered with a descriptor under construction. -/
  | recursionHit
  /-- The declaring class could not be realized. -/
  | failure
  /-- Answered with the placeholder. -/
  | degenerate
  deriving DecidableEq

structure Counters where
  inflated : Nat := 0
  fastHits : Nat := 0
  recheckHits : Nat := 0
  recursionHits : Nat := 0
  failures : Nat := 0
  degenerate : Nat := 0
  /-- How many of the descriptors built have each kind of dispatch. -/
  byKind : DispatchKind → Nat := fun _ => 0

namespace Counters

instance : Inhabited Counters := ⟨{}⟩

def record (c : Counters) : Outcome → Counters
  | .inflated k =>
    { c with
      inflated := c.inflated + 1
      byKind := fun l => if l = k then c.byKind l + 1 else c.byKind l }
  | .fastHit => { c with fastHits := c.fastHits + 1 }
  | .recheckHit => { c with recheckHits := c.recheckHits + 1 }
  | .recursionHit => { c with recursionHits := c.recursionHits + 1 }
  | .failure => { c with failures := c.failures + 1 }
  | .degenerate => { c with degenerate := c.degenerate + 1 }

end Counters

/-- The counters at one moment. -/
structure CountersSnapshot where
  inflated : Nat
  fastHits : Nat
  recheckHits : Nat
  recursionHits : Nat
  failures : Nat
  degenerate : Nat
  dispatch : List (DispatchKind × Nat)
  deriving DecidableEq

def Counters.snapshot (c : Counters) : CountersSnapshot where
  inflated := c.inflated
  fastHits := c.fastHits
  recheckHits := c.recheckHits
  recursionHits := c.recursionHits
  failures := c.failures
  degenerate := c.degenerate
  dispatch := DispatchKind.all.map fun k => (k, c.byKind k)

/-- The count of a kind, zero if it is not listed. -/
def CountersSnapshot.dispatchCount (s : CountersSnapshot) (k : DispatchKind) : Nat :=
  ((s.dispatch.find? fun e => e.1 == k).map Prod.snd).getD 0

end Monomorph
