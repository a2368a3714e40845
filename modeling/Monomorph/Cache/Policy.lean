/-!
What a cache checks before it builds an instance.
-/

namespace Monomorph

structure Policy where
  /-- Deeper instantiations are answered with a placeholder. -/
  maxNesting : Nat := 7
  /-- Compare the number of method arguments with the definition. -/
  validateKeys : Bool := true
  deriving DecidableEq, Inhabited

namespace Policy

/-- Trusts the keys, which come from metadata that has been verified. -/
def production : Policy := { validateKeys := false }

/-- No limit that a 64-bit depth could exceed. -/
def unbounded : Policy := { maxNesting := UInt64.size - 1 }

/-- The limit itself is still allowed. -/
def exceeds (p : Policy) (depth : Nat) : Bool := p.maxNesting < depth

end Policy

end Monomorph
