import Monomorph.Error
import Monomorph.Method.Dispatch
import Monomorph.Naming

/-!
Events that a cache and its collaborators report while they work.
-/

namespace Monomorph

inductive Severity where
  | trace
  | debug
  | warn
  deriving DecidableEq

def Severity.text : Severity → String
  | trace => "TRACE"
  | debug => "DEBUG"
  | warn => "WARN"

inductive Event where
  | cacheHit (t : Token)
  /-- The key is named only where the event is shown. -/
  | nestingLimitExceeded (names : NameFormatter) (k : MethodKey) (limit : Nat)
  | pendingReturned
  | realizationFailed (method : String) (e : Error)
  | inflated (k : DispatchKind)
  /-- The interpreter claims a method and gives no entry for it. -/
  | entryMissing (t : Token)
  /-- The interpreter gives no thunk where vtable calls need one. -/
  | thunkMissing (t : Token)
  | classRealized (c : RuntimeClass) (as : TypeArgs)

namespace Event

def severity : Event → Severity
  | cacheHit _ => .trace
  | nestingLimitExceeded _ _ _ => .warn
  | pendingReturned => .debug
  | realizationFailed _ _ => .warn
  | inflated _ => .debug
  | entryMissing _ => .warn
  | thunkMissing _ => .warn
  | classRealized _ _ => .trace

def message : Event → String
  | cacheHit _ => "generic method cache hit"
  | nestingLimitExceeded _ _ _ => "generic method nesting limit exceeded"
  | pendingReturned => "returning pending generic method to recursive request"
  | realizationFailed _ _ => "unable to realize declaring type"
  | inflated _ => "inflated generic method"
  | entryMissing _ => "interpreter claimed method without providing an entry point"
  | thunkMissing _ => "no adjustor thunk for interpreted value-type instance method"
  | classRealized _ _ => "realized generic class"

/-- The details of an event, by name. -/
def fields : Event → List (String × String)
  | cacheHit t => [("token", t.text)]
  | nestingLimitExceeded names k limit =>
    [("method", names.keyName k), ("depth", toString k.depth), ("limit", toString limit)]
  | pendingReturned => []
  | realizationFailed method e => [("method", method), ("error", e.message)]
  | inflated k => [("dispatch", k.text)]
  | entryMissing t => [("token", t.text)]
  | thunkMissing t => [("token", t.text)]
  | classRealized c as => [("definition", c.qualifiedName), ("args", as.text)]

end Event

end Monomorph
