import Monomorph.Method.Descriptor

/-!
The questions that the construction of a method puts to the rest of the runtime: to the class
registry, the inflater, the images, the tables of native code and the interpreter. Whoever answers
may issue requests of its own before it does.
-/

namespace Monomorph

/-- A construction in progress: the key that it stores, and the descriptor it has allocated. -/
structure Construction where
  key : KeyHandle
  method : MethodId
  deriving DecidableEq

/-- How a request ends. -/
abbrev MethodResult := Except Error MethodId

inductive Query where
  | realizeClass (c : RuntimeClass) (as : TypeArgs)
  | inflateType (e : TypeExpr) (c : Context)
  | inflateParameters (ps : List Parameter) (c : Context)
  | contextData (i : ImageHandle) (t : Token) (c : Context)
  | nativeInvoker (m : MethodDef) (c : Context)
  | nativePointer (m : MethodDef) (c : Context) (preferDirect allowSharing : Bool)
  /-- Whether the interpreter runs all of the method's image. -/
  | isInterpreted (p : PendingMethod)
  /-- Whether the interpreter implements this method of an image that is otherwise compiled. -/
  | isImplemented (p : PendingMethod)
  | interpreterInvoker (p : PendingMethod)
  | interpreterEntry (p : PendingMethod)
  | interpreterThunk (p : PendingMethod)

namespace Query

/-- What an answer to a question is. -/
abbrev Answer : Query → Type
  | realizeClass _ _ => Except Error RuntimeClass
  | inflateType _ _ => TypeExpr
  | inflateParameters _ _ => List Parameter
  | contextData _ _ _ => Option ContextData
  | nativeInvoker _ _ => Option InvokerPointer
  | nativePointer _ _ _ _ => Option MethodPointer
  | isInterpreted _ => Bool
  | isImplemented _ => Bool
  | interpreterInvoker _ => Option InvokerPointer
  | interpreterEntry _ => Option MethodPointer
  | interpreterThunk _ => Option MethodPointer

end Query

end Monomorph
