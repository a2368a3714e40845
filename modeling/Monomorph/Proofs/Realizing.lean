import Mathlib.Logic.Relation
import Monomorph.Proofs.Registry

/-!
Instances and the classes realized for them. A type may be written as an instance or by the class
that has been made for it, also inside the arguments of other instances and of other classes
(`TypeExpr.Realizes`). Main statement: `realizing_keeps_depth_and_name`, neither the depth nor the
full name tells which has been done, so the nesting limit and the messages treat both alike.
-/

namespace Monomorph

/-! ## Putting classes in the place of instances -/

mutual

/-- The second class is the first one, with instances realized in the arguments it was made for. -/
inductive RuntimeClass.Realizes : RuntimeClass → RuntimeClass → Prop where
  | definition (d : TypeDef) : RuntimeClass.Realizes (.definition d) (.definition d)
  | realized {n n' : Nat} {c c' : RuntimeClass} {as as' : TypeArgs}
    (origin : RuntimeClass.Realizes c c') (args : TypeArgs.Realizes as as') :
    RuntimeClass.Realizes (.realized n c as) (.realized n' c' as')

/-- The second expression is the first one, with any number of the instances in it realized. -/
inductive TypeExpr.Realizes : TypeExpr → TypeExpr → Prop where
  | named {c c' : RuntimeClass} (h : RuntimeClass.Realizes c c') :
    TypeExpr.Realizes (.named c) (.named c')
  | classVar (n : UInt16) : TypeExpr.Realizes (.classVar n) (.classVar n)
  | methodVar (n : UInt16) : TypeExpr.Realizes (.methodVar n) (.methodVar n)
  | generic {c c' : RuntimeClass} {as as' : TypeArgs} (origin : RuntimeClass.Realizes c c')
    (args : TypeArgs.Realizes as as') : TypeExpr.Realizes (.generic c as) (.generic c' as')
  /-- The instance itself is realized, and perhaps others in its arguments. -/
  | realize (n : Nat) {c c' : RuntimeClass} {as as' : TypeArgs}
    (origin : RuntimeClass.Realizes c c') (args : TypeArgs.Realizes as as') :
    TypeExpr.Realizes (.generic c as) (.named (.realized n c' as'))
  | array {e e' : TypeExpr} (h : TypeExpr.Realizes e e') :
    TypeExpr.Realizes (.array e) (.array e')
  | byRef {e e' : TypeExpr} (h : TypeExpr.Realizes e e') :
    TypeExpr.Realizes (.byRef e) (.byRef e')
  | pointer {e e' : TypeExpr} (h : TypeExpr.Realizes e e') :
    TypeExpr.Realizes (.pointer e) (.pointer e')

inductive TypeArgs.Realizes : TypeArgs → TypeArgs → Prop where
  | nil : TypeArgs.Realizes .nil .nil
  | cons {e e' : TypeExpr} {as as' : TypeArgs} (first : TypeExpr.Realizes e e')
    (rest : TypeArgs.Realizes as as') : TypeArgs.Realizes (.cons e as) (.cons e' as')

end

mutual

theorem RuntimeClass.Realizes.refl : ∀ c : RuntimeClass, c.Realizes c
  | .definition d => .definition d
  | .realized _ c as => .realized (.refl c) (.refl as)

theorem TypeExpr.Realizes.refl : ∀ e : TypeExpr, e.Realizes e
  | .named c => .named (.refl c)
  | .classVar n => .classVar n
  | .methodVar n => .methodVar n
  | .generic c as => .generic (.refl c) (.refl as)
  | .array e => .array (.refl e)
  | .byRef e => .byRef (.refl e)
  | .pointer e => .pointer (.refl e)

theorem TypeArgs.Realizes.refl : ∀ as : TypeArgs, as.Realizes as
  | .nil => .nil
  | .cons e as => .cons (.refl e) (.refl as)

end

/-! ## Depth -/

mutual

theorem RuntimeClass.Realizes.depth_eq : ∀ {c c' : RuntimeClass}, c.Realizes c' → c'.depth = c.depth
  | _, _, .definition _ => rfl
  | _, _, .realized _ args => congrArg (1 + ·) args.maxDepth_eq

theorem TypeExpr.Realizes.depth_eq : ∀ {e e' : TypeExpr}, e.Realizes e' → e'.depth = e.depth
  | _, _, .named h => h.depth_eq
  | _, _, .classVar _ => rfl
  | _, _, .methodVar _ => rfl
  | _, _, .generic _ args => congrArg (1 + ·) args.maxDepth_eq
  | _, _, .realize _ _ args => congrArg (1 + ·) args.maxDepth_eq
  | _, _, .array h => h.depth_eq
  | _, _, .byRef h => h.depth_eq
  | _, _, .pointer h => h.depth_eq

theorem TypeArgs.Realizes.maxDepth_eq :
    ∀ {as as' : TypeArgs}, as.Realizes as' → as'.maxDepth = as.maxDepth
  | _, _, .nil => rfl
  | _, _, .cons first rest => congrArg₂ max first.depth_eq rest.maxDepth_eq

end

/-! ## Names -/

/-- Classes that go back to one definition have one name without their arguments. -/
theorem RuntimeClass.qualifiedName_eq {c c' : RuntimeClass} (h : c'.base = c.base) :
    c'.qualifiedName = c.qualifiedName := by
  unfold qualifiedName space name
  rw [h]

/-- Realizing changes arguments, and never the definition. -/
theorem RuntimeClass.Realizes.base_eq : ∀ {c c' : RuntimeClass}, c.Realizes c' → c'.base = c.base
  | _, _, .definition _ => rfl
  | _, _, .realized origin _ => origin.base_eq

/-- An instance and the class realized for it are named after their origin, and then by their
arguments. -/
theorem RuntimeClass.Realizes.bracketed_eq {c c' : RuntimeClass} {names names' : List String}
    (origin : c.Realizes c') (args : names' = names) :
    c'.qualifiedName ++ bracketed names' = c.qualifiedName ++ bracketed names := by
  rw [qualifiedName_eq origin.base_eq, args]

mutual

theorem RuntimeClass.Realizes.fullName_eq :
    ∀ {c c' : RuntimeClass}, c.Realizes c' → c'.fullName = c.fullName
  | _, _, .definition _ => rfl
  | _, _, .realized origin args => origin.bracketed_eq args.fullNames_eq

theorem TypeExpr.Realizes.fullName_eq :
    ∀ {e e' : TypeExpr}, e.Realizes e' → e'.fullName = e.fullName
  | _, _, .named h => h.fullName_eq
  | _, _, .classVar _ => rfl
  | _, _, .methodVar _ => rfl
  | _, _, .generic origin args => origin.bracketed_eq args.fullNames_eq
  | _, _, .realize _ origin args => origin.bracketed_eq args.fullNames_eq
  | _, _, .array h => congrArg (· ++ "[]") h.fullName_eq
  | _, _, .byRef h => congrArg (· ++ "&") h.fullName_eq
  | _, _, .pointer h => congrArg (· ++ "*") h.fullName_eq

theorem TypeArgs.Realizes.fullNames_eq :
    ∀ {as as' : TypeArgs}, as.Realizes as' → as'.fullNames = as.fullNames
  | _, _, .nil => rfl
  | _, _, .cons first rest => congrArg₂ List.cons first.fullName_eq rest.fullNames_eq

end

theorem TypeArgs.fullNames_eq_map (as : TypeArgs) :
    as.fullNames = as.toList.map TypeExpr.fullName := by
  induction as with
  | nil => rfl
  | cons e as ih => simp [fullNames, toList, ih]

/-! ## Keys -/

/-- Instances are realized in the arguments of the context. -/
structure Context.Realizes (c c' : Context) : Prop where
  classArgs : Option.Rel TypeArgs.Realizes c.classArgs c'.classArgs
  methodArgs : Option.Rel TypeArgs.Realizes c.methodArgs c'.methodArgs

/-- Instances are realized in the arguments of the key. -/
structure MethodKey.Realizes (k k' : MethodKey) : Prop where
  definition : k'.definition = k.definition
  context : k.context.Realizes k'.context

/-- The keys only differ in which of their arguments are realized. -/
def MethodKey.SameUnrealized : MethodKey → MethodKey → Prop :=
  Relation.EqvGen MethodKey.Realizes

section Keys

variable {o o' : Option TypeArgs} {k k' : MethodKey}

theorem TypeArgs.Realizes.option_depth_eq (h : Option.Rel TypeArgs.Realizes o o') :
    (o'.map TypeArgs.depth).getD 0 = (o.map TypeArgs.depth).getD 0 := by
  cases h with
  | none => rfl
  | some h => exact congrArg (1 + ·) h.maxDepth_eq

theorem TypeArgs.Realizes.argsName_eq (h : Option.Rel TypeArgs.Realizes o o') :
    NameFormatter.fullNames.argsName o' = NameFormatter.fullNames.argsName o := by
  cases h with
  | none => rfl
  | @some as as' h =>
    have names : as'.toList.map TypeExpr.fullName = as.toList.map TypeExpr.fullName := by
      rw [← as'.fullNames_eq_map, ← as.fullNames_eq_map, h.fullNames_eq]
    exact congrArg bracketed names

theorem MethodKey.Realizes.depth_eq (h : k.Realizes k') : k'.depth = k.depth := by
  unfold depth Context.depth
  rw [TypeArgs.Realizes.option_depth_eq h.context.classArgs,
    TypeArgs.Realizes.option_depth_eq h.context.methodArgs]

theorem MethodKey.Realizes.keyName_eq (h : k.Realizes k') :
    NameFormatter.fullNames.keyName k' = NameFormatter.fullNames.keyName k := by
  unfold NameFormatter.keyName
  rw [h.definition, TypeArgs.Realizes.argsName_eq h.context.classArgs,
    TypeArgs.Realizes.argsName_eq h.context.methodArgs]

/-- What realizing leaves alone is the same for all keys that differ in nothing else. -/
theorem MethodKey.SameUnrealized.eq {α : Type} {f : MethodKey → α}
    (kept : ∀ {k k'}, Realizes k k' → f k' = f k) (h : k.SameUnrealized k') : f k' = f k := by
  induction h with
  | rel _ _ h => exact kept h
  | refl => rfl
  | symm _ _ _ ih => exact ih.symm
  | trans _ _ _ _ _ ih ih' => exact ih'.trans ih

end Keys

/-- Whether instances have been realized does not show in depths and names. -/
structure RealizingUnseen : Prop where
  depths : ∀ e e' : TypeExpr, e.Realizes e' → e'.depth = e.depth
  names : ∀ e e' : TypeExpr, e.Realizes e' →
    NameFormatter.fullNames.typeName e' = NameFormatter.fullNames.typeName e
  /-- Keys are on the same side of every limit. -/
  limits : ∀ k k' : MethodKey, k.SameUnrealized k' → ∀ p : Policy,
    p.exceeds k'.depth = p.exceeds k.depth
  keyNames : ∀ k k' : MethodKey, k.SameUnrealized k' →
    NameFormatter.fullNames.keyName k' = NameFormatter.fullNames.keyName k
  /-- So the class that a registry has given for an instance can stand in its place. -/
  given : ∀ past c as k, ClassRegistry.Gave past c as k →
    (TypeExpr.generic c as).Realizes (.named k)

theorem realizing_keeps_depth_and_name : RealizingUnseen where
  depths _ _ h := h.depth_eq
  names _ _ h := h.fullName_eq
  limits _ _ h p := h.eq fun realizes => congrArg p.exceeds realizes.depth_eq
  keyNames _ _ h := h.eq MethodKey.Realizes.keyName_eq
  given past c as k gave := by
    obtain ⟨n, rfl, -⟩ := gave.exists_serial
    exact .realize n (.refl c) (.refl as)

namespace Sample

/-- A cell of the argument, realized with the number if there is one. -/
def cellOf (n : Option Nat) (e : TypeExpr) : TypeExpr :=
  match n with
  | none => .generic (.definition cell) (.cons e .nil)
  | some n => .named (.realized n (.definition cell) (.cons e .nil))

/-- Three cells, one beneath an array, each realized or not. -/
def nestedCells (n₁ n₂ n₃ : Option Nat) : TypeExpr :=
  cellOf n₁ (.array (cellOf n₂ (cellOf n₃ (.methodVar 0))))

def nestedKey (n₁ n₂ n₃ : Option Nat) : MethodKey where
  definition := read
  context := ⟨some (.cons (nestedCells n₁ n₂ n₃) .nil), none⟩

theorem nestedCells_realizes {n₁ n₂ n₃ : Option Nat} :
    (nestedCells none none none).Realizes (nestedCells n₁ n₂ n₃) := by
  have cell : ∀ {n : Option Nat} {e e' : TypeExpr}, e.Realizes e' →
      (cellOf none e).Realizes (cellOf n e') := by
    intro n e e' h
    cases n with
    | none => exact .generic (.definition _) (.cons h .nil)
    | some n => exact .realize n (.definition _) (.cons h .nil)
  exact cell (.array (cell (cell (.methodVar 0))))

theorem nestedKey_realizes {n₁ n₂ n₃ : Option Nat} :
    (nestedKey none none none).Realizes (nestedKey n₁ n₂ n₃) :=
  ⟨rfl, .some (.cons nestedCells_realizes .nil), .none⟩

end Sample

/-- Two keys with different instances realized, neither of which comes from the other. Both exceed
a limit of three levels. -/
theorem realizing_keeps_depth_and_name_nested :
    (Sample.nestedKey (some 0) none none).depth = 4 ∧
      Policy.exceeds { maxNesting := 3 } (Sample.nestedKey none (some 1) (some 2)).depth = true ∧
      NameFormatter.fullNames.keyName (Sample.nestedKey none (some 1) (some 2)) =
        NameFormatter.fullNames.keyName (Sample.nestedKey (some 0) none none) := by
  have same : (Sample.nestedKey (some 0) none none).SameUnrealized
      (Sample.nestedKey none (some 1) (some 2)) :=
    .trans _ _ _ (.symm _ _ (.rel _ _ Sample.nestedKey_realizes))
      (.rel _ _ Sample.nestedKey_realizes)
  refine ⟨rfl, ?_, realizing_keeps_depth_and_name.keyNames _ _ same⟩
  rw [realizing_keeps_depth_and_name.limits _ _ same]
  rfl

end Monomorph
