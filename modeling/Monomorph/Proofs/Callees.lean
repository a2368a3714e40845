import Mathlib.Data.List.MinMax
import Monomorph.Proofs.Depth
import Monomorph.Proofs.Replay
import Monomorph.Proofs.Substitution
import Monomorph.RuntimeContext

/-!
Depth under inflation. Arguments are put in for parameters, which have no depth of their own, so an
expression becomes no shallower, and deeper by no more than the deepest argument. The same holds of
the keys in runtime context data, and so of all that a key reaches by way of callees. Main
statement: `callees_bounded`.
-/

namespace Monomorph

/-! ## Expressions and lists -/

section Substitution

variable {σ : TypeVar → TypeExpr} {as : TypeArgs} {n : Nat}

theorem TypeArgs.depth_le_maxDepth {e : TypeExpr} (he : e ∈ as.toList) : e.depth ≤ as.maxDepth :=
  maxDepth_le_iff.1 le_rfl e he

theorem TypeArgs.le_maxDepth_substitute
    (each : ∀ e ∈ as.toList, e.depth ≤ (e.substitute σ).depth) :
    as.maxDepth ≤ (as.substitute σ).maxDepth := by
  refine maxDepth_le_iff.2 fun e he => (each e he).trans (depth_le_maxDepth ?_)
  rw [toList_substitute]
  exact List.mem_map_of_mem he

theorem TypeArgs.maxDepth_substitute_le
    (each : ∀ e ∈ as.toList, (e.substitute σ).depth ≤ e.depth + n) :
    (as.substitute σ).maxDepth ≤ as.maxDepth + n := by
  refine maxDepth_le_iff.2 fun e he => ?_
  rw [toList_substitute] at he
  obtain ⟨e, member, rfl⟩ := List.mem_map.1 he
  exact (each e member).trans (Nat.add_le_add_right (depth_le_maxDepth member) n)

/-- A parameter has no depth, so nothing becomes shallower. -/
theorem TypeExpr.le_depth_substitute (e : TypeExpr) (σ : TypeVar → TypeExpr) :
    e.depth ≤ (e.substitute σ).depth := by
  induction e using TypeExpr.induct with
  | named => exact le_rfl
  | classVar | methodVar => exact Nat.zero_le _
  | generic k as ih => exact Nat.add_le_add_left (TypeArgs.le_maxDepth_substitute ih) 1
  | array e ih | byRef e ih | pointer e ih => exact ih

theorem TypeExpr.depth_substitute_le (e : TypeExpr) (h : ∀ v, (σ v).depth ≤ n) :
    (e.substitute σ).depth ≤ e.depth + n := by
  induction e using TypeExpr.induct with
  | named k => exact Nat.le_add_right _ n
  | classVar | methodVar => exact (h _).trans (Nat.le_add_left n 0)
  | generic k as ih =>
    have args : 1 + (as.substitute σ).maxDepth ≤ 1 + (as.maxDepth + n) :=
      Nat.add_le_add_left (TypeArgs.maxDepth_substitute_le ih) 1
    exact args.trans_eq (Nat.add_assoc 1 as.maxDepth n).symm
  | array e ih | byRef e ih | pointer e ih => exact ih

end Substitution

/-! ## Contexts -/

namespace Context

/-- The depth of the deepest single argument, zero if there is none. -/
def argDepth (c : Context) : Nat := (TypeArgs.ofList c.args).maxDepth

variable {c : Context} {e : TypeExpr}

theorem argDepth_le_iff {n : Nat} : c.argDepth ≤ n ↔ ∀ e ∈ c.args, e.depth ≤ n := by
  rw [argDepth, TypeArgs.maxDepth_le_iff, TypeArgs.toList_ofList]

theorem depth_assign_le (c : Context) (v : TypeVar) : (c.assign v).depth ≤ c.argDepth := by
  cases h : c.arg? v with
  | some e =>
    rw [assign_of_some h]
    exact argDepth_le_iff.1 le_rfl e (mem_args_of_arg? h)
  | none =>
    rw [assign_of_none h]
    cases v <;> exact Nat.zero_le _

/-- The lists of a context are one level above its arguments. -/
theorem argDepth_le (c : Context) : c.argDepth ≤ c.depth - 1 := by
  refine argDepth_le_iff.2 fun e he => ?_
  obtain ⟨as, own, member⟩ := mem_args_iff.1 he
  have arg : e.depth ≤ as.maxDepth := TypeArgs.depth_le_maxDepth member
  have list : 1 + as.maxDepth ≤ c.depth := by
    rcases own with has | has
    · exact (argsDepth_le_iff.1 le_rfl as has).trans (Nat.le_max_left _ _)
    · exact (argsDepth_le_iff.1 le_rfl as has).trans (Nat.le_max_right _ _)
  omega

end Context

/-- Inflation adds no more to the depth than the context's arguments have. -/
theorem TypeExpr.depth_inflate (e : TypeExpr) (c : Context) :
    e.depth ≤ (e.inflate c).depth ∧ (e.inflate c).depth ≤ e.depth + c.argDepth := by
  rw [e.inflate_eq_substitute c]
  exact ⟨e.le_depth_substitute c.assign, e.depth_substitute_le c.depth_assign_le⟩

theorem TypeArgs.depth_inflate (as : TypeArgs) (c : Context) :
    as.depth ≤ (as.inflate c).depth ∧ (as.inflate c).depth ≤ as.depth + c.argDepth := by
  have lower : as.maxDepth ≤ (as.substitute c.assign).maxDepth :=
    le_maxDepth_substitute fun e _ => e.le_depth_substitute c.assign
  have upper : (as.substitute c.assign).maxDepth ≤ as.maxDepth + c.argDepth :=
    maxDepth_substitute_le fun e _ => e.depth_substitute_le c.depth_assign_le
  rw [as.inflate_eq_substitute c]
  unfold depth
  omega

theorem TypeArgs.depth_inflate_option (o : Option TypeArgs) (c : Context) :
    (o.map depth).getD 0 ≤ ((o.map (·.inflate c)).map depth).getD 0 ∧
      ((o.map (·.inflate c)).map depth).getD 0 ≤ (o.map depth).getD 0 + c.argDepth := by
  cases o with
  | none => exact ⟨le_rfl, Nat.zero_le _⟩
  | some as => exact as.depth_inflate c

theorem Context.depth_inflate (o c : Context) :
    o.depth ≤ (o.inflate c).depth ∧ (o.inflate c).depth ≤ o.depth + c.argDepth := by
  obtain ⟨classLower, classUpper⟩ := TypeArgs.depth_inflate_option o.classArgs c
  obtain ⟨methodLower, methodUpper⟩ := TypeArgs.depth_inflate_option o.methodArgs c
  simp only [depth, inflate]
  omega

/-! ## Callees -/

/-- The depth of the callee in a slot, as it is laid out. -/
def ContextSlot.calleeDepth : ContextSlot → Nat
  | .typeHandle _ => 0
  | .classHandle _ => 0
  | .callee _ o => o.depth

/-- The depth of the deepest callee in the layout of a method. -/
def Layouts.calleeDepth (l : Layouts) (t : Token) : Nat :=
  (((l.layout? t).getD []).map ContextSlot.calleeDepth).foldr max 0

theorem Layouts.getElem?_resolve {l : Layouts} {t : Token} {layout : List ContextSlot} (c : Context)
    (laid : l.layout? t = some layout) :
    ∃ data : ContextData, l.resolve t c = some data ∧
      ∀ n : Nat, data[n]? = layout[n]?.map (·.inflate c) := by
  refine ⟨layout.map (·.inflate c), ?_, fun n => List.getElem?_map⟩
  rw [resolve, laid]
  rfl

namespace MethodKey

variable (images : ImageHandle → Layouts)

/-- The runtime context data of the first key, by the layouts of the images, has the second. -/
def Calls (k k' : MethodKey) : Prop :=
  ∃ i data, k.definition.image = some i ∧
    (images i).resolve k.definition.token k.context = some data ∧ .callee k' ∈ data

/-- The depth of the layout for the method of a key. -/
def layoutDepth (k : MethodKey) : Nat :=
  (k.definition.image.map fun i => (images i).calleeDepth k.definition.token).getD 0

/-- What can be reached from a key by way of callees, with the depths of the layouts on the way
added up. -/
inductive Reaches (k : MethodKey) : MethodKey → Nat → Prop where
  | self : Reaches k k 0
  | call {k' k'' : MethodKey} {n : Nat} (h : Reaches k k' n) (calls : k'.Calls images k'') :
    Reaches k k'' (n + k'.layoutDepth images)

variable {images} {k k' : MethodKey} {n : Nat}

/-- A callee comes from a slot of the layout. -/
theorem Calls.exists_slot (h : k.Calls images k') : ∃ (m : MethodDef) (o : Context),
    k' = ⟨m, o.inflate k.context⟩ ∧ o.depth ≤ k.layoutDepth images := by
  obtain ⟨i, data, image, resolved, member⟩ := h
  obtain ⟨layout, laid, rfl⟩ := Option.map_eq_some_iff.1 resolved
  obtain ⟨slot, hslot, inflated⟩ := List.mem_map.1 member
  cases slot with
  | typeHandle | classHandle => cases inflated
  | callee m o =>
    cases inflated
    refine ⟨m, o, rfl, ?_⟩
    rw [layoutDepth, image]
    refine List.le_max_of_le' 0 (List.mem_map.2 ⟨.callee m o, ?_, rfl⟩) le_rfl
    rw [laid]
    exact hslot

theorem Calls.depth_le (h : k.Calls images k') : k'.depth ≤ k.depth + k.layoutDepth images := by
  obtain ⟨m, o, rfl, own⟩ := h.exists_slot
  have inflated : (o.inflate k.context).depth ≤ o.depth + k.context.argDepth :=
    (o.depth_inflate k.context).2
  have args : k.context.argDepth ≤ k.context.depth - 1 := k.context.argDepth_le
  show (o.inflate k.context).depth ≤ k.context.depth + _
  omega

theorem Reaches.depth_le (h : k.Reaches images k' n) : k'.depth ≤ k.depth + n := by
  induction h with
  | self => exact le_rfl
  | call _ calls ih =>
    have step := calls.depth_le
    omega

end MethodKey

/-- The callees that the realization of an instance holds are those of its key, if the runtime
context data comes from the layouts. -/
theorem Collaborators.calls_of_realization {C : Collaborators} {images : ImageHandle → Layouts}
    {k k' : MethodKey} {owner : RuntimeClass} {data : ContextData}
    (layouts : ∀ i t c, C.contextData i t c = (images i).resolve t c)
    (h : (C.realization k owner).contextData = some data) (member : .callee k' ∈ data) :
    k.Calls images k' := by
  unfold realization at h
  split at h
  · cases h
  · obtain ⟨i, image, resolved⟩ := Option.bind_eq_some_iff.1 h
    exact ⟨i, data, image, (layouts i _ _).symm.trans resolved, member⟩

/-- How much deeper inflation makes expressions and the keys that are laid out. -/
structure CalleesBounded (images : ImageHandle → Layouts) : Prop where
  types : ∀ (e : TypeExpr) (c : Context),
    e.depth ≤ (e.inflate c).depth ∧ (e.inflate c).depth ≤ e.depth + c.argDepth
  /-- Each slot for a callee gives a key, in its own place. -/
  slots : ∀ (i : ImageHandle) (t : Token) (c : Context) (layout : List ContextSlot) (n : Nat)
    (m : MethodDef) (o : Context), (images i).layout? t = some layout →
      layout[n]? = some (.callee m o) →
      ∃ data k, (images i).resolve t c = some data ∧ data[n]? = some (.callee k) ∧
        k.definition = m ∧ o.depth ≤ k.depth ∧ k.depth ≤ o.depth + (c.depth - 1)
  /-- So a callee is deeper than the key that it is found through by no more than the layout. -/
  callees : ∀ k k' : MethodKey, k.Calls images k' → k'.depth ≤ k.depth + k.layoutDepth images
  reached : ∀ (k k' : MethodKey) (n : Nat), k.Reaches images k' n → k'.depth ≤ k.depth + n
  /-- The callees are found in the instances that are constructed. -/
  realized : ∀ C : Collaborators,
    (∀ i t c, C.contextData i t c = (images i).resolve t c) →
    ∀ (k k' : MethodKey) (owner : RuntimeClass) (data : ContextData),
      (C.realization k owner).contextData = some data → .callee k' ∈ data → k.Calls images k'

/-- Inflation adds at most the depth of the arguments that it puts in, and callees are as deep as
the layouts on the way to them allow. -/
theorem callees_bounded (images : ImageHandle → Layouts) : CalleesBounded images where
  types e c := e.depth_inflate c
  slots i t c layout n m o laid slot := by
    obtain ⟨data, resolved, each⟩ := Layouts.getElem?_resolve c laid
    have inflated : o.depth ≤ (o.inflate c).depth ∧ (o.inflate c).depth ≤ o.depth + c.argDepth :=
      o.depth_inflate c
    have args : c.argDepth ≤ c.depth - 1 := c.argDepth_le
    refine ⟨data, ⟨m, o.inflate c⟩, resolved, ?_, rfl, inflated.1, ?_⟩
    · rw [each, slot]
      rfl
    · exact inflated.2.trans (Nat.add_le_add_left args _)
  callees _ _ calls := calls.depth_le
  reached _ _ _ reaches := reaches.depth_le
  realized _ layouts _ _ _ _ h member := Collaborators.calls_of_realization layouts h member

namespace Sample

/-- So many cells in one another. -/
def cells : Nat → TypeExpr
  | 0 => .named (.definition cell)
  | n + 1 => .generic (.definition cell) (.cons (cells n) .nil)

def wrap : MethodDef where
  serial := 0
  token := default
  name := "Wrap"
  owner := .definition { cell with image := some default }

/-- The arguments with which the method calls itself: a cell of its own argument. -/
def wrapContext : Context where
  methodArgs := some (.cons (.generic (.definition cell) (.cons (.methodVar 0) .nil)) .nil)

def wrapLayouts : ImageHandle → Layouts := fun _ =>
  (default : Layouts).add default (.callee wrap wrapContext)

def wrapKey (n : Nat) : MethodKey := ⟨wrap, { methodArgs := some (.cons (cells n) .nil) }⟩

/-- Runtime context data is resolved by the layouts. -/
def laidOut : Collaborators where
  __ := Collaborators.plain
  contextData i t c := (wrapLayouts i).resolve t c

end Sample

/-- A method that calls itself for ever deeper arguments. The bound on its slot is reached. -/
theorem callees_bounded_wrapping :
    (∃ data k, (Sample.wrapLayouts default).resolve default (Sample.wrapKey 1).context = some data ∧
      data[0]? = some (.callee k) ∧ k.depth ≤ Sample.wrapContext.depth + 1) ∧
    (Sample.wrapKey 0).Reaches Sample.wrapLayouts (Sample.wrapKey 2) 4 ∧
      (Sample.wrapKey 2).depth ≤ (Sample.wrapKey 0).depth + 4 ∧
      (Sample.wrapKey 2).depth = Sample.wrapContext.depth + 1 := by
  have bounded := callees_bounded Sample.wrapLayouts
  have calls : ∀ n, (Sample.wrapKey n).Calls Sample.wrapLayouts (Sample.wrapKey (n + 1)) := by
    intro n
    exact bounded.realized Sample.laidOut (fun _ _ _ => rfl) _ _ default
      [.callee (Sample.wrapKey (n + 1))] rfl (List.mem_singleton.2 rfl)
  have reaches : (Sample.wrapKey 0).Reaches Sample.wrapLayouts (Sample.wrapKey 2) 4 :=
    .call (.call .self (calls 0)) (calls 1)
  obtain ⟨data, k, resolved, slot, -, -, upper⟩ := bounded.slots default default
    (Sample.wrapKey 1).context [.callee Sample.wrap Sample.wrapContext] 0 _ _ rfl rfl
  exact ⟨⟨data, k, resolved, slot, upper⟩, reaches, bounded.reached _ _ _ reaches, rfl⟩

end Monomorph
