import Mathlib.Algebra.Order.BigOperators.Group.List
import Mathlib.Algebra.Order.Ring.Nat
import Monomorph.Proofs.Closure
import Monomorph.Proofs.Realizing

/-!
Realized classes at the leaves of expressions. Names and depths look at the arguments of a realized
class; the short text, openness and inflation take it for a leaf. Main statements: `texts_agree`,
the short text is the full name exactly if no leaf is a realized class, and
`TypeExpr.isAccounted_iff`, openness and inflation deal with all parameters exactly if none of them
is hidden in such a leaf.
-/

namespace Monomorph

mutual

/-- The classes that an expression names, from left to right. The origins of instances are not
among them. -/
def TypeExpr.leaves : TypeExpr → List RuntimeClass
  | .named c => [c]
  | .classVar _ => []
  | .methodVar _ => []
  | .generic _ as => as.leaves
  | .array e => e.leaves
  | .byRef e => e.leaves
  | .pointer e => e.leaves

def TypeArgs.leaves : TypeArgs → List RuntimeClass
  | .nil => []
  | .cons e as => e.leaves ++ as.leaves

end

theorem TypeArgs.mem_leaves_iff {as : TypeArgs} {k : RuntimeClass} :
    k ∈ as.leaves ↔ ∃ e ∈ as.toList, k ∈ e.leaves := by
  induction as with
  | nil => simp [leaves, toList]
  | cons e as ih => simp [leaves, toList, ih]

/-! ## Texts -/

/-- Separators may be put before each argument as it comes, or between all of them at once. -/
theorem TypeArgs.append_restText (t : String) (as : TypeArgs) :
    t ++ as.restText = ", ".intercalate (t :: as.toList.map TypeExpr.text) ++ ">" := by
  induction as generalizing t with
  | nil => simp [restText, toList]
  | cons e as ih =>
    rw [restText, String.append_assoc, ih e.text]
    simp [toList, String.append_assoc]

theorem TypeArgs.text_eq (as : TypeArgs) : as.text = bracketed (as.toList.map TypeExpr.text) := by
  cases as with
  | nil => rfl
  | cons e as =>
    rw [text, String.append_assoc, as.append_restText e.text, bracketed, String.append_assoc]
    rfl

/-- The brackets and separators take their room, whatever stands between them. -/
theorem length_bracketed (names : List String) :
    (bracketed names).length = (names.map String.length).sum + 2 * (names.length - 1) + 2 := by
  have joined : (", ".intercalate names).length =
      (names.map String.length).sum + 2 * (names.length - 1) := by
    induction names with
    | nil => rfl
    | cons name names ih =>
      cases names with
      | nil => simp
      | cons next names =>
        have separator : ", ".length = 2 := by decide
        rw [String.intercalate_cons_cons, String.length_append, String.length_append, ih, separator]
        simp only [List.map_cons, List.sum_cons, List.length_cons]
        omega
  have brackets : "<".length = 1 ∧ ">".length = 1 := by decide
  rw [bracketed, String.length_append, String.length_append, joined, brackets.1, brackets.2]
  omega

/-- A definition has no arguments that its name could show. -/
theorem RuntimeClass.fullName_of_not_instance {c : RuntimeClass} (h : c.isInstance = false) :
    c.fullName = c.qualifiedName := by
  cases c with
  | definition d => rfl
  | realized n c as => cases h

theorem RuntimeClass.length_qualifiedName_lt {c : RuntimeClass} (h : c.isInstance = true) :
    c.qualifiedName.length < c.fullName.length := by
  cases c with
  | definition d => cases h
  | realized n c as =>
    rw [fullName, String.length_append, length_bracketed]
    omega

theorem TypeExpr.text_eq_fullName (e : TypeExpr) (h : ∀ c ∈ e.leaves, c.isInstance = false) :
    e.text = e.fullName := by
  induction e using TypeExpr.induct with
  | named c => exact (RuntimeClass.fullName_of_not_instance (h c (List.mem_singleton_self c))).symm
  | classVar | methodVar => rfl
  | generic k as ih =>
    have each : as.toList.map text = as.toList.map fullName := by
      refine List.map_congr_left fun e he => ih e he fun c hc => h c ?_
      exact TypeArgs.mem_leaves_iff.2 ⟨e, he, hc⟩
    rw [text, fullName, as.text_eq, as.fullNames_eq_map, each]
  | array e ih | byRef e ih | pointer e ih =>
    rw [text, fullName, ih h]

/-- The full name shows the arguments of a realized class, and so it is longer. -/
theorem TypeExpr.length_text_lt (e : TypeExpr) (h : ∃ c ∈ e.leaves, c.isInstance = true) :
    e.text.length < e.fullName.length := by
  induction e using TypeExpr.induct with
  | named c =>
    obtain ⟨k, hk, realized⟩ := h
    obtain rfl := List.mem_singleton.1 hk
    exact RuntimeClass.length_qualifiedName_lt realized
  | classVar | methodVar =>
    obtain ⟨k, hk, -⟩ := h
    cases hk
  | generic k as ih =>
    -- No argument is shorter in its full name: either the two texts agree, or a class is shown.
    have le : ∀ e ∈ as.toList, e.text.length ≤ e.fullName.length := by
      intro e he
      by_cases shown : ∃ c ∈ e.leaves, c.isInstance = true
      · exact (ih e he shown).le
      · rw [e.text_eq_fullName (by simpa using shown)]
    have lt : ∃ e ∈ as.toList, e.text.length < e.fullName.length := by
      obtain ⟨c, hc, realized⟩ := h
      obtain ⟨e, he, hc⟩ := TypeArgs.mem_leaves_iff.1 hc
      exact ⟨e, he, ih e he ⟨c, hc, realized⟩⟩
    have sum := List.sum_lt_sum _ _ le lt
    rw [text, fullName, as.text_eq, as.fullNames_eq_map, String.length_append,
      String.length_append, length_bracketed, length_bracketed]
    simp only [List.map_map, List.length_map, Function.comp_def]
    omega
  | array e ih | byRef e ih | pointer e ih =>
    rw [text, fullName, String.length_append, String.length_append]
    exact Nat.add_lt_add_right (ih h) _

/-- The short text leaves the arguments of realized classes out, and nothing else. -/
theorem TypeExpr.text_eq_fullName_iff (e : TypeExpr) :
    e.text = e.fullName ↔ ∀ c ∈ e.leaves, c.isInstance = false := by
  refine ⟨fun same => ?_, e.text_eq_fullName⟩
  by_contra h
  have longer := e.length_text_lt (by simpa using h)
  rw [same] at longer
  exact absurd longer (Nat.lt_irrefl _)

/-- A list by itself is written as it is after the origin of an instance. -/
theorem TypeArgs.text_eq_fullName_iff (as : TypeArgs) :
    as.text = bracketed (as.toList.map TypeExpr.fullName) ↔
      ∀ c ∈ as.leaves, c.isInstance = false := by
  have whole := TypeExpr.text_eq_fullName_iff (.generic default as)
  rwa [TypeExpr.text, TypeExpr.fullName, String.append_right_inj, as.fullNames_eq_map] at whole

/-- The short texts, which stand in the messages of rejections, against the full names. -/
structure TextsAgree : Prop where
  types : ∀ e : TypeExpr, e.text = NameFormatter.fullNames.typeName e ↔
    ∀ c ∈ e.leaves, c.isInstance = false
  args : ∀ as : TypeArgs, as.text = NameFormatter.fullNames.argsName (some as) ↔
    ∀ c ∈ as.leaves, c.isInstance = false

/-- Both renderings come to the same text exactly if no realized class is to be named. -/
theorem texts_agree : TextsAgree where
  types := TypeExpr.text_eq_fullName_iff
  args := TypeArgs.text_eq_fullName_iff

namespace Sample

/-- A cell of cells, and next to it an empty list beneath a reference. -/
def cellsOf (n : Option Nat) : TypeArgs :=
  .cons (cellOf none (.array (cellOf n (.named (.definition cell)))))
    (.cons (.byRef (.generic (.definition cell) .nil)) .nil)

end Sample

/-- The two texts of a list with and without a realized class. -/
theorem texts_agree_cellsOf :
    ((∀ c ∈ (Sample.cellsOf none).leaves, c.isInstance = false) ∧
      (Sample.cellsOf none).text =
        NameFormatter.fullNames.argsName (some (Sample.cellsOf none))) ∧
      (Sample.cellsOf (some 1)).text ≠
        NameFormatter.fullNames.argsName (some (Sample.cellsOf (some 1))) := by
  have unrealized : ∀ c ∈ (Sample.cellsOf none).leaves, c.isInstance = false := by decide
  refine ⟨⟨unrealized, (texts_agree.args _).2 unrealized⟩, fun same => ?_⟩
  exact absurd ((texts_agree.args _).1 same _ (.head _)) (by decide)

/-! ## Parameters -/

mutual

/-- The parameters in the arguments for which a class has been realized. -/
def RuntimeClass.innerVars : RuntimeClass → List TypeVar
  | .definition _ => []
  | .realized _ _ as => as.allVars

/-- The parameters that occur anywhere in an expression, also in the arguments of realized
classes. -/
def TypeExpr.allVars : TypeExpr → List TypeVar
  | .named c => c.innerVars
  | .classVar n => [.ofClass n]
  | .methodVar n => [.ofMethod n]
  | .generic _ as => as.allVars
  | .array e => e.allVars
  | .byRef e => e.allVars
  | .pointer e => e.allVars

def TypeArgs.allVars : TypeArgs → List TypeVar
  | .nil => []
  | .cons e as => e.allVars ++ as.allVars

end

/-- The parameters in the arguments of the realized classes that an expression names. -/
def TypeExpr.hiddenVars (e : TypeExpr) : List TypeVar := e.leaves.flatMap RuntimeClass.innerVars

theorem TypeArgs.mem_vars_iff {as : TypeArgs} {v : TypeVar} :
    v ∈ as.vars ↔ ∃ e ∈ as.toList, v ∈ e.vars := by
  rw [vars_eq_flatMap, List.mem_flatMap]

theorem TypeArgs.mem_allVars_iff {as : TypeArgs} {v : TypeVar} :
    v ∈ as.allVars ↔ ∃ e ∈ as.toList, v ∈ e.allVars := by
  induction as with
  | nil => simp [allVars, toList]
  | cons e as ih => simp [allVars, toList, ih]

/-- A parameter occurs where openness looks for it, or it is hidden. -/
theorem TypeExpr.mem_allVars_iff (e : TypeExpr) {v : TypeVar} :
    v ∈ e.allVars ↔ v ∈ e.vars ∨ v ∈ e.hiddenVars := by
  unfold hiddenVars
  induction e using TypeExpr.induct with
  | named | classVar | methodVar => simp [allVars, vars, leaves]
  | generic k as ih =>
    simp only [allVars, vars, leaves, List.mem_flatMap, TypeArgs.mem_allVars_iff,
      TypeArgs.mem_vars_iff, TypeArgs.mem_leaves_iff] at ih ⊢
    constructor
    · rintro ⟨e, he, hv⟩
      rcases (ih e he).1 hv with seen | ⟨c, hc, inner⟩
      · exact .inl ⟨e, he, seen⟩
      · exact .inr ⟨c, ⟨e, he, hc⟩, inner⟩
    · rintro (⟨e, he, seen⟩ | ⟨c, ⟨e, he, hc⟩, inner⟩)
      · exact ⟨e, he, (ih e he).2 (.inl seen)⟩
      · exact ⟨e, he, (ih e he).2 (.inr ⟨c, hc, inner⟩)⟩
  | array e ih | byRef e ih | pointer e ih => exact ih

/-- A substitution keeps the classes that are named, and brings in those of what it puts in. -/
theorem TypeExpr.mem_leaves_substitute (e : TypeExpr) (σ : TypeVar → TypeExpr) {k : RuntimeClass} :
    k ∈ (e.substitute σ).leaves ↔ k ∈ e.leaves ∨ ∃ v ∈ e.vars, k ∈ (σ v).leaves := by
  induction e using TypeExpr.induct with
  | named | classVar | methodVar => simp [substitute, vars, leaves]
  | generic c as ih =>
    simp only [substitute, vars, leaves, TypeArgs.mem_leaves_iff, TypeArgs.mem_vars_iff,
      TypeArgs.toList_substitute, List.mem_map]
    constructor
    · rintro ⟨_, ⟨e, he, rfl⟩, hk⟩
      rcases (ih e he).1 hk with kept | ⟨v, hv, new⟩
      · exact .inl ⟨e, he, kept⟩
      · exact .inr ⟨v, ⟨e, he, hv⟩, new⟩
    · rintro (⟨e, he, kept⟩ | ⟨v, ⟨e, he, hv⟩, new⟩)
      · exact ⟨_, ⟨e, he, rfl⟩, (ih e he).2 (.inl kept)⟩
      · exact ⟨_, ⟨e, he, rfl⟩, (ih e he).2 (.inr ⟨v, hv, new⟩)⟩
  | array e ih | byRef e ih | pointer e ih => exact ih

/-- Inflation leaves the hidden parameters where they are, and replaces the others. -/
theorem TypeExpr.mem_allVars_inflate (e : TypeExpr) (c : Context) {v : TypeVar} :
    v ∈ (e.inflate c).allVars ↔ v ∈ e.hiddenVars ∨ ∃ w ∈ e.vars, v ∈ (c.assign w).allVars := by
  rw [e.inflate_eq_substitute c, mem_allVars_iff, vars_substitute]
  simp only [mem_allVars_iff, hiddenVars, List.mem_flatMap, mem_leaves_substitute]
  constructor
  · rintro (⟨w, hw, seen⟩ | ⟨k, kept | ⟨w, hw, new⟩, inner⟩)
    · exact .inr ⟨w, hw, .inl seen⟩
    · exact .inl ⟨k, kept, inner⟩
    · exact .inr ⟨w, hw, .inr ⟨k, new, inner⟩⟩
  · rintro (⟨k, kept, inner⟩ | ⟨w, hw, seen | ⟨k, new, inner⟩⟩)
    · exact .inr ⟨k, .inl kept, inner⟩
    · exact .inl ⟨w, hw, seen⟩
    · exact .inr ⟨k, .inr ⟨w, hw, new⟩, inner⟩

namespace Context

variable {c : Context} {v : TypeVar}

/-- No parameter occurs in any argument, hidden or not. -/
def IsGround (c : Context) : Prop := ∀ e ∈ c.args, e.allVars = []

theorem Covers.exists_arg? (h : c.Covers v) : ∃ e, c.arg? v = some e := by
  obtain ⟨as, has, within⟩ := h
  refine Option.ne_none_iff_exists'.1 fun none => ?_
  rcases arg?_eq_none_iff.1 none with missing | ⟨bs, hbs, beyond⟩
  · rw [has] at missing
    cases missing
  · rw [has] at hbs
    obtain rfl := Option.some.inj hbs
    omega

theorem IsGround.allVars_assign (ground : c.IsGround) (covers : c.Covers v) :
    (c.assign v).allVars = [] := by
  obtain ⟨e, he⟩ := covers.exists_arg?
  rw [assign_of_some he]
  exact ground e (mem_args_of_arg? he)

/-- As many arguments as there are positions of parameters. -/
def full : Context where
  classArgs := some (.ofList (.replicate UInt16.size (.named default)))
  methodArgs := some (.ofList (.replicate UInt16.size (.named default)))

theorem full_isGround : full.IsGround := by
  intro e he
  obtain ⟨as, has, member⟩ := mem_args_iff.1 he
  have same : as = .ofList (.replicate UInt16.size (.named default)) := by
    rcases has with h | h <;> exact (Option.some.inj h).symm
  rw [same, TypeArgs.toList_ofList] at member
  rw [List.eq_of_mem_replicate member]
  rfl

theorem full_covers (v : TypeVar) : full.Covers v := by
  refine ⟨.ofList (.replicate UInt16.size (.named default)), by cases v <;> rfl, ?_⟩
  rw [← TypeArgs.length_toList, TypeArgs.toList_ofList, List.length_replicate]
  cases v with
  | ofClass n | ofMethod n => exact n.toNat_lt_size

end Context

/-- Openness and inflation deal with all the parameters that occur in an expression. -/
structure TypeExpr.IsAccounted (e : TypeExpr) : Prop where
  isOpen_iff : e.isOpen = true ↔ ∃ v, v ∈ e.allVars
  closes : ∀ c : Context, c.IsGround → (∀ v ∈ e.allVars, c.Covers v) →
    (e.inflate c).allVars = []

section Accounting

variable {e : TypeExpr} {c : Context}

/-- A context that has an argument for every parameter takes away those that are not hidden. -/
theorem TypeExpr.mem_allVars_inflate_of_covers (ground : c.IsGround)
    (covers : ∀ v ∈ e.allVars, c.Covers v) {v : TypeVar} :
    v ∈ (e.inflate c).allVars ↔ v ∈ e.hiddenVars := by
  rw [e.mem_allVars_inflate c]
  refine or_iff_left ?_
  rintro ⟨w, hw, new⟩
  rw [ground.allVars_assign (covers w (e.mem_allVars_iff.2 (.inl hw)))] at new
  cases new

theorem TypeExpr.allVars_inflate_eq_nil_iff (ground : c.IsGround)
    (covers : ∀ v ∈ e.allVars, c.Covers v) : (e.inflate c).allVars = [] ↔ e.hiddenVars = [] := by
  simp only [List.eq_nil_iff_forall_not_mem, mem_allVars_inflate_of_covers ground covers]

/-- Openness is mistaken about an expression if all the parameters in it are hidden. -/
theorem TypeExpr.isOpen_iff_allVars_iff (e : TypeExpr) :
    (e.isOpen = true ↔ ∃ v, v ∈ e.allVars) ↔ e.hiddenVars = [] ∨ e.vars ≠ [] := by
  rw [e.isOpen_iff]
  constructor
  · intro agree
    by_cases none : e.vars = []
    · refine .inl (List.eq_nil_iff_forall_not_mem.2 fun v hv => ?_)
      obtain ⟨w, hw⟩ := agree.2 ⟨v, e.mem_allVars_iff.2 (.inr hv)⟩
      rw [none] at hw
      cases hw
    · exact .inr none
  · rintro (none | some)
    · simp only [e.mem_allVars_iff, none, List.not_mem_nil, or_false]
    · obtain ⟨v, hv⟩ := List.exists_mem_of_ne_nil _ some
      exact iff_of_true ⟨v, hv⟩ ⟨v, e.mem_allVars_iff.2 (.inl hv)⟩

/-- What is hidden stays, whatever there is to replace it. -/
theorem TypeExpr.isAccounted_iff (e : TypeExpr) : e.IsAccounted ↔ e.hiddenVars = [] := by
  constructor
  · rintro ⟨-, closes⟩
    -- A context with arguments for all parameters there are, so that only hidden ones can stay.
    have covers : ∀ v ∈ e.allVars, Context.full.Covers v := fun v _ => Context.full_covers v
    have none := closes .full Context.full_isGround covers
    exact (allVars_inflate_eq_nil_iff Context.full_isGround covers).1 none
  · intro none
    refine ⟨e.isOpen_iff_allVars_iff.2 (.inl none), fun c ground covers => ?_⟩
    exact (allVars_inflate_eq_nil_iff ground covers).2 none

/-- The class that a registry gives for an instantiation hides all the parameters in it. -/
theorem ClassRegistry.Gave.isAccounted_iff {past : List RegistryOp} {k : RuntimeClass}
    {as : TypeArgs} {o : RuntimeClass} (gave : Gave past o as k) :
    (TypeExpr.named k).IsAccounted ↔ as.allVars = [] := by
  obtain ⟨n, rfl, -⟩ := gave.exists_serial
  rw [TypeExpr.isAccounted_iff, TypeExpr.hiddenVars, TypeExpr.leaves, List.flatMap_singleton,
    RuntimeClass.innerVars]

end Accounting

/-- Which parameters of an expression openness and inflation deal with. -/
structure TypeExpr.AccountedExactly (e : TypeExpr) : Prop where
  all : e.IsAccounted ↔ e.hiddenVars = []
  isOpen : (e.isOpen = true ↔ ∃ v, v ∈ e.allVars) ↔ e.hiddenVars = [] ∨ e.vars ≠ []
  /-- What stays if there is an argument for every parameter. -/
  inflate : ∀ c : Context, c.IsGround → (∀ v ∈ e.allVars, c.Covers v) →
    ∀ v, v ∈ (e.inflate c).allVars ↔ v ∈ e.hiddenVars

/-- The parameters in the arguments of realized classes are left out, and no others. -/
theorem TypeExpr.accounted_exactly (e : TypeExpr) : e.AccountedExactly where
  all := e.isAccounted_iff
  isOpen := e.isOpen_iff_allVars_iff
  inflate _ ground covers _ := mem_allVars_inflate_of_covers ground covers

namespace Sample

/-- A cell of `!0`, as shared code has it. -/
def sharedCell : TypeArgs := .cons (.classVar 0) .nil

/-- The cell of `!0`, realized or not. -/
def sharedCells : TypeArgs :=
  .cons (.named (.realized 1 (.definition cell) sharedCell))
    (.cons (.generic (.definition cell) sharedCell) .nil)

theorem oneArg_isGround : oneArg.IsGround := by
  intro e he
  obtain rfl := List.mem_singleton.1 he
  rfl

theorem oneArg_covers : oneArg.Covers (.ofClass 0) := ⟨_, rfl, by decide⟩

end Sample

/-- The two cells together are seen to be open, and one of them stays so. Without the realized one,
all parameters are dealt with. -/
theorem TypeExpr.accounted_exactly_sharedCells :
    (generic default Sample.sharedCell).IsAccounted ∧
      ¬(generic default Sample.sharedCells).IsAccounted ∧
      ((generic default Sample.sharedCells).isOpen = true ↔
        ∃ v, v ∈ (generic default Sample.sharedCells).allVars) ∧
      .ofClass 0 ∈ ((generic default Sample.sharedCells).inflate Sample.oneArg).allVars := by
  have none := accounted_exactly (generic default Sample.sharedCell)
  have one := accounted_exactly (generic default Sample.sharedCells)
  refine ⟨none.all.2 rfl, fun accounted => ?_, one.isOpen.2 (.inr nofun), ?_⟩
  · cases one.all.1 accounted
  · refine (one.inflate Sample.oneArg Sample.oneArg_isGround (fun v hv => ?_) _).2 (.head _)
    have same : v = .ofClass 0 := by
      simpa [allVars, TypeArgs.allVars, Sample.sharedCells, Sample.sharedCell,
        RuntimeClass.innerVars] using hv
    exact same ▸ Sample.oneArg_covers

/-- A registry realizes the cell of `!0`. The class passes for closed, and keeps its parameter when
there is an argument for it. -/
theorem TypeExpr.not_isAccounted_sharedCell :
    ∃ k, ClassRegistry.Gave [.realize 1 (.definition Sample.cell) Sample.sharedCell]
        (.definition Sample.cell) Sample.sharedCell k ∧
      (.ofClass 0 ∈ (named k).allVars ∧ (named k).isOpen = false) ∧
      (Sample.oneArg.IsGround ∧ (∀ v ∈ (named k).allVars, Sample.oneArg.Covers v) ∧
        ((named k).inflate Sample.oneArg).allVars = [.ofClass 0]) ∧
      ¬(named k).IsAccounted := by
  have given : ClassRegistry.Gave [.realize 1 (.definition Sample.cell) Sample.sharedCell]
      (.definition Sample.cell) Sample.sharedCell
      (.realized 1 (.definition Sample.cell) Sample.sharedCell) :=
    ClassRegistry.get?_after_iff.1 (by decide +kernel)
  refine ⟨_, given, ⟨.head _, rfl⟩, ⟨Sample.oneArg_isGround, fun v hv => ?_, rfl⟩, ?_⟩
  · exact List.mem_singleton.1 hv ▸ Sample.oneArg_covers
  · intro accounted
    cases given.isAccounted_iff.1 accounted

end Monomorph
