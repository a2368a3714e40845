import Mathlib.Data.Finset.Card
import Monomorph.ClassRegistry
import Monomorph.Proofs.Course
import Monomorph.Proofs.Replay

/-!
The class registry over its whole history. Which instantiations it accepts is said by conditions on
each argument (`RuntimeClass.Accepts`); since it was last cleared, it has given one class for each
of them (`ClassRegistry.Gave`), and it counts them. Main statement:
`ClassRegistry.realizes_exactly`, with what follows for the declaring classes in a cache that asks
the registry.
-/

namespace Monomorph

/-! ## Acceptance -/

/-- Whether the argument is a value type, where that does not depend on a parameter. -/
def TypeExpr.valueType? : TypeExpr → Option Bool
  | .named c => some c.isValueType
  | .classVar _ => none
  | .methodVar _ => none
  | .generic c _ => some c.isValueType
  | .array _ => some false
  | .byRef _ => none
  | .pointer _ => none

/-- The argument may be put in for the parameter. -/
structure GenericParam.Allows (p : GenericParam) (e : TypeExpr) : Prop where
  not_byRef : ∀ e', e ≠ .byRef e'
  not_pointer : ∀ e', e ≠ .pointer e'
  struct : ∀ b, e.valueType? = some b → p.flags.contains .structConstraint = true → b = true
  reference : ∀ b, e.valueType? = some b → p.flags.contains .classConstraint = true → b = false

/-- The class may be instantiated with the arguments. -/
structure RuntimeClass.Accepts (c : RuntimeClass) (as : TypeArgs) : Prop where
  not_instance : c.instance? = none
  generic : c.params ≠ []
  count : as.length = c.params.length
  each : ∀ (n : Nat) (p : GenericParam) (e : TypeExpr), c.params[n]? = some p →
    as.get? n = some e → p.Allows e

section Acceptance

variable {p : GenericParam} {ps : List GenericParam} {owner c : RuntimeClass} {e : TypeExpr}
  {es : List TypeExpr} {as : TypeArgs}

theorem GenericParam.check_eq_ok_iff : p.check owner e = .ok () ↔ p.Allows e := by
  constructor
  · intro h
    cases e with
    | named c | generic c =>
      refine ⟨nofun, nofun, ?_, ?_⟩ <;>
      · rintro b ⟨⟩ constraint
        cases hv : c.isValueType <;> simp_all [check, TypeExpr.argumentKind]
    | classVar | methodVar => exact ⟨nofun, nofun, nofun, nofun⟩
    | array =>
      refine ⟨nofun, nofun, ?_, ?_⟩ <;>
      · rintro b ⟨⟩ constraint
        simp_all [check, TypeExpr.argumentKind]
    | byRef | pointer => cases h
  · rintro ⟨not_byRef, not_pointer, struct, reference⟩
    cases e with
    | named c | generic c =>
      cases hv : c.isValueType <;>
        simp_all [check, TypeExpr.argumentKind, TypeExpr.valueType?]
    | classVar | methodVar => rfl
    | array => simp_all [check, TypeExpr.argumentKind, TypeExpr.valueType?]
    | byRef e' => exact absurd rfl (not_byRef e')
    | pointer e' => exact absurd rfl (not_pointer e')

/-- The check goes through if each argument does. -/
theorem checkEach_eq_ok_iff : checkEach owner ps es = .ok () ↔
    ∀ (n : Nat) (p : GenericParam) (e : TypeExpr), ps[n]? = some p → es[n]? = some e →
      p.Allows e := by
  induction ps generalizing es with
  | nil => simp [checkEach]
  | cons p ps ih =>
    cases es with
    | nil => simp [checkEach]
    | cons e es =>
      have first : checkEach owner (p :: ps) (e :: es) = .ok () ↔
          p.Allows e ∧ checkEach owner ps es = .ok () := by
        have check : p.check owner e = .ok () ↔ p.Allows e := GenericParam.check_eq_ok_iff
        rw [← check, checkEach]
        cases p.check owner e <;> simp [bind, Except.bind]
      rw [first, ih]
      constructor
      · rintro ⟨now, later⟩ n
        cases n with
        | zero => simpa using now
        | succ n => simpa using later n
      · intro h
        exact ⟨h 0 p e rfl rfl, fun n p' e' => h (n + 1) p' e'⟩

theorem RuntimeClass.isGenericDefinition_iff :
    c.isGenericDefinition = true ↔ c.instance? = none ∧ c.params ≠ [] := by
  cases c <;> simp [isGenericDefinition, instance?, params]

theorem RuntimeClass.checkArgs_eq_ok_iff : c.checkArgs as = .ok () ↔ c.Accepts as := by
  have each : checkEach c c.params as.toList = .ok () ↔
      ∀ (n : Nat) (p : GenericParam) (e : TypeExpr), c.params[n]? = some p →
        as.get? n = some e → p.Allows e := by
    simp only [checkEach_eq_ok_iff, TypeArgs.get?_eq_getElem?]
  unfold checkArgs
  constructor
  · intro h
    split at h
    · cases h
    · next generic =>
      split at h
      · cases h
      · next count =>
        obtain ⟨not_instance, params⟩ := isGenericDefinition_iff.1 (by simpa using generic)
        exact ⟨not_instance, params, (by simpa using count : _ = _).symm, each.1 h⟩
  · intro h
    have generic := isGenericDefinition_iff.2 ⟨h.not_instance, h.generic⟩
    simp [generic, h.count, each.2 h.each]

instance (c : RuntimeClass) (as : TypeArgs) : Decidable (c.Accepts as) :=
  decidable_of_iff (c.checkArgs as = .ok ()) RuntimeClass.checkArgs_eq_ok_iff

end Acceptance

/-! ## Histories -/

/-- What is done with a registry. -/
inductive RegistryOp where
  | realize (serial : Nat) (c : RuntimeClass) (as : TypeArgs)
  | get (c : RuntimeClass) (as : TypeArgs)
  | clear

/-- The serial number that the class has if it is made now. -/
def RegistryOp.serial? : RegistryOp → Option Nat
  | realize n _ _ => some n
  | get _ _ => none
  | clear => none

namespace ClassRegistry

def apply (r : ClassRegistry) : RegistryOp → ClassRegistry
  | .realize n c as =>
    match r.realize n c as with
    | .ok x => x.registry
    | .error _ => r
  | .get _ _ => r
  | .clear => r.clear

/-- The registry after these operations, the latest first. -/
def after : List RegistryOp → ClassRegistry
  | [] => default
  | op :: past => (after past).apply op

/-- How the registry answers the question for a class. -/
def answer (r : ClassRegistry) (n : Nat) (c : RuntimeClass) (as : TypeArgs) :
    Except Error RuntimeClass :=
  match r.realize n c as with
  | .ok x => .ok x.result
  | .error e => .error (.invalid e)

/-- The registry has answered so. -/
def Answered (past : List RegistryOp) (c : RuntimeClass) (as : TypeArgs)
    (x : Except Error RuntimeClass) : Prop :=
  ∃ later n before, past = later ++ .realize n c as :: before ∧ x = (after before).answer n c as

/-- Since it was last cleared, the registry has given the class for the instantiation. -/
def Gave (past : List RegistryOp) (c : RuntimeClass) (as : TypeArgs) (k : RuntimeClass) : Prop :=
  ∃ later n before, past = later ++ .realize n c as :: before ∧ .clear ∉ later ∧
    (after before).answer n c as = .ok k

/-- The instantiations that have been accepted since the registry was last cleared. -/
def accepted : List RegistryOp → Finset ClassKey
  | [] => ∅
  | .realize _ c as :: past =>
    if c.Accepts as then insert ⟨c, as⟩ (accepted past) else accepted past
  | .get _ _ :: past => accepted past
  | .clear :: _ => ∅

variable {r : ClassRegistry} {n : Nat} {c c' k k' : RuntimeClass} {as as' : TypeArgs}
  {past later : List RegistryOp} {op : RegistryOp} {x : Realized}

/-! ## One operation -/

/-- A rejected instantiation. -/
theorem realize_rejected (h : ¬c.Accepts as) : ∃ e, r.realize n c as = .error e := by
  cases check : c.checkArgs as with
  | ok => exact absurd (RuntimeClass.checkArgs_eq_ok_iff.1 check) h
  | error e => exact ⟨e, by simp [realize, check, bind, Except.bind]⟩

/-- An instantiation that has been accepted before gives the class that it gave then. -/
theorem realize_known (h : c.Accepts as) (known : r.get? c as = some k) :
    r.realize n c as = .ok ⟨k, r, false⟩ := by
  simp [realize, RuntimeClass.checkArgs_eq_ok_iff.2 h, known, bind, Except.bind, pure, Except.pure]

/-- A new instantiation is given a class of its own, which the registry holds from then on. -/
theorem realize_new (h : c.Accepts as) (unknown : r.get? c as = none) :
    r.realize n c as = .ok ⟨.realized n c as,
      ⟨r.classes.insert ⟨c, as⟩ (.realized n c as)⟩, true⟩ := by
  simp [realize, RuntimeClass.checkArgs_eq_ok_iff.2 h, unknown, bind, Except.bind, pure,
    Except.pure]

theorem exists_realize_iff : (∃ x, r.realize n c as = .ok x) ↔ c.Accepts as := by
  constructor
  · rintro ⟨x, hx⟩
    by_contra rejected
    obtain ⟨e, he⟩ := realize_rejected (r := r) (n := n) rejected
    rw [he] at hx
    cases hx
  · intro h
    cases known : r.get? c as with
    | some k => exact ⟨_, realize_known h known⟩
    | none => exact ⟨_, realize_new h known⟩

/-- What an operation that does not clear does to the classes: it adds one for a new
instantiation, or it leaves them as they are. -/
theorem apply_cases (r : ClassRegistry) (op : RegistryOp) (h : op ≠ .clear) :
    r.apply op = r ∧ (∀ n c as, op = .realize n c as → c.Accepts as → r.get? c as ≠ none) ∨
    ∃ n c as, op = .realize n c as ∧ c.Accepts as ∧ r.get? c as = none ∧
      r.apply op = ⟨r.classes.insert ⟨c, as⟩ (.realized n c as)⟩ := by
  cases op with
  | get => exact .inl ⟨rfl, nofun⟩
  | clear => exact absurd rfl h
  | realize n c as =>
    by_cases accepts : c.Accepts as
    · cases known : r.get? c as with
      | some k =>
        refine .inl ⟨by simp [apply, realize_known accepts known], ?_⟩
        rintro _ _ _ ⟨⟩ -
        simp [known]
      | none =>
        exact .inr ⟨n, c, as, rfl, accepts, known, by simp [apply, realize_new accepts known]⟩
    · obtain ⟨e, he⟩ := realize_rejected (r := r) (n := n) accepts
      refine .inl ⟨by simp [apply, he], ?_⟩
      rintro _ _ _ ⟨⟩ accepts'
      exact absurd accepts' accepts

/-- The registry keeps its classes until it is cleared. -/
theorem get?_apply (h : op ≠ .clear) (hk : r.get? c as = some k) :
    (r.apply op).get? c as = some k := by
  rcases r.apply_cases op h with ⟨same, -⟩ | ⟨n, c', as', -, -, unknown, added⟩
  · rw [same]
    exact hk
  · have other : (⟨c, as⟩ : ClassKey) ≠ ⟨c', as'⟩ := by
      rintro ⟨⟩
      rw [hk] at unknown
      cases unknown
    rw [added]
    exact (Table.find?_insert_of_ne _ _ other).trans hk

/-- A class that the registry has was there before, or has been made by the operation. -/
theorem get?_of_apply (hk : (r.apply op).get? c as = some k) :
    op ≠ .clear ∧ (r.get? c as = some k ∨
      ∃ n, op = .realize n c as ∧ c.Accepts as ∧ r.get? c as = none ∧ k = .realized n c as) := by
  have kept : op ≠ .clear := by
    rintro rfl
    cases hk
  refine ⟨kept, ?_⟩
  rcases r.apply_cases op kept with ⟨same, -⟩ | ⟨n, c', as', hop, accepts, unknown, added⟩
  · rw [same] at hk
    exact .inl hk
  · rw [added] at hk
    by_cases own : (⟨c, as⟩ : ClassKey) = ⟨c', as'⟩
    · cases own
      have made : some (RuntimeClass.realized n c as) = some k :=
        (Table.find?_insert_self _ _ _).symm.trans hk
      cases made
      exact .inr ⟨n, hop, accepts, unknown, rfl⟩
    · exact .inl ((Table.find?_insert_of_ne _ _ own).symm.trans hk)

/-- What the registry has given, it holds. -/
theorem get?_of_answer (h : r.answer n c as = .ok k) :
    (r.apply (.realize n c as)).get? c as = some k := by
  unfold answer at h
  split at h
  · next x hx =>
    cases h
    have accepts : c.Accepts as := exists_realize_iff.1 ⟨x, hx⟩
    cases known : r.get? c as with
    | some k =>
      rw [realize_known accepts known] at hx
      cases hx
      exact get?_apply nofun known
    | none =>
      rw [realize_new accepts known] at hx
      cases hx
      simp only [apply, realize_new accepts known]
      exact Table.find?_insert_self _ _ _
  · cases h

/-! ## All operations -/

/-- A class in the registry has been made for its instantiation, since the registry was last
cleared. -/
theorem exists_made (hk : (after past).get? c as = some k) : ∃ later n before,
    past = later ++ .realize n c as :: before ∧ .clear ∉ later ∧
      (after before).answer n c as = .ok k ∧ k = .realized n c as := by
  induction past with
  | nil => cases hk
  | cons op past ih =>
    obtain ⟨kept, hk | ⟨n, rfl, accepts, unknown, rfl⟩⟩ := get?_of_apply hk
    · obtain ⟨later, n, before, rfl, uncleared, given, made⟩ := ih hk
      refine ⟨op :: later, n, before, rfl, ?_, given, made⟩
      intro cleared
      rcases List.mem_cons.1 cleared with rfl | cleared
      · exact kept rfl
      · exact uncleared cleared
    · refine ⟨[], n, past, rfl, nofun, ?_, rfl⟩
      simp [answer, realize_new accepts unknown]

theorem get?_after_append (hk : (after past).get? c as = some k) (uncleared : .clear ∉ later) :
    (after (later ++ past)).get? c as = some k := by
  induction later with
  | nil => exact hk
  | cons op later ih =>
    have kept : op ≠ .clear := fun h => uncleared (h ▸ List.mem_cons_self)
    exact get?_apply kept (ih fun h => uncleared (List.mem_cons_of_mem _ h))

/-- The registry holds exactly what it has given. -/
theorem get?_after_iff : (after past).get? c as = some k ↔ Gave past c as k := by
  constructor
  · intro hk
    obtain ⟨later, n, before, hpast, uncleared, given, -⟩ := exists_made hk
    exact ⟨later, n, before, hpast, uncleared, given⟩
  · rintro ⟨later, n, before, rfl, uncleared, given⟩
    have held : (after (.realize n c as :: before)).get? c as = some k := get?_of_answer given
    exact get?_after_append held uncleared

theorem Gave.exists_serial (h : Gave past c as k) :
    ∃ n, k = .realized n c as ∧ .realize n c as ∈ past := by
  obtain ⟨later, n, before, rfl, -, -, made⟩ := exists_made (get?_after_iff.2 h)
  exact ⟨n, made, by simp⟩

theorem Gave.eq_iff (h : Gave past c as k) (h' : Gave past c' as' k') :
    k = k' ↔ c = c' ∧ as = as' := by
  constructor
  · rintro rfl
    obtain ⟨n, made, -⟩ := h.exists_serial
    obtain ⟨n', made', -⟩ := h'.exists_serial
    rw [made] at made'
    cases made'
    exact ⟨rfl, rfl⟩
  · rintro ⟨rfl, rfl⟩
    have held := get?_after_iff.2 h
    rw [get?_after_iff.2 h'] at held
    cases held
    rfl

/-- Operations with one serial number ask for the same instantiation, if all numbers differ. -/
theorem realize_inj {n : Nat} (fresh : (past.filterMap RegistryOp.serial?).Nodup)
    (h : .realize n c as ∈ past) (h' : .realize n c' as' ∈ past) : c = c' ∧ as = as' := by
  induction past with
  | nil => cases h
  | cons op past ih =>
    have numbered : ∀ {d bs}, .realize n d bs ∈ past → n ∈ past.filterMap RegistryOp.serial? :=
      fun hd => List.mem_filterMap.2 ⟨_, hd, rfl⟩
    cases op with
    | get | clear => exact ih fresh (by simpa using h) (by simpa using h')
    | realize m d bs =>
      obtain ⟨new, fresh⟩ := List.nodup_cons.1 fresh
      rcases List.mem_cons.1 h with first | later <;> rcases List.mem_cons.1 h' with first' | later'
      · cases first
        cases first'
        exact ⟨rfl, rfl⟩
      · cases first
        exact absurd (numbered later') new
      · cases first'
        exact absurd (numbered later) new
      · exact ih fresh later later'

/-- No two instantiations have a class with the same number, if all numbers differ. -/
theorem Gave.serial_eq_iff (h : Gave past c as k) (h' : Gave past c' as' k')
    (fresh : (past.filterMap RegistryOp.serial?).Nodup) :
    k.serial = k'.serial ↔ c = c' ∧ as = as' := by
  constructor
  · intro same
    obtain ⟨n, rfl, hn⟩ := h.exists_serial
    obtain ⟨n', rfl, hn'⟩ := h'.exists_serial
    obtain rfl : n = n' := same
    exact realize_inj fresh hn hn'
  · intro same
    rw [(h.eq_iff h').2 same]

/-! ## Counting -/

theorem get?_apply_ne_none_iff : (r.apply op).get? c as ≠ none ↔
    op ≠ .clear ∧ (r.get? c as ≠ none ∨ ∃ n, op = .realize n c as ∧ c.Accepts as) := by
  constructor
  · intro h
    obtain ⟨k, hk⟩ := Option.ne_none_iff_exists'.1 h
    obtain ⟨kept, hk | ⟨n, hop, accepts, -, -⟩⟩ := get?_of_apply hk
    · exact ⟨kept, .inl (by simp [hk])⟩
    · exact ⟨kept, .inr ⟨n, hop, accepts⟩⟩
  · rintro ⟨kept, h | ⟨n, rfl, accepts⟩⟩
    · obtain ⟨k, hk⟩ := Option.ne_none_iff_exists'.1 h
      simp [get?_apply kept hk]
    · obtain ⟨x, hx⟩ := exists_realize_iff (r := r) (n := n).2 accepts
      have given : r.answer n c as = .ok x.result := by simp [answer, hx]
      simp [get?_of_answer given]

/-- The registry holds the instantiations that have been accepted. -/
theorem mem_accepted_iff {k : ClassKey} :
    k ∈ accepted past ↔ (after past).get? k.origin k.args ≠ none := by
  obtain ⟨c, as⟩ := k
  induction past with
  | nil => exact ⟨nofun, fun h => absurd rfl h⟩
  | cons op past ih =>
    rw [after, get?_apply_ne_none_iff, ← ih]
    cases op with
    | get => simp [accepted]
    | clear => simp [accepted]
    | realize n d bs =>
      have asked : (∃ m, RegistryOp.realize n d bs = .realize m c as ∧ c.Accepts as) ↔
          (c = d ∧ as = bs) ∧ d.Accepts bs := by
        constructor
        · rintro ⟨m, same, accepts⟩
          cases same
          exact ⟨⟨rfl, rfl⟩, accepts⟩
        · rintro ⟨⟨rfl, rfl⟩, accepts⟩
          exact ⟨n, rfl, accepts⟩
      rw [asked]
      by_cases accepts : d.Accepts bs <;> simp [accepted, accepts, or_comm]

theorem size_after : (after past).size = (accepted past).card := by
  have keys : ((after past).classes.entries.map Prod.fst).toFinset = accepted past := by
    ext k
    rw [mem_accepted_iff, get?, Ne, Table.find?_eq_none_iff, List.mem_toFinset, List.mem_map]
    push Not
    rfl
  rw [← keys, List.toFinset_card_of_nodup (after past).classes.nodup_keys, List.length_map]
  rfl

end ClassRegistry

/-! ## Declaring classes -/

/-- The class that a construction is told to be realized, or not to be realizable. -/
def Move.realizes? : Move → Option (RuntimeClass × TypeArgs × Except Error RuntimeClass)
  | .answer _ (.realizeClass c as) x => some (c, as, x)
  | _ => none

/-- What constructions have been told of classes, the latest first. -/
def realizations (tr : List (ThreadId × Move)) :
    List (RuntimeClass × TypeArgs × Except Error RuntimeClass) :=
  tr.filterMap fun e => e.2.realizes?

namespace ClassRegistry

/-- In a run of a cache, the classes of what is built come from the registry. -/
structure Declares (past : List RegistryOp) (tr : List (ThreadId × Move)) (Y : System) :
    Prop where
  /-- What is complete in the cache has been built in the run. -/
  cached : ∀ k n, Y.state.cache.methods.find? k = some n → ∃ h r, h.key = k ∧
    Y.state.store.get? n = some (.describing h (some r)) ∧ Completed tr n r
  /-- What is built for class arguments has the class that the registry has given for them, also if
  it is forgotten later. -/
  declared : ∀ n r, Completed tr n r → ∃ h,
    Y.state.store.get? n = some (.describing h (some r)) ∧
    ∀ as, h.key.context.classArgs = some as →
      ∃ owner, r.owner = some owner ∧ Gave past h.key.definition.owner as owner
  /-- So two of them have the same class if their methods have, with the same arguments. -/
  one : ∀ n r h as n' r' h' as', Completed tr n r → Completed tr n' r' →
    Y.state.store.get? n = some (.describing h (some r)) →
    Y.state.store.get? n' = some (.describing h' (some r')) →
    h.key.context.classArgs = some as → h'.key.context.classArgs = some as' →
    (r.owner = r'.owner ↔ h.key.definition.owner = h'.key.definition.owner ∧ as = as')

variable {past : List RegistryOp} {g : Engine} {X Y : System} {tr : List (ThreadId × Move)}
  {c : RuntimeClass} {as : TypeArgs} {k : RuntimeClass}

theorem Answered.gave (h : Answered past c as (.ok k)) (uncleared : .clear ∉ past) :
    Gave past c as k := by
  obtain ⟨later, n, before, rfl, given⟩ := h
  exact ⟨later, n, before, rfl, fun hc => uncleared (List.mem_append_left _ hc), given.symm⟩

/-- What the registry has answered of a class; to other questions the answers are any. -/
def Agrees (past : List RegistryOp) : (q : Query) → q.Answer → Prop
  | .realizeClass c as, x => Answered past c as x
  | _, _ => True

theorem agrees_admits {m : Move}
    (h : ∀ c as x, m.realizes? = some (c, as, x) → Answered past c as x) :
    (Contract.given (Agrees past)).Admits m := by
  cases m with
  | answer c q x =>
    cases q with
    | realizeClass d as => exact h d as x rfl
    | _ => trivial
  | _ => trivial

theorem Gave.answered (h : Gave past c as k) : Answered past c as (.ok k) := by
  obtain ⟨later, n, before, hpast, -, given⟩ := h
  exact ⟨later, n, before, hpast, given.symm⟩

theorem declares {ok : System → ThreadId → Move → Prop} (uncleared : .clear ∉ past)
    (run : System.Run g ok X tr Y) (fresh : X.state.IsFresh) (idle : ∀ t, X.stackOf t = [])
    (asks : ∀ c as x, (c, as, x) ∈ realizations tr → Answered past c as x) :
    Declares past tr Y := by
  have admitted : System.Run g (fun _ _ m => (Contract.given (Agrees past)).Admits m) X tr Y := by
    refine run.of_mem fun t m hm => agrees_admits fun c as x hx => ?_
    exact asks c as x (List.mem_filterMap.2 ⟨_, hm, hx⟩)
  have course := admitted.course (fun _ _ _ h => h) fresh idle
  have declared : ∀ n r, Completed tr n r → ∃ h,
      Y.state.store.get? n = some (.describing h (some r)) ∧
      ∀ as, h.key.context.classArgs = some as →
        ∃ owner, r.owner = some owner ∧ Gave past h.key.definition.owner as owner := by
    intro n r hr
    obtain ⟨h, hd, builds⟩ := course.completed n r hr
    refine ⟨h, hd, fun as args => ?_⟩
    obtain ⟨owner, howner, answered⟩ := builds as args
    exact ⟨owner, howner, answered.gave uncleared⟩
  refine ⟨course.inserted, declared, ?_⟩
  intro n r h as n' r' h' as' hr hr' hd hd' args args'
  obtain ⟨l, hl, gives⟩ := declared n r hr
  obtain ⟨l', hl', gives'⟩ := declared n' r' hr'
  cases hd.symm.trans hl
  cases hd'.symm.trans hl'
  obtain ⟨owner, howner, gave⟩ := gives as args
  obtain ⟨owner', howner', gave'⟩ := gives' as' args'
  rw [howner, howner', Option.some_inj]
  exact gave.eq_iff gave'

/-- The registry accepts the instantiations that its classes allow, and has one class for each of
them. -/
structure RealizesExactly (past : List RegistryOp) : Prop where
  accepts : ∀ n c as, (∃ x, (after past).realize n c as = .ok x) ↔ c.Accepts as
  /-- What is rejected leaves no trace. -/
  unchanged : ∀ n c as, ¬c.Accepts as → after (.realize n c as :: past) = after past
  linked : ∀ c as k, Gave past c as k → k.instance? = some (c, as)
  one : ∀ c as k c' as' k', Gave past c as k → Gave past c' as' k' →
    (k = k' ↔ c = c' ∧ as = as')
  /-- Classes are told apart by their numbers, if no number is given twice. -/
  identified : (past.filterMap RegistryOp.serial?).Nodup →
    ∀ c as k c' as' k', Gave past c as k → Gave past c' as' k' →
      (k.serial = k'.serial ↔ c = c' ∧ as = as')
  found : ∀ c as k, (after past).get? c as = some k ↔ Gave past c as k
  counted : (after past).size = (accepted past).card
  /-- If a cache has asked the registry, and it has not been cleared, what the cache has built is
  declared by the classes of the registry. -/
  declares : .clear ∉ past → ∀ g ok X tr Y, System.Run g ok X tr Y → X.state.IsFresh →
    (∀ t, X.stackOf t = []) → (∀ c as x, (c, as, x) ∈ realizations tr → Answered past c as x) →
    Declares past tr Y

/-- After any operations in any order, accepted or rejected. -/
theorem realizes_exactly (past : List RegistryOp) : RealizesExactly past where
  accepts _ _ _ := exists_realize_iff
  unchanged n c as rejected := by
    obtain ⟨e, he⟩ := realize_rejected (r := after past) (n := n) rejected
    simp [after, apply, he]
  linked c as k gave := by
    obtain ⟨n, rfl, -⟩ := gave.exists_serial
    rfl
  one _ _ _ _ _ _ gave gave' := gave.eq_iff gave'
  identified fresh _ _ _ _ _ _ gave gave' := gave.serial_eq_iff gave' fresh
  found _ _ _ := get?_after_iff
  counted := size_after
  declares uncleared _ _ _ _ _ run fresh idle asks := declares uncleared run fresh idle asks

end ClassRegistry

namespace Sample

/-- Instances of two methods of one class, one after the other. -/
def shared : List (ThreadId × Cue) :=
  (.call (.get ⟨0, key read⟩ false) :: goOn 19 ++ .call (.get ⟨1, key write⟩ false) ::
    goOn 19).map fun q => (0, q)

/-- A cell of cells. -/
def cellOfCells : ClassKey where
  origin := .definition cell
  args := .cons (.named (.definition cell)) .nil

/-- The class is realized for the one and for the other. -/
def sharing : List RegistryOp :=
  [.realize 1 cellOfCells.origin cellOfCells.args, .realize 0 cellOfCells.origin cellOfCells.args]

end Sample

/-- The registry has one class for both methods, and it declares both instances. -/
theorem ClassRegistry.realizes_exactly_shared :
    ∃ R, System.replay {} .plain Sample.shared ([], {state := {}}) = some R ∧
      R.2.state.cache.methods.find? (Sample.key Sample.read) = some ⟨0⟩ ∧
      R.2.state.cache.methods.find? (Sample.key Sample.write) = some ⟨1⟩ ∧
      (after Sample.sharing).size = 1 ∧ Declares Sample.sharing R.1 R.2 := by
  have facts : (System.replay {} .plain Sample.shared ([], {state := {}})).map
      (fun R : List (ThreadId × Move) × System =>
        (R.2.state.cache.methods.find? (Sample.key Sample.read),
          R.2.state.cache.methods.find? (Sample.key Sample.write),
          decide (∀ e ∈ realizations R.1, e.2.2.toOption ≠ none ∧
            (after Sample.sharing).get? e.1 e.2.1 = e.2.2.toOption))) =
        some (some ⟨0⟩, some ⟨1⟩, true) := by
    decide +kernel
  obtain ⟨R, hR, hf⟩ := Option.map_eq_some_iff.1 facts
  obtain ⟨first, hf⟩ := Prod.mk.inj hf
  obtain ⟨second, told⟩ := Prod.mk.inj hf
  have run : System.Run {} (fun _ _ _ => True) {state := {}} R.1 R.2 :=
    System.replay_run (fun _ _ _ _ => trivial) .nil hR
  have asked : ∀ c as x, (c, as, x) ∈ realizations R.1 → Answered Sample.sharing c as x := by
    intro c as x hx
    obtain ⟨realized, held⟩ := of_decide_eq_true told _ hx
    cases x with
    | error e => exact absurd rfl realized
    | ok k => exact (get?_after_iff.1 held).answered
  exact ⟨R, hR, first, second, by decide +kernel,
    (realizes_exactly Sample.sharing).declares (by simp [Sample.sharing]) _ _ _ _ _ run ⟨rfl, rfl⟩
      (fun _ => rfl) asked⟩

end Monomorph
