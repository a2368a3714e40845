import Monomorph.Proofs.Replay
import Monomorph.Proofs.Twins

/-!
Copies of keys. Whether a request demands a copy of its key shows in nothing but the copy that the
descriptor is given: with any other demands there is a twin of the run, and twins have the same
results, tables, counters and events. Main statement: `Session.Run.key_copies_unseen`.
-/

namespace Monomorph

/-! ## Demands -/

namespace Call

/-- The same request with this demand to copy its key. A virtual call has none to make. -/
def copying (c : Call) (copyKey : Bool) : Call :=
  match c with
  | get h _ => get h copyKey
  | request r _ => request r copyKey
  | virtualTarget v called => virtualTarget v called

theorem like_copying (c : Call) (copyKey : Bool) : c.Like (c.copying copyKey) := by
  cases c with
  | get h b => exact .get rfl b copyKey
  | request r b =>
    cases r with
    | instantiate h => exact .instantiate rfl b copyKey
    | tooDeeplyNested => exact .tooDeeplyNested b copyKey
  | virtualTarget v called => exact .virtualTarget (.refl v) (.refl called)

/-- The request comes with this copy of its key. -/
def handle? : Call → Option KeyHandle
  | get h _ => some h
  | request (.instantiate h) _ => some h
  | _ => none

/-- The request demands that its key be copied. -/
def copiesKey : Call → Bool
  | get _ copyKey => copyKey
  | request _ copyKey => copyKey
  | virtualTarget _ _ => false

/-- The key that the request is for. -/
def key? : Call → Option MethodKey
  | get h _ => some h.key
  | request (.instantiate h) _ => some h.key
  | request .tooDeeplyNested _ => none
  | virtualTarget v called => (virtualKey v called).toOption

/-- A descriptor that is built for the request may be given this copy of the key, if these copies
have been made: the one that the request comes with, or, if that is not wanted, one that has been
made. -/
def MayStore (c : Call) (hs : List KeyHandle) (h : KeyHandle) : Prop :=
  if c.copiesKey = false ∧ c.handle?.isSome then c.handle? = some h
  else h ∈ hs ∧ c.key? = some h.key

theorem key?_of_handle? {c : Call} {h : KeyHandle} (hh : c.handle? = some h) :
    c.key? = some h.key := by
  cases c with
  | get => exact congrArg (Option.map (·.key)) hh
  | request r =>
    cases r with
    | instantiate => exact congrArg (Option.map (·.key)) hh
    | tooDeeplyNested => cases hh
  | virtualTarget => cases hh

theorem MayStore.mono {c : Call} {hs hs' : List KeyHandle} {h : KeyHandle} (may : c.MayStore hs h)
    (more : hs ⊆ hs') : c.MayStore hs' h := by
  unfold MayStore at *
  split at may
  · next own =>
    rw [if_pos own]
    exact may
  · next copied =>
    rw [if_neg copied]
    exact ⟨more may.1, may.2⟩

end Call

/-! ## What programs store -/

/-- The copy of a key that has been made. -/
def AnsweredAction.copy? : AnsweredAction → Option KeyHandle
  | ⟨.copyKey _, h⟩ => some h
  | _ => none

def Action.isAllocation : Action → Bool
  | allocate _ => true
  | _ => false

/-- After the copies `hs` have been made, the program only stores copies in `ok`. -/
def Program.Stores {α : Type} (ok : List KeyHandle → KeyHandle → Prop)
    (Q : List KeyHandle → α → Prop) : List KeyHandle → Program α → Prop
  | hs, .done a => Q hs a
  | hs, .act a next => (∀ h, a = .allocate (.ofKey h) → ok hs h) ∧
    ∀ x, a.CanYield x → (next x).Stores ok Q ((AnsweredAction.copy? ⟨a, x⟩).toList ++ hs)
  | hs, .ask _ _ next => ∀ x, (next x).Stores ok Q hs

namespace Program

variable {α β : Type} {ok : List KeyHandle → KeyHandle → Prop} {Q : List KeyHandle → α → Prop}
  {R : List KeyHandle → β → Prop} {hs : List KeyHandle} {p : Program α}

theorem Stores.bind {f : α → Program β} (hp : p.Stores ok Q hs)
    (hf : ∀ hs a, Q hs a → (f a).Stores ok R hs) : (p >>= f).Stores ok R hs := by
  induction p generalizing hs with
  | done a => exact hf hs a hp
  | act a next ih => exact ⟨hp.1, fun x hx => ih x (hp.2 x hx)⟩
  | ask c q next ih => exact fun x => ih x (hp x)

/-- Only what is allocated is stored. -/
theorem Stores.act {a : Action} {next : a.Response → Program α} (ha : a.isAllocation = false)
    (h : ∀ x, a.CanYield x → (next x).Stores ok Q ((AnsweredAction.copy? ⟨a, x⟩).toList ++ hs)) :
    (Program.act a next).Stores ok Q hs := by
  refine ⟨?_, h⟩
  rintro l rfl
  cases ha

/-- What a construction asks stores nothing. -/
theorem Consults.stores {P : α → Prop} {c : Construction}
    (h : p.Consults (fun _ _ => True) c P) : p.Stores ok (fun _ _ => True) hs := by
  induction p with
  | done a => trivial
  | act a next ih =>
    obtain ⟨⟨e, rfl, -⟩, rest⟩ := h
    exact .act rfl fun x _ => ih x (rest x)
  | ask c' q next ih => exact fun x => ih x (h.2 x trivial)

end Program

section Requests

open Program Construction

variable {ok : List KeyHandle → KeyHandle → Prop} {hs : List KeyHandle} {g : Engine}
  {h : KeyHandle} {copyKey : Bool}

theorem Construction.run_stores (c : Construction) (names : NameFormatter) :
    (c.run names).Stores ok (fun _ _ => True) hs := by
  have owner : c.realizeOwner.Consults (fun _ _ => True) c fun _ => True :=
    c.realizeOwner_consults fun _ => trivial
  refine owner.stores.bind fun hs owner _ => ?_
  cases owner with
  | error e => exact .act rfl fun _ _ => .act rfl fun _ _ => .act rfl fun _ _ => trivial
  | ok owner =>
    refine (c.realize_consults owner).stores.bind fun hs r _ => .act rfl fun x _ => ?_
    cases x with
    | error e => exact .act rfl fun _ _ => trivial
    | ok =>
      exact .act rfl fun _ _ => .act rfl fun _ _ => .act rfl fun _ _ => .act rfl fun _ _ => trivial

theorem Construction.start_stores (own : copyKey = false → ok hs h)
    (copied : copyKey = true → ∀ l, l.key = h.key → ok (l :: hs) l) :
    (start h copyKey).Stores ok (fun _ _ => True) hs := by
  have allocates : ∀ hs l, ok hs l → (do
      let m ← perform (.allocate (.ofKey l))
      perform (.addPending l.key m)
      return (⟨l, m⟩ : Construction)).Stores ok (fun _ _ => True) hs := by
    intro hs l hl
    refine ⟨fun l' hl' => ?_, fun _ _ => .act rfl fun _ _ => trivial⟩
    obtain rfl : l = l' := Descriptor.ofKey_inj.1 (Action.allocate.inj hl')
    exact hl
  cases copyKey with
  | false => exact allocates hs h (own rfl)
  | true => exact .act rfl fun l hl => allocates (l :: hs) l (copied rfl l hl)

theorem Engine.constructLocked_stores (own : copyKey = false → ok hs h)
    (copied : copyKey = true → ∀ l, l.key = h.key → ok (l :: hs) l) :
    (g.constructLocked h copyKey).Stores ok (fun _ _ => True) hs := by
  refine .act rfl fun x _ => ?_
  cases x with
  | some m => exact .act rfl fun _ _ => trivial
  | none =>
    refine .act rfl fun x _ => ?_
    cases x with
    | some m => exact .act rfl fun _ _ => .act rfl fun _ _ => trivial
    | none => exact (start_stores own copied).bind fun _ c _ => c.run_stores g.names

theorem Engine.request_stores (own : copyKey = false → ok hs h)
    (copied : copyKey = true → ∀ l, l.key = h.key → ok (l :: hs) l) :
    (g.request (.instantiate h) copyKey).Stores ok (fun _ _ => True) hs := by
  refine .act rfl fun x _ => ?_
  cases x with
  | some m => exact .act rfl fun _ _ => .act rfl fun _ _ => trivial
  | none =>
    cases g.validate h.key with
    | error e => trivial
    | ok =>
      refine .act rfl fun _ _ => (constructLocked_stores own copied).bind fun _ _ _ => ?_
      exact .act rfl fun _ _ => trivial

theorem Engine.placeholder_stores (g : Engine) (copyKey : Bool) :
    (g.request .tooDeeplyNested copyKey).Stores ok (fun _ _ => True) hs := by
  refine .act rfl fun _ _ => ⟨fun l hl => ?_, fun _ _ => trivial⟩
  exact absurd (Action.allocate.inj hl).symm (Descriptor.ofKey_ne_placeholder l)

theorem Engine.get_stores (own : copyKey = false → ok hs h)
    (copied : copyKey = true → ∀ l, l.key = h.key → ok (l :: hs) l) :
    (g.get h copyKey).Stores ok (fun _ _ => True) hs := by
  unfold get
  split
  · exact .act rfl fun _ _ => g.placeholder_stores copyKey
  · exact request_stores own copied

/-- A request stores no other copy of its key than it may. -/
theorem Call.program_stores (c : Call) (g : Engine) :
    (c.program g).Stores c.MayStore (fun _ _ => True) [] := by
  cases c with
  | get h copyKey =>
    refine Engine.get_stores ?_ ?_
    · rintro rfl
      exact rfl
    · rintro rfl l hl
      exact ⟨List.mem_cons_self, congrArg some hl.symm⟩
  | request r copyKey =>
    cases r with
    | tooDeeplyNested => exact g.placeholder_stores copyKey
    | instantiate h =>
      refine Engine.request_stores ?_ ?_
      · rintro rfl
        exact rfl
      · rintro rfl l hl
        exact ⟨List.mem_cons_self, congrArg some hl.symm⟩
  | virtualTarget v called =>
    simp only [program, Engine.virtualTarget]
    cases hv : virtualKey v called with
    | error e => trivial
    | ok k =>
      refine .act rfl fun l hl => Engine.get_stores (fun _ => ?_) ?_
      · have hl : l.key = k := hl
        refine ⟨List.mem_cons_self, ?_⟩
        simp [key?, hv, hl, Except.toOption]
      · intro copies
        cases copies

end Requests

/-! ## The copies of a request -/

/-- The copies of keys that have been made for the request, the latest first. -/
def Activity.copies (f : Activity) : List KeyHandle := f.actions.filterMap AnsweredAction.copy?

/-- The request stores what it may, and its own copies are new: they have serial numbers that no
copy had when it was made. -/
structure Activity.Keeps (f : Activity) (s : State) : Prop where
  rest : f.rest.Stores f.call.MayStore (fun _ _ => True) f.copies
  later : f.start.store.nextKey ≤ s.store.nextKey
  copied : ∀ h ∈ f.copies, f.start.store.nextKey ≤ h.serial ∧ h.serial < s.store.nextKey
  stored : ∀ c : Construction, c.AllocatedBy f.actions → f.call.MayStore f.copies c.key ∧
    ∃ o, s.store.get? c.method = some (.describing c.key o)

section Steps

variable {g : Engine} {t : ThreadId} {f f' : Activity} {s s' : State} {m : Move}
  {d : AnsweredAction}

theorem Action.nextKey_le (a : Action) (t : ThreadId) (s : State) :
    s.store.nextKey ≤ (a.apply t s).2.store.nextKey := by
  cases a with
  | copyKey k => exact Nat.le_succ _
  | publish m r =>
    simp only [apply]
    split
    · next store hs => exact Nat.le_of_eq (Store.next_publish hs).2.symm
    · exact Nat.le_refl _
  | _ => exact Nat.le_refl _

theorem Activity.Keeps.mono (h : f.Keeps s) (later : s.store.nextKey ≤ s'.store.nextKey)
    (store : s.store.Extends (fun _ => True) s'.store) : f.Keeps s' where
  rest := h.rest
  later := Nat.le_trans h.later later
  copied l hl := by
    obtain ⟨new, used⟩ := h.copied l hl
    exact ⟨new, Nat.lt_of_lt_of_le used later⟩
  stored c hc := by
    obtain ⟨may, o, hd⟩ := h.stored c hc
    obtain ⟨o', hd', -⟩ := store.describing hd
    exact ⟨may, o', hd'⟩

theorem Activity.Keeps.made (c : Call) (g : Engine) (s : State) :
    (Activity.made c g s).Keeps s where
  rest := c.program_stores g
  later := Nat.le_refl _
  copied := nofun
  stored := nofun

theorem Activity.Keeps.goes (h : f.Keeps s) (goes : f.Goes t s m f' s') : f'.Keeps s' := by
  cases goes with
  | answer rest x =>
    have stores := h.rest
    rw [rest] at stores
    exact ⟨stores x, h.later, h.copied, h.stored⟩
  | @act s' d next rest takes =>
    have stores := h.rest
    rw [rest] at stores
    obtain ⟨may, go⟩ := stores
    have later : s.store.nextKey ≤ s'.store.nextKey := by
      rw [takes.state_eq]
      exact d.action.nextKey_le t s
    have old := h.mono later (takes.store_extends.mono fun _ _ => trivial)
    -- What is new is a copy that has been made now, or a descriptor that is stored now.
    have copies : Activity.copies { f with actions := d :: f.actions, rest := next d.response } =
        d.copy?.toList ++ f.copies := filterMap_cons_toList _ d f.actions
    constructor
    · rw [copies]
      exact go d.response takes.canYield
    · exact old.later
    · intro l hl
      rw [copies] at hl
      rcases List.mem_append.1 hl with hl | hl
      · obtain ⟨a, x⟩ := d
        cases a with
        | copyKey k =>
          obtain rfl : l = x := by simpa [AnsweredAction.copy?] using hl
          rw [takes.state_eq, show l = _ from takes.response_eq]
          exact ⟨h.later, Nat.lt_succ_self _⟩
        | _ => cases hl
      · exact old.copied l hl
    · intro c hc
      rw [copies]
      have more : f.copies ⊆ d.copy?.toList ++ f.copies := List.subset_append_right _ _
      rcases List.mem_cons.1 hc with rfl | hc
      · refine ⟨(may c.key rfl).mono more, none, ?_⟩
        rw [takes.state_eq, show c.method = s.store.next from takes.response_eq]
        exact s.store.get?_allocate_next (.ofKey c.key)
      · exact ⟨(old.stored c hc).1.mono more, (old.stored c hc).2⟩

theorem Session.Step.nextKey_le {X Y : Session} (h : Session.Step g t X m Y) :
    X.state.store.nextKey ≤ Y.state.store.nextKey := by
  rcases h.state_cases with ⟨d, -, f, -, next, -, takes⟩ | ⟨a, -, -, hs⟩ | ⟨hs, -⟩
  · rw [takes.state_eq]
    exact d.action.nextKey_le t _
  · rw [hs]
    exact a.nextKey_le t _
  · exact Nat.le_of_eq (congrArg Store.nextKey hs).symm

/-- In a run, all requests store what they may, also those that have ended. -/
theorem Session.Run.keeps {ok : Session → Move → Prop} {X Y : Session} {tr : List Move}
    (run : Session.Run g t ok X tr Y) (idle : X.stack = [])
    (hf : f ∈ Y.stack ∨ ∃ r, .finish f r ∈ tr) : f.Keeps Y.state := by
  induction run generalizing f with
  | nil =>
    rcases hf with hf | ⟨r, hf⟩
    · rw [idle] at hf
      cases hf
    · cases hf
  | @step tr Y Z m run allowed move ih =>
    have old : (f ∈ Y.stack ∨ ∃ r, .finish f r ∈ tr) → f.Keeps Z.state := fun hf =>
      (ih hf).mono move.nextKey_le move.store_extends_any
    rcases hf with hf | ⟨r, hf⟩
    · rcases move.mem_stack hf with hf | ⟨c, -, rfl⟩ | ⟨f₀, hf₀, goes⟩
      · exact old (.inl hf)
      · exact (Activity.Keeps.made c g Y.state).mono move.nextKey_le move.store_extends_any
      · exact (ih (.inl hf₀)).goes goes
    · rcases List.mem_cons.1 hf with rfl | hf
      · cases move with
        | finish => exact ih (.inl List.mem_cons_self)
      · exact old (.inr ⟨r, hf⟩)

end Steps

/-! ## Twins that differ in their demands -/

/-- The states differ at most in the copies of keys that descriptors have. -/
structure State.SameButCopies (s s' : State) : Prop where
  cache : s.cache = s'.cache
  lock : s.lock = s'.lock
  events : s.events = s'.events
  size : s.store.descriptors.size = s'.store.descriptors.size
  descriptors : ∀ m, Option.Rel Descriptor.Like (s.store.get? m) (s'.store.get? m)

theorem State.Like.refl (s : State) : s.Like {} {} s where
  methods := .refl .refl _
  pending := .refl .refl _
  counters := ⟨s.cache.counters, by simp, by simp⟩
  store := {
    next := .refl _
    get? := by
      intro m n hm
      obtain rfl := hm.eq
      cases s.store.get? m with
      | none => exact .none
      | some d => exact .some (.refl d) }
  lock := rfl
  events := ⟨s.events, rfl, rfl⟩

theorem Cache.eq_of {c c' : Cache} (methods : c.methods = c'.methods)
    (pending : c.pending = c'.pending) (counters : c.counters = c'.counters) : c = c' := by
  cases c
  cases c'
  cases methods
  cases pending
  cases counters
  rfl

/-- Compared from the beginning, like states are the same but for copies. -/
theorem State.Like.sameButCopies {s s' : State} (h : s.Like {} {} s') : s.SameButCopies s' where
  cache := by
    obtain ⟨c, hc, hc'⟩ := h.counters
    exact Cache.eq_of (h.methods.eq fun _ _ hm => hm.eq) (h.pending.eq fun _ _ hm => hm.eq)
      (hc.trans hc'.symm)
  lock := h.lock
  events := by
    obtain ⟨es, he, he'⟩ := h.events
    exact he.trans he'.symm
  size := congrArg MethodId.index h.store.next.eq
  descriptors m := h.store.get? m m (.refl m)

/-- The copy of the key that the descriptor of `c`, built for the request, has been given. -/
structure Activity.Gives (f : Activity) (c : Construction) (s : State) : Prop where
  descriptor : ∃ o, s.store.get? c.method = some (.describing c.key o)
  key : f.call.key? = some c.key.key
  /-- If its key is not to be copied, it is the copy that the request comes with. -/
  own : ∀ h, f.call.handle? = some h → f.call.copiesKey = false → c.key = h
  /-- Otherwise it is a new one: its serial number was not given out when the request was made. -/
  new : f.call.handle? = none ∨ f.call.copiesKey = true →
    f.start.store.nextKey ≤ c.key.serial ∧ c.key.serial < s.store.nextKey
  /-- A copy that is known when the request is made is stored only if it is not to be copied. -/
  known : ∀ h, f.call.handle? = some h → h.serial < f.start.store.nextKey →
    (c.key = h ↔ f.call.copiesKey = false)

theorem Activity.Keeps.gives {f : Activity} {c : Construction} {s : State} (h : f.Keeps s)
    (hc : c.AllocatedBy f.actions) : f.Gives c s := by
  obtain ⟨may, descriptor⟩ := h.stored c hc
  unfold Call.MayStore at may
  split at may
  · next own =>
    have eq : ∀ l, f.call.handle? = some l → c.key = l := by
      intro l hl
      rw [may] at hl
      exact Option.some.inj hl
    refine ⟨descriptor, Call.key?_of_handle? may, fun l hl _ => eq l hl, ?_, ?_⟩
    · rintro (none | copies)
      · simp [none] at own
      · simp [copies] at own
    · exact fun l hl _ => ⟨fun _ => own.1, fun _ => eq l hl⟩
  · next copied =>
    have own : ∀ l, f.call.handle? = some l → f.call.copiesKey ≠ false := by
      intro l hl copies
      exact copied ⟨copies, by rw [hl]; rfl⟩
    obtain ⟨new, used⟩ := h.copied c.key may.1
    refine ⟨descriptor, may.2, fun l hl copies => absurd copies (own l hl),
      fun _ => ⟨new, used⟩, ?_⟩
    intro l hl known
    refine ⟨?_, fun copies => absurd copies (own l hl)⟩
    rintro rfl
    omega

namespace Session

/-- Demands to copy keys show in nothing but the copies that descriptors have. -/
structure CopiesUnseen (g : Engine) (t : ThreadId) (X : Session) (tr : List Move) (Y : Session) :
    Prop where
  /-- With any other demands there is a run in step with this one. -/
  reassigned : ∀ demand : List Call → Bool, ∃ tr' Y', Twins g t {} {} X X tr Y tr' Y' ∧
    requested tr' = rewritten (fun cs c => c.copying (demand cs)) (requested tr)
  /-- Any run in step with this one, with whatever demands and copies of keys its requests are made,
  makes the same moves, and has the same results and the same state at each step. -/
  unseen : ∀ tr' Y', Twins g t {} {} X X tr Y tr' Y' →
    List.Forall₂ (Move.Like {} {}) (visible {} tr) (visible {} tr') ∧
      results tr = results tr' ∧ Y.state.SameButCopies Y'.state
  stored : ∀ f, (f ∈ Y.stack ∨ ∃ r, .finish f r ∈ tr) →
    ∀ c : Construction, c.AllocatedBy f.actions →
    f.Gives c Y.state

/-- In every run of one thread, whatever the collaborators answer and request, and also if instances
are forgotten at any time. -/
theorem Run.key_copies_unseen {g : Engine} {t : ThreadId} {X Y : Session} {tr : List Move}
    (run : Run g t (fun _ _ => True) X tr Y) (idle : X.stack = []) : CopiesUnseen g t X tr Y := by
  have start : X.Like {} {} X := by
    refine ⟨.refl X.state, ?_⟩
    rw [idle]
    exact .nil
  refine ⟨?_, ?_, fun f hf c hc => (run.keeps idle hf).gives hc⟩
  · intro demand
    exact run.exists_twin start fun cs c => c.like_copying (demand cs)
  · intro tr' Y' twins
    refine ⟨twins.moves start, ?_, (twins.like start).state.sameButCopies⟩
    rw [← List.forall₂_eq_eq_eq]
    exact (twins.results start).imp fun _ _ => MethodResult.Like.eq

end Session

namespace Sample

/-- While the instance of one key is built from a copy, another one is built from a key itself. -/
def copying : List Cue :=
  .call (.get ⟨0, key read⟩ true) :: goOn 7 ++ .call (.get ⟨1, key write⟩ false) :: goOn 6

end Sample

/-- Two keys are known, and a third copy is made. -/
theorem Session.Run.key_copies_unseen_copying :
    ∃ R, replay {} 0 .plain Sample.copying ([], ⟨{store := {nextKey := 2}}, []⟩) = some R ∧
      R.2.state.store.descriptors.toList.map (fun d => d.key.map (·.serial)) =
        [some 2, some 1] ∧
      (requested R.1).map Call.copiesKey = [false, true] ∧
      CopiesUnseen {} 0 ⟨{store := {nextKey := 2}}, []⟩ R.1 R.2 := by
  have facts : (replay {} 0 .plain Sample.copying ([], ⟨{store := {nextKey := 2}}, []⟩)).map
      (fun R => (R.2.state.store.descriptors.toList.map (fun d => d.key.map (·.serial)),
        (requested R.1).map Call.copiesKey)) = some ([some 2, some 1], [false, true]) := by
    decide +kernel
  obtain ⟨R, hR, hf⟩ := Option.map_eq_some_iff.1 facts
  obtain ⟨serials, demands⟩ := Prod.mk.inj hf
  have run : Run {} 0 (fun _ _ => True) ⟨{store := {nextKey := 2}}, []⟩ R.1 R.2 :=
    replay_run (fun _ _ _ => trivial) .nil hR
  exact ⟨R, hR, serials, demands, run.key_copies_unseen rfl⟩

end Monomorph
