import Monomorph.Proofs.Preservation
import Monomorph.Proofs.Replay

/-!
The pending instances of a cache that one thread uses are those of the requests on its stack. What
a request has made pending is read off its actions (`Activity.entry?`). Main statement:
`Session.Run.pending_is_stack`, for collaborators that make any requests at all, and for instances
that are forgotten only while no construction is in progress.
-/

namespace Monomorph

/-! ## Pending entries of requests -/

/-- The entry that the action makes pending, or that nothing is pending any more. -/
def AnsweredAction.registers : AnsweredAction → Option (Option (MethodKey × MethodId))
  | ⟨.addPending k m, _⟩ => some (some (k, m))
  | ⟨.removePending _, _⟩ => some none
  | _ => none

/-- What the request has made pending and not taken back. -/
def Activity.entry? (f : Activity) : Option (MethodKey × MethodId) :=
  (f.actions.findSome? AnsweredAction.registers).join

section Entries

variable {K : Contract} {g : Engine} {a : Aim} {ds : List AnsweredAction} {d : AnsweredAction}
  {φ φ' : Phase}

theorem Phase.Step.registers (h : φ.Step K g d φ') :
    d.registers.getD (φ.construction?.map Construction.entry) =
      φ'.construction?.map Construction.entry := by
  cases h <;> rfl

theorem Phase.Reached.entry (h : Reached K g a ds φ) :
    (ds.findSome? AnsweredAction.registers).join = φ.construction?.map Construction.entry :=
  h.findSome?_join (fun _ => rfl) fun step => step.registers

variable {s : State} {f : Activity} {fs : List Activity} {φs : List Phase}

theorem Activity.Serves.entry {below : List Construction} (h : f.Serves K g s below φ) :
    f.entry? = φ.construction?.map Construction.entry :=
  h.reached.entry

/-- The key of a construction has no instance, or this very one, whose pending entry is about to be
taken back. -/
theorem Activity.Serves.missing_or_inserted {below : List Construction} {c : Construction}
    (h : f.Serves K g s below φ) (hc : φ.construction? = some c) :
    s.cache.methods.find? c.key.key = none ∨
      s.cache.methods.find? c.key.key = some c.method ∧
        ∃ next, f.rest = .act (.removePending c.key.key) next := by
  cases φ with
  | building =>
    cases hc
    exact .inl h.holds.missing
  | published | refused =>
    cases hc
    exact .inl h.holds.1
  | inserted =>
    cases hc
    exact .inr ⟨h.holds, h.follows.of_inserted⟩
  | _ => cases hc

theorem Stands.entries (h : Stands K g s fs φs) :
    fs.filterMap Activity.entry? = (Phase.constructions φs).map Construction.entry := by
  induction h with
  | nil => rfl
  | @cons f fs φ φs serves _ _ ih =>
    rw [List.filterMap_cons, serves.entry, ih, Phase.constructions_cons]
    cases φ.construction? <;> rfl

/-- The descriptor of a pending entry has been allocated by the request whose entry it is. -/
theorem Stands.allocates (h : Stands K g s fs φs) (hf : f ∈ fs) {e : MethodKey × MethodId}
    (he : f.entry? = some e) : ∃ c : Construction, c.entry = e ∧ c.AllocatedBy f.actions := by
  induction h with
  | nil => cases hf
  | @cons f' fs φ φs serves _ _ ih =>
    rcases List.mem_cons.1 hf with rfl | hf
    · rw [serves.entry] at he
      obtain ⟨c, hc, rfl⟩ := Option.map_eq_some_iff.1 he
      exact ⟨c, rfl, serves.reached.allocates (Phase.begun?_of_construction? hc)⟩
    · exact ih hf

end Entries

/-! ## The entries when a request began -/

/-- When a request began, the entries of those below it were pending, and no others. -/
inductive Begun : List Activity → Prop where
  | nil : Begun []
  | cons {f : Activity} {fs : List Activity}
      (start : f.start.cache.pending.entries = fs.filterMap Activity.entry?) (tail : Begun fs) :
      Begun (f :: fs)

/-- Instances are forgotten only while no construction is in progress. -/
def Session.ResetsIdle (X : Session) : Move → Prop
  | .reset => X.constructions = []
  | _ => True

/-- If all answers are allowed and anyone may publish, only resets can be against the contract. -/
theorem Contract.permits_of_resetsIdle {K : Contract} {X : Session} {t : ThreadId} {m : Move}
    (answers : ∀ q x, K.answers q x) (publish : K.mayPublish) (h : X.ResetsIdle m) :
    K.Permits (X.alone t) t m := by
  cases m with
  | reset =>
    refine ⟨?_, fun u hu => X.alone_stackOf_of_ne hu⟩
    rw [X.alone_session]
    exact h
  | answer c q x => exact answers q x
  | outside a =>
    cases a with
    | publish => exact publish
    | _ => trivial
  | _ => trivial

namespace Session

variable {g : Engine} {t : ThreadId} {X Y : Session} {tr : List Move} {m : Move}

theorem Step.begun (h : Step g t X m Y) (begun : Begun X.stack)
    (pending : X.state.cache.pending.entries = X.stack.filterMap Activity.entry?) :
    Begun Y.stack := by
  cases h with
  | request | nest => exact .cons pending begun
  | act | answer =>
    cases begun with
    | cons start tail => exact .cons start tail
  | finish =>
    cases begun with
    | cons start tail => exact tail
  | outside | hold | unhold | reset => exact begun

/-- The invariant of a thread alone, whatever its collaborators answer. -/
theorem Run.consistent_any (run : Run g t ResetsIdle X tr Y) (fresh : X.state.IsFresh)
    (idle : X.stack = []) : ∃ P, Consistent .any g (Y.alone t) P :=
  run.consistent (fun _ _ hm => Contract.permits_of_resetsIdle (fun _ _ => trivial) trivial hm)
    fresh idle

/-- The pending instances are exactly those of the requests being served. -/
structure PendingIsStack (X : Session) : Prop where
  /-- Each request has the entry that it has made pending, and there are no others. -/
  entries : X.state.cache.pending.entries = X.stack.filterMap Activity.entry?
  distinct_keys : ((X.stack.filterMap Activity.entry?).map Prod.fst).Nodup
  allocated : ∀ f ∈ X.stack, ∀ e, f.entry? = some e →
    ∃ c : Construction, c.entry = e ∧ c.AllocatedBy f.actions
  /-- While a collaborator is at work, the entries are those of the constructions that wait. -/
  waiting : IsOpen X.stack →
    X.state.cache.pending.entries = X.constructions.map Construction.entry
  disjoint : IsOpen X.stack → ∀ k m, X.state.cache.pending.find? k = some m →
    X.state.cache.methods.find? k = none
  /-- At any other time only the innermost request can have an entry that is out of date, and it is
  about to take it back. -/
  overlap : ∀ k m, X.state.cache.pending.find? k = some m →
    X.state.cache.methods.find? k = none ∨ X.state.cache.methods.find? k = some m ∧
      ∃ f st next, X.stack = f :: st ∧ f.rest = .act (.removePending k) next
  inserts_new : ∀ f st k m next, X.stack = f :: st → f.rest = .act (.addMethod k m) next →
    X.state.cache.methods.find? k = none
  complete : ∀ k m, X.state.cache.methods.find? k = some m →
    ∃ d h, X.state.store.get? m = some d ∧ d.state = .complete ∧ d.key = some h ∧ h.key = k
  /-- A request leaves the pending instances as it found them. -/
  restored : ∀ f st r, X.stack = f :: st → f.rest = .done r →
    X.state.cache.pending = f.start.cache.pending

section Sound

variable {K : Contract} {φs : List Phase} {k : MethodKey} {n : MethodId}

theorem Sound.pending_entries (h : X.Sound K g φs) :
    X.state.cache.pending.entries = X.stack.filterMap Activity.entry? := by
  rw [h.pending, h.stands.entries]

/-- What is pending is under construction. -/
theorem Sound.exists_construction (h : X.Sound K g φs)
    (hk : X.state.cache.pending.find? k = some n) :
    ∃ c ∈ Phase.constructions φs, k = c.key.key ∧ n = c.method := by
  have he := Table.mem_entries_of_find? hk
  rw [h.pending] at he
  obtain ⟨c, hc, he⟩ := List.mem_map.1 he
  obtain ⟨hk, hn⟩ := Prod.mk.inj he
  exact ⟨c, hc, hk.symm, hn.symm⟩

theorem Sound.missing_or_removed_next (h : X.Sound K g φs)
    (hk : X.state.cache.pending.find? k = some n) :
    X.state.cache.methods.find? k = none ∨ X.state.cache.methods.find? k = some n ∧
      ∃ f st next, X.stack = f :: st ∧ f.rest = .act (.removePending k) next := by
  obtain ⟨c, hc, rfl, rfl⟩ := h.exists_construction hk
  cases hX : X.stack with
  | nil =>
    rw [h.stands.eq_nil hX] at hc
    cases hc
  | cons f fs =>
    obtain ⟨φ, φs, rfl, serves, turn, tail⟩ := h.stands.exists_serves hX
    rw [Phase.constructions_cons] at hc
    rcases List.mem_append.1 hc with hc | hc
    · have hφ : φ.construction? = some c := by simpa using hc
      rcases serves.missing_or_inserted hφ with missing | ⟨found, next, rest⟩
      · exact .inl missing
      · exact .inr ⟨found, f, fs, next, rfl, rest⟩
    · exact .inl (tail.underWay turn hc).missing

/-- What is to be inserted next is for a key without an instance. -/
theorem Sound.missing_of_addMethod (h : X.Sound K g φs) {f : Activity} {st : List Activity}
    {next : Unit → Program MethodResult} (hX : X.stack = f :: st)
    (rest : f.rest = .act (.addMethod k n) next) : X.state.cache.methods.find? k = none := by
  obtain ⟨φ, φs, -, serves, -⟩ := h.stands.exists_serves hX
  have follows := serves.follows
  rw [rest] at follows
  obtain ⟨φ', step, -⟩ := follows () trivial
  cases step
  exact serves.holds.1

/-- A request that ends has no entry of its own, so what is pending is what was so at its start. -/
theorem Sound.pending_eq_start (h : X.Sound K g φs) (begun : Begun X.stack) {f : Activity}
    {st : List Activity} {r : MethodResult} (hX : X.stack = f :: st) (rest : f.rest = .done r) :
    X.state.cache.pending = f.start.cache.pending := by
  obtain ⟨φ, φs, -, serves, -⟩ := h.stands.exists_serves hX
  have none : f.entry? = none := by
    rw [serves.entry]
    cases serves.ends rest <;> rfl
  have entries := h.pending_entries
  rw [hX] at begun entries
  cases begun with
  | cons start =>
    apply Table.ext
    rw [entries, start, List.filterMap_cons, none]

theorem Sound.isStack_of_begun (h : X.Sound K g φs) (begun : Begun X.stack) :
    X.PendingIsStack where
  entries := h.pending_entries
  distinct_keys := h.pending_entries ▸ X.state.cache.pending.nodup_keys
  allocated f hf e he := h.stands.allocates hf he
  waiting turn := by
    rw [h.pending, ← h.stands.constructions_eq turn]
    rfl
  disjoint turn k m hk := by
    obtain ⟨c, hc, rfl, -⟩ := h.exists_construction hk
    exact (h.stands.underWay turn hc).missing
  overlap _ _ hk := h.missing_or_removed_next hk
  inserts_new _ _ _ _ _ hX rest := h.missing_of_addMethod hX rest
  complete k m hk := by
    obtain ⟨-, l, r, hl, hd, -⟩ := h.built hk
    exact ⟨_, l, hd, rfl, rfl, hl⟩
  restored _ _ _ hX rest := h.pending_eq_start begun hX rest

end Sound

theorem Run.begun (run : Run g t ResetsIdle X tr Y) (fresh : X.state.IsFresh)
    (idle : X.stack = []) : Begun Y.stack := by
  induction run with
  | nil => exact idle ▸ .nil
  | step run _ move ih =>
    obtain ⟨P, h⟩ := run.consistent_any fresh idle
    exact move.begun ih h.sound.pending_entries

/-- In every run of one thread, whatever its collaborators answer and request, the pending
instances are those of the construction stack. -/
theorem Run.pending_is_stack (run : Run g t ResetsIdle X tr Y) (fresh : X.state.IsFresh)
    (idle : X.stack = []) : Y.PendingIsStack := by
  obtain ⟨P, h⟩ := run.consistent_any fresh idle
  exact h.sound.isStack_of_begun (run.begun fresh idle)

/-- A construction that waits for another one. -/
theorem Run.pending_is_stack_nested :
    ∃ R, replay {} 0 .plain Sample.nested ([], ⟨{}, []⟩) = some R ∧
      R.2.constructions.map (·.method) = [⟨1⟩, ⟨0⟩] ∧ R.2.state.cache.pending.size = 2 ∧
      R.2.PendingIsStack := by
  have facts : (replay {} 0 .plain Sample.nested ([], ⟨{}, []⟩)).map (fun R =>
      (R.2.constructions.map (·.method), R.2.state.cache.pending.size)) =
        some ([⟨1⟩, ⟨0⟩], 2) := by
    decide +kernel
  obtain ⟨R, hR, hf⟩ := Option.map_eq_some_iff.1 facts
  obtain ⟨waiting, size⟩ := Prod.mk.inj hf
  have run : Run {} 0 ResetsIdle ⟨{}, []⟩ R.1 R.2 :=
    replay_run (fun _ m hm => by cases m <;> first | exact hm.elim | trivial) .nil hR
  exact ⟨R, hR, waiting, size, run.pending_is_stack ⟨rfl, rfl⟩ rfl⟩

end Session

end Monomorph
