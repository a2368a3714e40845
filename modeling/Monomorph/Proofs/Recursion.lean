import Mathlib.Data.Finset.Card
import Monomorph.Proofs.Reply
import Monomorph.Proofs.Uniqueness

/-!
Recursion over finitely many keys. A construction may request any keys of a finite set, its own
among them, in any pattern and as often as it likes; a key that is under construction is not begun
again, so there are never more constructions than keys, and every request comes to its end. Main
statement: `Session.Run.finite_recursion_ends`.
-/

namespace Monomorph

/-! ## Keys in a finite set -/

/-- The key is in `S`, if there is one. -/
def Aim.IsIn (S : Finset MethodKey) : Aim → Prop
  | key k => k ∈ S
  | _ => True

instance (S : Finset MethodKey) (a : Aim) : Decidable (a.IsIn S) :=
  match a with
  | .key k => inferInstanceAs (Decidable (k ∈ S))
  | .placeholder | .error _ => isTrue trivial

/-- The call is for a key in `S`, or for none. -/
def Call.Within (g : Engine) (S : Finset MethodKey) (c : Call) : Prop := (c.aim g).IsIn S

instance (g : Engine) (S : Finset MethodKey) : DecidablePred (Call.Within g S) := fun c =>
  inferInstanceAs (Decidable ((c.aim g).IsIn S))

theorem Call.Within.mono {g : Engine} {S T : Finset MethodKey} {c : Call} (h : c.Within g S)
    (sub : S ⊆ T) : c.Within g T := by
  unfold Within at h ⊢
  cases aim : c.aim g with
  | key k =>
    rw [aim] at h
    exact sub h
  | placeholder | error => trivial

/-- A request for a key that is under construction is answered by the recursion guard. -/
theorem Engine.request_guarded {g : Engine} {t : ThreadId} {s : State} {h : KeyHandle}
    {m : MethodId} (copyKey : Bool) (valid : g.validate h.key = .ok ())
    (missing : s.cache.methods.find? h.key = none)
    (pending : s.cache.pending.find? h.key = some m) :
    (g.request (.instantiate h) copyKey).advance t s = (.finished (.ok m), { s with
      cache.counters := s.cache.counters.record .recursionHit
      events := s.events ++ [.pendingReturned] }) := by
  simp [request, construct, constructLocked, Program.perform, bind, pure, Program.bind,
    Program.advance, Action.apply, valid, missing, pending]

section Keys

variable {K : Contract} {g : Engine} {s : State} {fs : List Activity} {φ : Phase}
  {φs : List Phase} {c : Construction} {S : Finset MethodKey}

theorem Phase.aim_of_construction? (h : φ.construction? = some c) : φ.aim = .key c.key.key := by
  cases φ <;> first | (cases h; rfl) | cases h

theorem Phase.Warranted.valid (h : φ.Warranted K g) (hc : φ.construction? = some c) :
    g.validate c.key.key = .ok () := by
  cases φ <;> first | (cases hc; exact h) | (cases hc; exact h.1) | cases hc

/-- A construction is for the key of a request of the stack, and the key is valid. -/
theorem Stands.exists_call (h : Stands K g s fs φs) (hc : c ∈ Phase.constructions φs) :
    (∃ f ∈ fs, f.call.aim g = .key c.key.key) ∧ g.validate c.key.key = .ok () := by
  induction h with
  | nil => cases hc
  | @cons f fs φ φs serves _ _ ih =>
    rw [Phase.constructions_cons] at hc
    rcases List.mem_append.1 hc with hc | hc
    · have hφ : φ.construction? = some c := by simpa using hc
      refine ⟨⟨f, List.mem_cons_self, ?_⟩, serves.reached.warranted.valid hφ⟩
      rw [serves.aim_eq, Phase.aim_of_construction? hφ]
    · obtain ⟨⟨f', hf, aim⟩, valid⟩ := ih hc
      exact ⟨⟨f', List.mem_cons_of_mem _ hf, aim⟩, valid⟩

/-- The constructions that wait for an answer are in progress; the innermost request may be at one
that does not wait. -/
theorem Stands.sublist_constructions (h : Stands K g s fs φs) :
    (fs.filterMap Activity.construction?).Sublist (Phase.constructions φs) := by
  cases h with
  | nil => exact .refl _
  | @cons f fs φ φs serves turn tail =>
    rw [List.filterMap_cons, Phase.constructions_cons, tail.constructions_eq turn]
    cases hf : f.construction? with
    | none => exact List.sublist_append_right _ _
    | some c =>
      rw [← serves.construction?_eq (Activity.isCalling_of_construction? hf), hf]
      exact .refl _

end Keys

namespace Session

variable {K : Contract} {g : Engine} {t : ThreadId} {S : Finset MethodKey} {X Y : Session}
  {φs : List Phase} {tr : List Move} {m : Move} {c : Construction}

theorem Sound.constructions_le (h : X.Sound K g φs) :
    X.constructions.length ≤ X.state.cache.pending.size := by
  rw [Table.size, h.pending, List.length_map]
  exact h.stands.sublist_constructions.length_le

/-- There are no more pending instances than keys that the requests are for. -/
theorem Sound.size_le (h : X.Sound K g φs) (calls : ∀ f ∈ X.stack, f.call.Within g S) :
    X.state.cache.pending.size ≤ S.card := by
  have keys : (X.state.cache.pending.entries.map Prod.fst).toFinset ⊆ S := by
    intro k hk
    rw [List.mem_toFinset, h.pending, List.map_map] at hk
    obtain ⟨c, hc, rfl⟩ := List.mem_map.1 hk
    obtain ⟨⟨f, hf, aim⟩, -⟩ := h.stands.exists_call hc
    have within : (f.call.aim g).IsIn S := calls f hf
    rw [aim] at within
    exact within
  calc
    X.state.cache.pending.size = (X.state.cache.pending.entries.map Prod.fst).length := by
      rw [List.length_map, Table.size]
    _ = (X.state.cache.pending.entries.map Prod.fst).toFinset.card :=
      (List.toFinset_card_of_nodup X.state.cache.pending.nodup_keys).symm
    _ ≤ S.card := Finset.card_le_card keys

/-! ## Runs with nested requests in a finite set -/

/-- Requests that are made for a construction are for keys in `S`. Those from outside are for any
keys, the formatter makes none, and instances are forgotten only between requests. -/
def RecursesIn (g : Engine) (S : Finset MethodKey) : Session → Move → Prop :=
  Confined (fun _ => True) fun _ => Call.Within g S

instance (X : Session) (m : Move) : Decidable (RecursesIn g S X m) :=
  inferInstanceAs (Decidable (Confined _ _ X m))

/-- Only the outermost request may be for a key that is not in `S`. -/
theorem Run.nested_within (run : Run g t (RecursesIn g S) X tr Y) (idle : X.stack = []) :
    ∀ c ∈ (Y.stack.map Activity.call).dropLast, c.Within g S := by
  induction run with
  | nil => simp [idle]
  | step _ allowed move ih =>
    cases move with
    | request => simp
    | nest c =>
      obtain ⟨a, -, within⟩ := allowed
      intro c' hc
      rw [List.map_cons, List.map_cons, List.dropLast_cons_of_ne_nil (by simp)] at hc
      rcases List.mem_cons.1 hc with rfl | hc
      · exact within
      · exact ih c' hc
    | act | answer => exact ih
    | @finish s f st r =>
      intro c' hc
      cases st with
      | nil => cases hc
      | cons => exact ih c' (List.mem_cons_of_mem _ hc)
    | outside | hold | unhold | reset => exact ih

/-- All requests are for keys in a set that has `S` in it, if the outermost is. -/
theorem Run.calls_within {T : Finset MethodKey} (run : Run g t (RecursesIn g S) X tr Y)
    (idle : X.stack = []) (sub : S ⊆ T) (outermost : ∀ f ∈ Y.stack.getLast?, f.call.Within g T) :
    ∀ f ∈ Y.stack, f.call.Within g T := by
  have nested := run.nested_within idle
  intro f hf
  obtain hY | ⟨above, f₀, hY⟩ := Y.stack.eq_nil_or_concat
  · rw [hY] at hf
    cases hf
  · rw [List.concat_eq_append] at hY
    rw [hY] at hf nested outermost
    rcases List.mem_append.1 hf with hf | hf
    · exact (nested f.call (by simp [List.mem_map_of_mem hf])).mono sub
    · obtain rfl : f = f₀ := List.mem_singleton.1 hf
      exact outermost f (by simp)

/-- There are never more constructions than keys in `S`, and one more if the outermost request is
for another key. -/
theorem Run.constructions_le (run : Run g t (RecursesIn g S) X tr Y) (fresh : X.state.IsFresh)
    (idle : X.stack = []) : Y.constructions.length ≤ S.card + 1 := by
  obtain ⟨P, consistent⟩ := (run.mono fun _ _ h => h.resetsIdle).consistent_any fresh idle
  have sound := consistent.sound
  obtain ⟨T, sub, card, outermost⟩ : ∃ T : Finset MethodKey, S ⊆ T ∧ T.card ≤ S.card + 1 ∧
      ∀ f ∈ Y.stack.getLast?, f.call.Within g T := by
    cases hf : Y.stack.getLast? with
    | none => exact ⟨S, subset_rfl, Nat.le_succ _, by simp⟩
    | some f =>
      cases aim : f.call.aim g with
      | key k =>
        refine ⟨insert k S, Finset.subset_insert _ _, Finset.card_insert_le _ _, ?_⟩
        simp [Call.Within, aim, Aim.IsIn]
      | placeholder | error =>
        exact ⟨S, subset_rfl, Nat.le_succ _, by simp [Call.Within, aim, Aim.IsIn]⟩
  have size := sound.size_le (run.calls_within idle sub outermost)
  exact (sound.constructions_le.trans size).trans card

/-! ## Recursion ends -/

/-- While a collaborator is at work, a request for a key under construction is answered at once,
with the descriptor of that construction. -/
theorem Sound.advance_guarded (h : X.Sound .any g φs) (turn : IsOpen X.stack)
    (hc : c ∈ X.constructions) {c₀ : Call} (aim : c₀.aim g = .key c.key.key) (t : ThreadId) :
    ∃ n, (c₀.program g).advance t X.state = (.finished (.ok c.method), { X.state with
      cache.counters := X.state.cache.counters.record .recursionHit
      store.nextKey := n
      events := X.state.events ++ [.pendingReturned] }) := by
  have hφ : c ∈ Phase.constructions φs := by rwa [← h.stands.constructions_eq turn]
  have missing := (h.stands.underWay turn hφ).missing
  have valid := (h.stands.exists_call hφ).2
  have pending : X.state.cache.pending.find? c.key.key = some c.method :=
    Table.find?_of_mem_entries (h.pending ▸ List.mem_map_of_mem hφ)
  obtain ⟨l, copyKey, n, hl, advance⟩ := c₀.advance_eq aim t X.state
  rw [← hl] at missing valid pending
  exact ⟨n, advance.trans (Engine.request_guarded copyKey valid missing pending)⟩

/-- Recursion over the keys in `S` ends. -/
structure RecursionEnds (g : Engine) (t : ThreadId) (S : Finset MethodKey) (X : Session)
    (tr : List Move) (Y : Session) : Prop where
  /-- Every call that may be made now returns, however the collaborators reply to it with requests
  for keys in `S`, and the run goes on from there. -/
  returns : ∀ H : Host, (H.KeepsTo fun _ => Call.Within g S) → ∀ c : Call,
    RecursesIn g S Y (c.move Y.stack) → ∃ r new s,
      H.Finishes g t .own (c.move Y.stack :: tr) ⟨Y.state, .made c g Y.state :: Y.stack⟩ r
        (new ++ tr) ⟨s, Y.stack⟩ ∧
      Run g t (RecursesIn g S) X (new ++ tr) ⟨s, Y.stack⟩
  /-- No more constructions are in progress than `S` has keys. -/
  bounded : (∀ f ∈ Y.stack.getLast?, f.call.Within g S) →
    Y.constructions.length ≤ S.card ∧ Y.state.cache.pending.size ≤ S.card
  /-- A key that is under construction is not begun again. -/
  guarded : IsOpen Y.stack → ∀ c ∈ Y.constructions, ∀ c₀ : Call, c₀.aim g = .key c.key.key →
    ∀ (H : Host) r tr' Z,
      H.Finishes g t .own (c₀.move Y.stack :: tr) ⟨Y.state, .made c₀ g Y.state :: Y.stack⟩ r tr' Z →
      r = .ok c.method ∧ ∃ n, Z.stack = Y.stack ∧ Z.state = { Y.state with
        cache.counters := Y.state.cache.counters.record .recursionHit
        store.nextKey := n
        events := Y.state.events ++ [.pendingReturned] }

/-- In every run in which collaborators request keys of a finite set only, in whatever pattern,
every call returns. -/
theorem Run.finite_recursion_ends (run : Run g t (RecursesIn g S) X tr Y) (fresh : X.state.IsFresh)
    (idle : X.stack = []) (available : X.state.lock.isAvailable t = true) :
    RecursionEnds g t S X tr Y := by
  have resets : ∀ Z m, RecursesIn g S Z m → ResetsIdle Z m := fun _ _ h => h.resetsIdle
  obtain ⟨P, consistent⟩ := (run.mono resets).consistent_any fresh idle
  have sound := consistent.sound
  constructor
  · intro H keeps c allowed
    refine run.call_returns (N := S.card + 1) fresh idle available (fun Z reach => ?_) keeps c
      allowed
    obtain ⟨W, tr', fresh', idle', run'⟩ := reach
    exact run'.constructions_le fresh' idle'
  · intro outermost
    have size := sound.size_le (run.calls_within idle subset_rfl outermost)
    exact ⟨sound.constructions_le.trans size, size⟩
  · intro turn c hc c₀ aim H r tr' Z finishes
    obtain ⟨n, advance⟩ := sound.advance_guarded turn hc aim t
    obtain ⟨rfl, rfl⟩ := finishes.of_advance rfl advance
    exact ⟨rfl, n, rfl, rfl⟩

/-- Two keys, each under construction, one for the other. -/
theorem Run.finite_recursion_ends_nested :
    ∃ R, replayWhile (RecursesIn {} {Sample.key Sample.read, Sample.key Sample.write}) {} 0 .plain
        Sample.nested ([], ⟨{}, []⟩) = some R ∧
      R.2.constructions.map (·.key.key) = [Sample.key Sample.write, Sample.key Sample.read] ∧
      RecursionEnds {} 0 {Sample.key Sample.read, Sample.key Sample.write} ⟨{}, []⟩ R.1 R.2 := by
  have facts : (replayWhile (RecursesIn {} {Sample.key Sample.read, Sample.key Sample.write}) {} 0
      .plain Sample.nested ([], ⟨{}, []⟩)).map (fun R => R.2.constructions.map (·.key.key)) =
        some [Sample.key Sample.write, Sample.key Sample.read] := by
    decide +kernel
  obtain ⟨R, hR, waiting⟩ := Option.map_eq_some_iff.1 facts
  exact ⟨R, hR, waiting, (replayWhile_run .nil hR).finite_recursion_ends ⟨rfl, rfl⟩ rfl rfl⟩

end Session

end Monomorph
