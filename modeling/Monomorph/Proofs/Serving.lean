import Monomorph.Proofs.PendingStack

/-!
A request from the moment it is made. `Session.Serving` is a run of the request alone, with what its
collaborators request meanwhile, on top of the requests that wait for it; such a run is part of the
run of the whole session (`Serving.run`). What it preserves is shown by `Serving.induction`: the
request goes on by itself, or it stands still while others do.
-/

namespace Monomorph

/-! ## A request on its own -/

/-- The request goes on by itself. -/
inductive Activity.Goes (t : ThreadId) (f : Activity) (s : State) :
    Move → Activity → State → Prop where
  | act {s' : State} {d : AnsweredAction} {next : d.action.Response → Program MethodResult}
      (rest : f.rest = .act d.action next) (takes : d.Takes t s s') :
      Goes t f s (.act d) { f with actions := d :: f.actions, rest := next d.response } s'
  | answer {c : Construction} {q : Query} {next : q.Answer → Program MethodResult}
      (rest : f.rest = .ask c q next) (x : q.Answer) :
      Goes t f s (.answer c q x) { f with rest := next x } s

namespace Activity.Goes

variable {t : ThreadId} {f f' : Activity} {s s' : State} {m : Move} {d : AnsweredAction}

theorem call_eq (h : f.Goes t s m f' s') : f'.call = f.call := by
  cases h <;> rfl

theorem mem_actions (h : f.Goes t s m f' s') (hd : d ∈ f.actions) : d ∈ f'.actions := by
  cases h with
  | act => exact List.mem_cons_of_mem _ hd
  | answer => exact hd

theorem of_mem_actions (h : f.Goes t s m f' s') (hd : d ∈ f'.actions) :
    d ∈ f.actions ∨ m = .act d := by
  cases h with
  | act =>
    rcases List.mem_cons.1 hd with rfl | hd
    · exact .inr rfl
    · exact .inl hd
  | answer => exact .inl hd

theorem step (g : Engine) (h : f.Goes t s m f' s') : Session.Step g t ⟨s, [f]⟩ m ⟨s', [f']⟩ := by
  cases h with
  | act rest takes => exact .act rest takes
  | answer rest x => exact .answer rest x

end Activity.Goes

theorem IsOpen.append {fs : List Activity} (h : IsOpen fs) (busy : fs ≠ []) (st : List Activity) :
    IsOpen (fs ++ st) := by
  cases fs with
  | nil => exact absurd rfl busy
  | cons => exact h

/-- How a request is made on top of those that are being served. -/
def Call.move (c : Call) : List Activity → Move
  | [] => .request c
  | _ :: _ => .nest c

namespace Session

variable {g : Engine} {t : ThreadId} {ok : Session → Move → Prop} {A X Y Z L L' : Session}
  {c : Call} {tr tr₀ : List Move} {m : Move} {above above' : List Activity} {f f' : Activity}
  {s s' : State}

/-- The requests of `st` wait below those of the session. -/
def onto (L : Session) (st : List Activity) : Session := ⟨L.state, L.stack ++ st⟩

@[simp] theorem onto_stack (L : Session) (st : List Activity) :
    (L.onto st).stack = L.stack ++ st := rfl

/-- Requests that wait further down do not matter to a move. -/
theorem Step.onto (h : Step g t L m L') (busy : L.stack ≠ []) (st : List Activity) :
    Step g t (L.onto st) m (L'.onto st) := by
  cases h with
  | request | hold | unhold => exact absurd rfl busy
  | nest c calling => exact .nest c calling
  | act rest takes => exact .act rest takes
  | answer rest x => exact .answer rest x
  | finish rest => exact .finish rest
  | outside turn outside => exact .outside (turn.append busy st) outside
  | reset turn => exact .reset (turn.append busy st)

theorem base_inj (above : List Activity) (h : above' ++ [f'] = above ++ [f]) :
    above' = above ∧ f' = f :=
  (List.append_inj' h rfl).imp_right fun h => (List.cons.inj h).1

/-- The request at the bottom of the stack goes on by itself, or it stands still; in that case a
collaborator is at work, for this request or for one above it. -/
theorem Step.base_cases (h : Step g t ⟨s, above ++ [f]⟩ m ⟨s', above' ++ [f']⟩) :
    (above = [] ∧ above' = [] ∧ f.Goes t s m f' s') ∨
      f' = f ∧ (above = [] → f.rest.isCalling = true) := by
  generalize hX : above ++ [f] = fs at h
  generalize hY : above' ++ [f'] = fs' at h
  cases h with
  | request | hold | unhold => simp at hX
  | nest c calling =>
    rw [← hX] at hY
    refine .inr ⟨(base_inj (_ :: above) hY).2, ?_⟩
    rintro rfl
    cases hX
    exact calling
  | act rest takes =>
    cases above with
    | nil =>
      cases hX
      obtain ⟨rfl, rfl⟩ := base_inj [] hY
      exact .inl ⟨rfl, rfl, .act rest takes⟩
    | cons b bs =>
      cases hX
      exact .inr ⟨(base_inj (_ :: bs) hY).2, nofun⟩
  | answer rest x =>
    cases above with
    | nil =>
      cases hX
      obtain ⟨rfl, rfl⟩ := base_inj [] hY
      exact .inl ⟨rfl, rfl, .answer rest x⟩
    | cons b bs =>
      cases hX
      exact .inr ⟨(base_inj (_ :: bs) hY).2, nofun⟩
  | finish rest =>
    cases above with
    | nil =>
      cases hX
      simp at hY
    | cons b bs =>
      cases hX
      exact .inr ⟨(base_inj bs hY).2, nofun⟩
  | outside turn | reset turn =>
    rw [← hX] at hY turn
    refine .inr ⟨(base_inj above hY).2, ?_⟩
    rintro rfl
    exact turn

/-! ## A request from the moment it is made -/

/-- The request `c` is made in `A` and served up to `L`, which has it on its stack, and above it
what collaborators have requested meanwhile. The requests of `A` wait. -/
structure Serving (g : Engine) (t : ThreadId) (ok : Session → Move → Prop) (A : Session)
    (c : Call) (tr : List Move) (L : Session) : Prop where
  turn : IsOpen A.stack
  allowed : ok A (c.move A.stack)
  run : Run g t (fun L m => L.stack ≠ [] ∧ ok (L.onto A.stack) m) ⟨A.state, [.made c g A.state]⟩
    tr L

/-- Nothing is on top of the request. -/
theorem Serving.nil_append (h : Serving g t ok A c tr ⟨s, [f]⟩) :
    Serving g t ok A c tr ⟨s, [] ++ [f]⟩ := h

theorem Step.of_call (c : Call) (turn : IsOpen A.stack) :
    Step g t A (c.move A.stack) ⟨A.state, .made c g A.state :: A.stack⟩ := by
  obtain ⟨s, st⟩ := A
  cases st with
  | nil => exact .request c
  | cons f st => exact .nest c turn

/-- What serves a request is a run with the requests that wait below it, too. -/
theorem Serving.run_onto (h : Serving g t ok A c tr L) :
    Run g t (fun Z m => Z.stack ≠ [] ∧ ok Z m) ⟨A.state, .made c g A.state :: A.stack⟩ tr
      (L.onto A.stack) := by
  obtain ⟨-, -, run⟩ := h
  induction run with
  | nil => exact .nil
  | step _ allowed move ih =>
    refine .step ih ⟨?_, allowed.2⟩ (move.onto allowed.1 _)
    simp [allowed.1]

/-- Serving a request is part of a run. -/
theorem Serving.run_append (h : Serving g t ok A c tr L) (run : Run g t ok X tr₀ A) :
    Run g t ok X (tr ++ c.move A.stack :: tr₀) (L.onto A.stack) :=
  .append (.step run h.allowed (.of_call c h.turn)) (h.run_onto.mono fun _ _ h => h.2)

/-- What holds when a request is made, is preserved by its own moves, and by those of others while
it waits, holds as long as it is served. -/
theorem Serving.induction {P : List Move → List Activity → Activity → State → Prop}
    (made : P [] [] (.made c g A.state) A.state)
    (own : ∀ {tr f s m f' s'}, Serving g t ok A c tr ⟨s, [f]⟩ → P tr [] f s →
      f.Goes t s m f' s' → P (m :: tr) [] f' s')
    (inner : ∀ {tr above f s m above' s'}, Serving g t ok A c tr ⟨s, above ++ [f]⟩ →
      P tr above f s → Step g t ⟨s, above ++ [f]⟩ m ⟨s', above' ++ [f]⟩ →
      ok ⟨s, above ++ f :: A.stack⟩ m → (above = [] → f.rest.isCalling = true) →
      P (m :: tr) above' f s')
    (h : Serving g t ok A c tr ⟨s, above ++ [f]⟩) : P tr above f s := by
  obtain ⟨turn, allowed, run⟩ := h
  generalize hL : Session.mk s (above ++ [f]) = L at run
  induction run generalizing s above f with
  | nil =>
    obtain ⟨rfl, hs⟩ := Session.mk.inj hL
    obtain ⟨rfl, rfl⟩ := base_inj [] hs
    exact made
  | @step tr Y Z m run allowed' move ih =>
    subst hL
    obtain ⟨s₀, fs⟩ := Y
    obtain rfl | ⟨above₀, f₀, hs⟩ := fs.eq_nil_or_concat
    · exact absurd rfl allowed'.1
    · rw [List.concat_eq_append] at hs
      subst hs
      have ih := ih rfl
      have serving : Serving g t ok A c tr ⟨s₀, above₀ ++ [f₀]⟩ := ⟨turn, allowed, run⟩
      rcases move.base_cases with ⟨rfl, rfl, goes⟩ | ⟨rfl, calling⟩
      · exact own serving ih goes
      · refine inner serving ih move ?_ calling
        simpa [Session.onto] using allowed'.2

theorem Serving.call_eq (h : Serving g t ok A c tr ⟨s, above ++ [f]⟩) : f.call = c := by
  refine h.induction (P := fun _ _ f _ => f.call = c) rfl ?_ ?_
  · intro tr f s m f' s' _ ih goes
    rw [goes.call_eq, ih]
  · intro tr above f s m above' s' _ ih _ _ _
    exact ih

/-! ## Sessions that can be reached -/

/-- A run from a fresh cache leads to the session. -/
def Reachable (g : Engine) (t : ThreadId) (ok : Session → Move → Prop) (A : Session) : Prop :=
  ∃ X tr, X.state.IsFresh ∧ X.stack = [] ∧ Run g t ok X tr A

namespace Reachable

theorem run (h : A.Reachable g t ok) (run : Run g t ok A tr Y) : Y.Reachable g t ok := by
  obtain ⟨X, tr₀, fresh, idle, before⟩ := h
  exact ⟨X, tr ++ tr₀, fresh, idle, before.append run⟩

theorem serving (h : A.Reachable g t ok) (serving : Serving g t ok A c tr L) :
    (L.onto A.stack).Reachable g t ok := by
  obtain ⟨X, tr₀, fresh, idle, before⟩ := h
  exact ⟨X, _, fresh, idle, serving.run_append before⟩

theorem consistent_any (h : A.Reachable g t ok) (resets : ∀ Z m, ok Z m → ResetsIdle Z m) :
    ∃ P, Consistent .any g (A.alone t) P := by
  obtain ⟨X, tr₀, fresh, idle, before⟩ := h
  exact (before.mono resets).consistent_any fresh idle

theorem sound (h : A.Reachable g t ok) (resets : ∀ Z m, ok Z m → ResetsIdle Z m) :
    ∃ φs, A.Sound .any g φs := by
  obtain ⟨P, consistent⟩ := h.consistent_any resets
  exact ⟨_, consistent.sound⟩

end Reachable

/-- The phase of a request that is being served, and those of the requests that wait for it. -/
theorem Serving.exists_serves (h : Serving g t ok A c tr ⟨s, above ++ [f]⟩)
    (reach : A.Reachable g t ok) (resets : ∀ Z m, ok Z m → ResetsIdle Z m) :
    ∃ φ φs, f.Serves .any g s (Phase.constructions φs) φ ∧ Stands .any g s A.stack φs := by
  obtain ⟨φs, sound⟩ := (reach.serving h).sound resets
  have stands : Stands .any g s (above ++ f :: A.stack) φs := by
    simpa [Session.onto] using sound.stands
  obtain ⟨ψs, stands⟩ := stands.suffix
  obtain ⟨φ, φs, -, serves, -, tail⟩ := stands.exists_serves rfl
  exact ⟨φ, φs, serves, tail⟩

/-! ## Requests in requests -/

/-- What is on top of a request has been there before, or is requested now; and what ends was on
top of it. -/
theorem Step.mem_above (h : Step g t ⟨s, above ++ [f]⟩ m ⟨s', above' ++ [f']⟩) :
    (∀ a ∈ above', m = .nest a.call ∨ ∃ b ∈ above, b.call = a.call) ∧
      ∀ a r, m = .finish a r → a ∈ above := by
  generalize hX : above ++ [f] = fs at h
  generalize hY : above' ++ [f'] = fs' at h
  cases h with
  | request | hold | unhold => simp at hX
  | nest c calling =>
    rw [← hX] at hY
    obtain ⟨rfl, -⟩ := base_inj (_ :: above) hY
    refine ⟨fun a ha => ?_, by simp⟩
    rcases List.mem_cons.1 ha with rfl | ha
    · exact .inl rfl
    · exact .inr ⟨a, ha, rfl⟩
  | act | answer =>
    cases above with
    | nil =>
      cases hX
      obtain ⟨rfl, -⟩ := base_inj [] hY
      simp
    | cons b bs =>
      cases hX
      obtain ⟨rfl, -⟩ := base_inj (_ :: bs) hY
      refine ⟨fun a ha => .inr ?_, by simp⟩
      rcases List.mem_cons.1 ha with rfl | ha
      · exact ⟨_, List.mem_cons_self, rfl⟩
      · exact ⟨a, List.mem_cons_of_mem _ ha, rfl⟩
  | finish rest =>
    cases above with
    | nil =>
      cases hX
      simp at hY
    | cons b bs =>
      cases hX
      obtain ⟨rfl, -⟩ := base_inj bs hY
      refine ⟨fun a ha => .inr ⟨a, List.mem_cons_of_mem _ ha, rfl⟩, ?_⟩
      rintro a r ⟨⟩
      exact List.mem_cons_self
  | outside | reset =>
    rw [← hX] at hY
    obtain ⟨rfl, -⟩ := base_inj above hY
    exact ⟨fun a ha => .inr ⟨a, ha, rfl⟩, by simp⟩

/-- All requests in the course of another one have been made by its collaborators. -/
structure Nested (tr : List Move) (above : List Activity) : Prop where
  waiting : ∀ a ∈ above, Move.nest a.call ∈ tr
  ended : ∀ a r, Move.finish a r ∈ tr → Move.nest a.call ∈ tr

theorem Nested.step (h : Nested tr above)
    (move : Step g t ⟨s, above ++ [f]⟩ m ⟨s', above' ++ [f']⟩) : Nested (m :: tr) above' := by
  obtain ⟨made, ends⟩ := move.mem_above
  constructor
  · intro a ha
    rcases made a ha with rfl | ⟨b, hb, he⟩
    · exact List.mem_cons_self
    · exact he ▸ List.mem_cons_of_mem _ (h.waiting b hb)
  · intro a r ha
    rcases List.mem_cons.1 ha with ha | ha
    · exact List.mem_cons_of_mem _ (h.waiting a (ends a r ha.symm))
    · exact List.mem_cons_of_mem _ (h.ended a r ha)

theorem Serving.nested (h : Serving g t ok A c tr ⟨s, above ++ [f]⟩) : Nested tr above := by
  refine h.induction (P := fun tr above _ _ => Nested tr above) ⟨by simp, by simp⟩ ?_ ?_
  · intro tr f s m f' s' _ ih goes
    exact ih.step (goes.step g)
  · intro tr above f s m above' s' _ ih move _ _
    exact ih.step move

/-! ## What has been done -/

variable {d : AnsweredAction}

/-- An action is done by the innermost request. -/
theorem Step.exists_action (h : Step g t X (.act d) Y) : ∃ a ∈ Y.stack, d ∈ a.actions := by
  cases h with
  | act => exact ⟨_, List.mem_cons_self, List.mem_cons_self⟩

/-- What a request has done stays with it until it ends. -/
theorem Step.actions_kept (h : Step g t X m Y) (hd : ∃ a ∈ X.stack, d ∈ a.actions) :
    (∃ a ∈ Y.stack, d ∈ a.actions) ∨ ∃ a r, m = .finish a r ∧ d ∈ a.actions := by
  obtain ⟨a, ha, hd⟩ := hd
  cases h with
  | request | hold | unhold => cases ha
  | nest => exact .inl ⟨a, List.mem_cons_of_mem _ ha, hd⟩
  | act | answer =>
    rcases List.mem_cons.1 ha with rfl | ha
    · exact .inl ⟨_, List.mem_cons_self, by simp [hd]⟩
    · exact .inl ⟨a, List.mem_cons_of_mem _ ha, hd⟩
  | @finish _ f _ r =>
    rcases List.mem_cons.1 ha with rfl | ha
    · exact .inr ⟨a, r, rfl, hd⟩
    · exact .inl ⟨a, ha, hd⟩
  | outside | reset => exact .inl ⟨a, ha, hd⟩

/-- What has been done has been done by a request that is being served or has ended. -/
theorem Run.exists_action (run : Run g t ok X tr Y) (hd : Move.act d ∈ tr) :
    (∃ a ∈ Y.stack, d ∈ a.actions) ∨ ∃ a r, Move.finish a r ∈ tr ∧ d ∈ a.actions := by
  induction run with
  | nil => cases hd
  | @step tr Y Z m run _ move ih =>
    rcases List.mem_cons.1 hd with rfl | hd
    · exact .inl move.exists_action
    · rcases ih hd with hY | ⟨a, r, ha, hd⟩
      · rcases move.actions_kept hY with hZ | ⟨a, r, rfl, ha⟩
        · exact .inl hZ
        · exact .inr ⟨a, r, List.mem_cons_self, ha⟩
      · exact .inr ⟨a, r, List.mem_cons_of_mem _ ha, hd⟩

/-! ## Collaborators that keep to some requests -/

/-- The construction for which the innermost request waits for an answer. -/
def asking? (X : Session) : Option Construction :=
  X.stack.head?.bind Activity.construction?

/-- Requests from outside are in `top`, those that a construction's collaborators make in `nested`.
The formatter makes none, and instances are forgotten only while no request is being served. -/
def Confined (top : Call → Prop) (nested : Construction → Call → Prop) (X : Session) :
    Move → Prop
  | .request c => top c
  | .nest c => ∃ a, a ∈ X.asking? ∧ nested a c
  | .reset => X.stack = []
  | _ => True

section Confined

variable {top : Call → Prop} {nested : Construction → Call → Prop}

instance [DecidablePred top] [∀ a, DecidablePred (nested a)] (X : Session) (m : Move) :
    Decidable (Confined top nested X m) :=
  match m with
  | .request c => inferInstanceAs (Decidable (top c))
  | .nest c => inferInstanceAs (Decidable (∃ a, a ∈ X.asking? ∧ nested a c))
  | .reset => inferInstanceAs (Decidable (X.stack = []))
  | .act _ | .answer _ _ _ | .finish _ _ | .outside _ | .hold | .unhold => isTrue trivial

theorem Confined.resetsIdle (h : Confined top nested X m) : ResetsIdle X m := by
  cases m with
  | reset =>
    have idle : X.stack = [] := h
    simp [ResetsIdle, constructions, idle]
  | _ => trivial

/-- Any requests may be made, but not by the formatter, and instances are forgotten only between
requests. -/
def Orderly : Session → Move → Prop := Confined (fun _ => True) fun _ _ => True

instance (X : Session) (m : Move) : Decidable (Orderly X m) :=
  inferInstanceAs (Decidable (Confined _ _ X m))

theorem Orderly.resetsIdle (X : Session) (m : Move) (h : X.Orderly m) : X.ResetsIdle m :=
  Confined.resetsIdle h

/-- All requests but the innermost wait for an answer. -/
def TailAsks (X : Session) : Prop := ∀ f ∈ X.stack.tail, f.construction? ≠ none

theorem TailAsks.step (h : X.TailAsks) (move : Step g t X m Y) (ok : Confined top nested X m) :
    Y.TailAsks := by
  cases move with
  | nest c calling =>
    obtain ⟨a, asks, -⟩ := ok
    rintro f' (_ | ⟨_, hf'⟩)
    · simp [show Activity.construction? _ = some a from asks]
    · exact h f' hf'
  | finish => exact fun f hf => h f (List.mem_of_mem_tail hf)
  | request => simp [TailAsks]
  | _ => exact h

theorem Run.tail_asks (run : Run g t (Confined top nested) X tr Y) (idle : X.stack = []) :
    Y.TailAsks := by
  induction run with
  | nil => simp [TailAsks, idle]
  | step _ allowed move ih => exact ih.step move allowed

end Confined

end Session

end Monomorph
