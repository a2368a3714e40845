import Monomorph.Proofs.Counterpart
import Monomorph.Proofs.Course

/-!
Two runs in step. In `Twins`, two runs of a thread have the same input: like requests are made at
the same points, collaborators give equal answers, and code outside the cache does like things.
Everything else is up to the cache, and comes out alike: the sessions (`Twins.like`), the moves
(`Twins.moves`) and the results (`Twins.results`). Every run has a twin from every like session,
whatever like requests are made in it (`Session.Run.exists_twin`).
-/

namespace Monomorph

/-! ## Sessions -/

def Action.isCopy : Action → Bool
  | copyKey _ => true
  | _ => false

/-- The program is about to copy a key. -/
def Program.isCopying {α : Type} : Program α → Bool
  | act a _ => a.isCopy
  | _ => false

/-- A move without a counterpart. -/
def Move.isSilent (M : Mark) : Move → Bool
  | act d => d.action.isCopy
  | outside a => a.isSilent M
  | _ => false

/-- A request and its counterpart have done the same, and go on alike. -/
structure Activity.Like (M N : Mark) (f f' : Activity) : Prop where
  call : f.call.Like f'.call
  actions : List.Forall₂ (AnsweredAction.Like M N) (f.actions.filter (!·.action.isCopy))
    (f'.actions.filter (!·.action.isCopy))
  rest : f.rest.Like M N (MethodResult.Like M N) f'.rest

structure Session.Like (M N : Mark) (X X' : Session) : Prop where
  state : X.state.Like M N X'.state
  stack : List.Forall₂ (Activity.Like M N) X.stack X'.stack

/-- The moves have the same input. What the cache does by itself is not compared, but that it is the
turn of the cache in both. -/
inductive Move.Matches (M N : Mark) : Move → Move → Prop where
  | request {c c' : Call} (h : c.Like c') : Matches M N (.request c) (.request c')
  | nest {c c' : Call} (h : c.Like c') : Matches M N (.nest c) (.nest c')
  | act {d d' : AnsweredAction} (hd : d.action.isCopy = false) (hd' : d'.action.isCopy = false) :
      Matches M N (.act d) (.act d')
  | answer {c c' : Construction} {q q' : Query} {x : q.Answer} {x' : q'.Answer} (h : HEq x x') :
      Matches M N (.answer c q x) (.answer c' q' x')
  | finish {f f' : Activity} {r r' : MethodResult} : Matches M N (.finish f r) (.finish f' r')
  | outside {a a' : Action} (h : a.Like M N a') : Matches M N (.outside a) (.outside a')
  | hold : Matches M N .hold .hold
  | unhold : Matches M N .unhold .unhold
  | reset : Matches M N .reset .reset

/-- The moves are the same. -/
inductive Move.Like (M N : Mark) : Move → Move → Prop where
  | request {c c' : Call} (h : c.Like c') : Like M N (.request c) (.request c')
  | nest {c c' : Call} (h : c.Like c') : Like M N (.nest c) (.nest c')
  | act {d d' : AnsweredAction} (h : d.Like M N d') : Like M N (.act d) (.act d')
  | answer {c c' : Construction} {q q' : Query} {x : q.Answer} {x' : q'.Answer}
      (hc : c.Like M N c') (hq : q.Like M N q') (h : HEq x x') :
      Like M N (.answer c q x) (.answer c' q' x')
  | finish {f f' : Activity} {r r' : MethodResult} (hf : f.Like M N f')
      (hr : MethodResult.Like M N r r') : Like M N (.finish f r) (.finish f' r')
  | outside {a a' : Action} (h : a.Like M N a') : Like M N (.outside a) (.outside a')
  | hold : Like M N .hold .hold
  | unhold : Like M N .unhold .unhold
  | reset : Like M N .reset .reset

section Symmetry

variable {M N : Mark}

theorem Action.Like.symm {a a' : Action} (h : a.Like M N a') : a'.Like N M a := by
  obtain ⟨x, x', h⟩ := h
  exact ⟨x', x, h.symm⟩

theorem Activity.Like.symm {f f' : Activity} (h : f.Like M N f') : f'.Like N M f where
  call := h.call.symm
  actions := List.Forall₂.flip (h.actions.imp fun _ _ => .symm)
  rest := h.rest.symm fun _ _ => .symm

theorem Session.Like.symm {X X' : Session} (h : X.Like M N X') : X'.Like N M X where
  state := h.state.symm
  stack := List.Forall₂.flip (h.stack.imp fun _ _ => .symm)

theorem Move.Matches.symm {m m' : Move} (h : m.Matches M N m') : m'.Matches N M m := by
  cases h with
  | request h => exact .request h.symm
  | nest h => exact .nest h.symm
  | act hd hd' => exact .act hd' hd
  | answer h => exact .answer h.symm
  | finish => exact .finish
  | outside h => exact .outside h.symm
  | hold => exact .hold
  | unhold => exact .unhold
  | reset => exact .reset

end Symmetry

/-! ## Programs that do not copy -/

namespace Program.Like

variable {M N : Mark} {α β : Type} {Q : α → β → Prop} {p : Program α} {p' : Program β}

/-- A program that copies a key goes on as before. -/
theorem of_copyKey {k : MethodKey} {next : KeyHandle → Program α}
    (h : (Program.act (.copyKey k) next).Like M N Q p') {l : KeyHandle} (hl : l.key = k) :
    (next l).Like M N Q p' := by
  generalize hp : Program.act (.copyKey k) next = p at h
  induction h with
  | done | ask => cases hp
  | act like =>
    cases hp
    obtain ⟨x, x', like⟩ := like
    cases like
  | copyLeft go =>
    cases hp
    exact go l hl
  | copyRight go ih => exact .copyRight fun h hh => ih h hh hp

theorem of_act {a a' : Action} {next : a.Response → Program α} {next' : a'.Response → Program β}
    (h : (Program.act a next).Like M N Q (.act a' next')) (ha : a.isCopy = false)
    (ha' : a'.isCopy = false) : a.Like M N a' ∧
      ∀ x x', AnsweredAction.Like M N ⟨a, x⟩ ⟨a', x'⟩ → (next x).Like M N Q (next' x') := by
  cases h with
  | act like go => exact ⟨like, go⟩
  | copyLeft => cases ha
  | copyRight => cases ha'

theorem of_done {a : α} {b : β} (h : (Program.done a).Like M N Q (.done b)) : Q a b := by
  cases h with
  | done h => exact h

theorem of_ask {c c' : Construction} {q q' : Query} {next : q.Answer → Program α}
    {next' : q'.Answer → Program β} (h : (Program.ask c q next).Like M N Q (.ask c' q' next')) :
    c.Like M N c' ∧ q.Like M N q' ∧ ∀ x x', HEq x x' → (next x).Like M N Q (next' x') := by
  cases h with
  | ask hc hq go => exact ⟨hc, hq, go⟩

end Program.Like

/-! ## Steps -/

namespace Activity.Like

variable {M N : Mark} {t : ThreadId} {f f' : Activity} {s s' z z' : State}

/-- A copied key makes no difference. -/
theorem copy {k : MethodKey} {h : KeyHandle} {next : KeyHandle → Program MethodResult}
    (hf : f.Like M N f') (rest : f.rest = .act (.copyKey k) next)
    (takes : AnsweredAction.Takes ⟨.copyKey k, h⟩ t s z) :
    { f with actions := ⟨.copyKey k, h⟩ :: f.actions, rest := next h }.Like M N f' := by
  have like := hf.rest
  rw [rest] at like
  exact ⟨hf.call, hf.actions, like.of_copyKey takes.canYield⟩

/-- What a request and its counterpart do next is the same. -/
theorem act {d d' : AnsweredAction} {next : d.action.Response → Program MethodResult}
    {next' : d'.action.Response → Program MethodResult} (hf : f.Like M N f') (hs : s.Like M N s')
    (rest : f.rest = .act d.action next) (rest' : f'.rest = .act d'.action next')
    (takes : d.Takes t s z) (takes' : d'.Takes t s' z') (hd : d.action.isCopy = false)
    (hd' : d'.action.isCopy = false) : d.Like M N d' ∧ z.Like M N z' ∧
      { f with actions := d :: f.actions, rest := next d.response }.Like M N
        { f' with actions := d' :: f'.actions, rest := next' d'.response } := by
  have like := hf.rest
  rw [rest, rest'] at like
  obtain ⟨ha, go⟩ := like.of_act hd hd'
  obtain ⟨same, after⟩ := hs.apply ha t
  rw [← takes.state_eq, ← takes'.state_eq] at after
  rw [← takes.response_eq, ← takes'.response_eq] at same
  refine ⟨same, after, hf.call, ?_, go _ _ same⟩
  rw [List.filter_cons_of_pos (by simpa using hd), List.filter_cons_of_pos (by simpa using hd')]
  exact .cons same hf.actions

/-- A request and its counterpart ask the same, and equal answers keep them alike. -/
theorem answer {c c' : Construction} {q q' : Query} {next : q.Answer → Program MethodResult}
    {next' : q'.Answer → Program MethodResult} {x : q.Answer} {x' : q'.Answer}
    (hf : f.Like M N f') (rest : f.rest = .ask c q next) (rest' : f'.rest = .ask c' q' next')
    (hx : HEq x x') : c.Like M N c' ∧ q.Like M N q' ∧
      { f with rest := next x }.Like M N { f' with rest := next' x' } := by
  have like := hf.rest
  rw [rest, rest'] at like
  obtain ⟨hc, hq, go⟩ := like.of_ask
  exact ⟨hc, hq, hf.call, hf.actions, go x x' hx⟩

theorem finish {r r' : MethodResult} (hf : f.Like M N f') (rest : f.rest = .done r)
    (rest' : f'.rest = .done r') : MethodResult.Like M N r r' := by
  have like := hf.rest
  rw [rest, rest'] at like
  exact like.of_done

theorem made {c c' : Call} (hc : c.Like c') (g : Engine) :
    (Activity.made c g s).Like M N (.made c' g s') :=
  ⟨hc, .nil, hc.program_like g⟩

end Activity.Like

namespace Session.Like

variable {M N : Mark} {g : Engine} {t : ThreadId} {X X' Y Y' : Session} {m m' : Move}

/-- A move without a counterpart leads to a session that is still like the other. -/
theorem step_left (h : X.Like M N X') (move : Step g t X m Y) (silent : m.isSilent M = true) :
    Y.Like M N X' := by
  obtain ⟨s', st'⟩ := X'
  obtain ⟨state, stack⟩ := h
  cases move with
  | @act s z f st d next rest takes =>
    obtain ⟨a, x⟩ := d
    cases a with
    | copyKey k =>
      cases stack with
      | cons hf tail =>
        refine ⟨?_, .cons (hf.copy rest takes) tail⟩
        rw [takes.state_eq]
        exact state.apply_left rfl t
    | _ => cases silent
  | outside turn outside => exact ⟨state.apply_left silent t, stack⟩
  | _ => cases silent

/-- Moves with the same input lead from like sessions to like sessions, and they are the same. -/
theorem step_both (h : X.Like M N X') (move : Step g t X m Y) (move' : Step g t X' m' Y')
    (same : m.Matches M N m') : Y.Like M N Y' ∧ m.Like M N m' := by
  obtain ⟨state, stack⟩ := h
  cases same with
  | request hc =>
    cases move
    cases move'
    exact ⟨⟨state, .cons (.made hc g) .nil⟩, .request hc⟩
  | nest hc =>
    cases move
    cases move'
    exact ⟨⟨state, .cons (.made hc g) stack⟩, .nest hc⟩
  | act hd hd' =>
    cases move with | act rest takes => ?_
    cases move' with | act rest' takes' => ?_
    cases stack with | cons hf tail => ?_
    obtain ⟨done, after, go⟩ := hf.act state rest rest' takes takes' hd hd'
    exact ⟨⟨after, .cons go tail⟩, .act done⟩
  | answer hx =>
    cases move with | answer rest => ?_
    cases move' with | answer rest' => ?_
    cases stack with | cons hf tail => ?_
    obtain ⟨hc, hq, go⟩ := hf.answer rest rest' hx
    exact ⟨⟨state, .cons go tail⟩, .answer hc hq hx⟩
  | finish =>
    cases move with | finish rest => ?_
    cases move' with | finish rest' => ?_
    cases stack with | cons hf tail => ?_
    exact ⟨⟨state, tail⟩, .finish hf (hf.finish rest rest')⟩
  | outside ha =>
    cases move
    cases move'
    exact ⟨⟨(state.apply ha t).2, stack⟩, .outside ha⟩
  | hold =>
    cases move
    cases move'
    exact ⟨⟨{ state with lock := congrArg (MetadataLock.acquire t) state.lock }, stack⟩, .hold⟩
  | unhold =>
    cases move
    cases move'
    exact ⟨⟨{ state with lock := congrArg MetadataLock.release state.lock }, stack⟩, .unhold⟩
  | reset =>
    cases move
    cases move'
    exact ⟨⟨{ state with methods := .nil, pending := .nil }, stack⟩, .reset⟩

end Session.Like

/-! ## Runs -/

/-- Two runs in step, from `A` and from `A'`: matching moves are made together, and moves without a
counterpart alone. -/
inductive Twins (g : Engine) (t : ThreadId) (M N : Mark) (A A' : Session) :
    List Move → Session → List Move → Session → Prop where
  | nil : Twins g t M N A A' [] A [] A'
  | both {tr tr' : List Move} {Y Y' Z Z' : Session} {m m' : Move}
      (twins : Twins g t M N A A' tr Y tr' Y') (move : Session.Step g t Y m Z)
      (move' : Session.Step g t Y' m' Z') (same : m.Matches M N m') :
      Twins g t M N A A' (m :: tr) Z (m' :: tr') Z'
  | left {tr tr' : List Move} {Y Y' Z : Session} {m : Move}
      (twins : Twins g t M N A A' tr Y tr' Y') (move : Session.Step g t Y m Z)
      (silent : m.isSilent M = true) : Twins g t M N A A' (m :: tr) Z tr' Y'
  | right {tr tr' : List Move} {Y Y' Z' : Session} {m' : Move}
      (twins : Twins g t M N A A' tr Y tr' Y') (move : Session.Step g t Y' m' Z')
      (silent : m'.isSilent N = true) : Twins g t M N A A' tr Y (m' :: tr') Z'

/-- The moves that have a counterpart. -/
def visible (M : Mark) (tr : List Move) : List Move := tr.filter (!·.isSilent M)

def Move.result? : Move → Option MethodResult
  | finish _ r => some r
  | _ => none

/-- What the requests that have ended gave, the latest first. -/
def results (tr : List Move) : List MethodResult := tr.filterMap Move.result?

namespace Move

variable {M N : Mark} {m m' : Move}

theorem result?_of_isSilent (h : m.isSilent M = true) : m.result? = none := by
  cases m <;> first | rfl | cases h

theorem call?_of_isSilent (h : m.isSilent M = true) : m.call? = none := by
  cases m <;> first | rfl | cases h

theorem Like.not_silent (h : m.Like M N m') : m.isSilent M = false ∧ m'.isSilent N = false := by
  have compared : ∀ {i j}, MethodId.Like M N i j →
      decide (i.index < M.size) = false ∧ decide (j.index < N.size) = false := by
    intro i j hi
    exact ⟨decide_eq_false (Nat.not_lt.2 hi.1), decide_eq_false (Nat.not_lt.2 hi.symm.1)⟩
  cases h with
  | act h => cases h <;> exact ⟨rfl, rfl⟩
  | outside h =>
    obtain ⟨x, x', h⟩ := h
    cases h with
    | publish hm => exact compared hm
    | _ => exact ⟨rfl, rfl⟩
  | _ => exact ⟨rfl, rfl⟩

end Move

namespace Twins

variable {g : Engine} {t : ThreadId} {M N : Mark} {A A' Y Y' Z : Session} {tr tr' : List Move}
  {m : Move}

theorem symm (h : Twins g t M N A A' tr Y tr' Y') : Twins g t N M A' A tr' Y' tr Y := by
  induction h with
  | nil => exact .nil
  | both _ move move' same ih => exact .both ih move' move same.symm
  | left _ move silent ih => exact .right ih move silent
  | right _ move silent ih => exact .left ih move silent

theorem run (h : Twins g t M N A A' tr Y tr' Y') : Session.Run g t (fun _ _ => True) A tr Y := by
  induction h with
  | nil => exact .nil
  | both _ move _ _ ih => exact .step ih trivial move
  | left _ move _ ih => exact .step ih trivial move
  | right _ _ _ ih => exact ih

section Like

variable (start : A.Like M N A')

include start

/-- Twins stay alike. -/
theorem like (h : Twins g t M N A A' tr Y tr' Y') : Y.Like M N Y' := by
  induction h with
  | nil => exact start
  | both _ move move' same ih => exact (ih.step_both move move' same).1
  | left _ move silent ih => exact ih.step_left move silent
  | right _ move silent ih => exact (ih.symm.step_left move silent).symm

/-- Twins make the same moves. -/
theorem moves (h : Twins g t M N A A' tr Y tr' Y') :
    List.Forall₂ (Move.Like M N) (visible M tr) (visible N tr') := by
  induction h with
  | nil => exact .nil
  | both twins move move' same ih =>
    have like := ((twins.like start).step_both move move' same).2
    obtain ⟨loud, loud'⟩ := like.not_silent
    simp only [visible, List.filter_cons, loud, loud']
    exact .cons like ih
  | left _ _ silent ih =>
    simp only [visible, List.filter_cons, silent]
    exact ih
  | right _ _ silent ih =>
    simp only [visible, List.filter_cons, silent]
    exact ih

/-- Twins give the same results. -/
theorem results (h : Twins g t M N A A' tr Y tr' Y') :
    List.Forall₂ (MethodResult.Like M N) (results tr) (results tr') := by
  induction h with
  | nil => exact .nil
  | both twins move move' same ih =>
    have like := ((twins.like start).step_both move move' same).2
    cases like with
    | finish _ hr => exact .cons hr ih
    | _ => exact ih
  | left _ _ silent ih =>
    simp only [Monomorph.results, List.filterMap_cons, Move.result?_of_isSilent silent]
    exact ih
  | right _ _ silent ih =>
    simp only [Monomorph.results, List.filterMap_cons, Move.result?_of_isSilent silent]
    exact ih

end Like

end Twins

/-! ## The twin of a run -/

section Turns

variable {M N : Mark} {α β : Type} {Q : α → β → Prop} {p : Program α} {p' : Program β}

theorem Program.isCopying_of_isCalling (h : p.isCalling = true) : p.isCopying = false := by
  cases p with
  | act a next => cases a <;> first | rfl | cases h
  | done | ask => rfl

/-- If neither copies a key, like programs let collaborators have the turn at the same time. -/
theorem Program.Like.isCalling_eq (h : p.Like M N Q p') (hp : p.isCopying = false)
    (hp' : p'.isCopying = false) : p.isCalling = p'.isCalling := by
  cases h with
  | done | ask => rfl
  | act like =>
    obtain ⟨x, x', like⟩ := like
    cases like <;> rfl
  | copyLeft => cases hp
  | copyRight => cases hp'

/-- What a program does next, its counterpart does next, unless it copies a key first. -/
theorem Program.Like.exists_act {a : Action} {next : a.Response → Program α}
    (h : (Program.act a next).Like M N Q p') (ha : a.isCopy = false) (hp' : p'.isCopying = false) :
    ∃ a' next', p' = .act a' next' ∧ a.Like M N a' ∧ a'.isCopy = false := by
  cases h with
  | act like => exact ⟨_, _, rfl, like, hp'⟩
  | copyLeft => cases ha
  | copyRight => cases hp'

theorem Program.Like.exists_ask {c : Construction} {q : Query} {next : q.Answer → Program α}
    (h : (Program.ask c q next).Like M N Q p') (hp' : p'.isCopying = false) :
    ∃ c' q' next', p' = .ask c' q' next' ∧ q.Like M N q' := by
  cases h with
  | ask _ hq => exact ⟨_, _, _, rfl, hq⟩
  | copyRight => cases hp'

theorem Program.Like.exists_done {a : α} (h : (Program.done a).Like M N Q p')
    (hp' : p'.isCopying = false) : ∃ b, p' = .done b := by
  cases h with
  | done => exact ⟨_, rfl⟩
  | copyRight => cases hp'

/-- What code outside the cache does has a counterpart, unless it is silent. -/
theorem Action.exists_like {a : Action} (outside : a.isOutside = true)
    (loud : a.isSilent M ≠ true) :
    ∃ a', a.Like M N a' ∧ a'.isOutside = true := by
  cases a with
  | emit e => exact ⟨.emit e, ⟨(), (), .emit e⟩, rfl⟩
  | allocate d =>
    obtain ⟨n, hn⟩ := MethodId.Like.exists_of_le (M := M) (m := ⟨M.size⟩) N (Nat.le_refl _)
    exact ⟨.allocate d, ⟨_, n, .allocate (.refl d) hn⟩, rfl⟩
  | publish m r =>
    have compared : M.size ≤ m.index := Nat.not_lt.1 (mt decide_eq_true loud)
    obtain ⟨n, hn⟩ := MethodId.Like.exists_of_le N compared
    exact ⟨.publish n r, ⟨_, _, .publish hn r (.ok ())⟩, rfl⟩
  | copyKey => exact absurd rfl loud
  | _ => cases outside

end Turns

/-- The calls that have been made, the latest first. -/
def requested (tr : List Move) : List Call := tr.filterMap Move.call?

/-- Each call is replaced by one that is chosen for it, maybe in view of those before. -/
def rewritten (choose : List Call → Call → Call) : List Call → List Call
  | [] => []
  | c :: cs => choose cs c :: rewritten choose cs

theorem requested_cons (m : Move) (tr : List Move) :
    requested (m :: tr) = m.call?.toList ++ requested tr := filterMap_cons_toList _ m tr

namespace Twins

variable {g : Engine} {t : ThreadId} {M N : Mark} {A A' Y Y' Z : Session} {tr tr' : List Move}
  {m : Move} {s s' : State} {f f' : Activity} {st st' : List Activity}

section Ready

variable (start : A.Like M N A')

include start

/-- If a request does not copy a key now, its counterpart can be as far. -/
theorem exists_ready (h : Twins g t M N A A' tr ⟨s, f :: st⟩ tr' Y')
    (ready : f.rest.isCopying = false) : ∃ tr₁ s₁ f₁ st₁,
      Twins g t M N A A' tr ⟨s, f :: st⟩ tr₁ ⟨s₁, f₁ :: st₁⟩ ∧ f₁.rest.isCopying = false ∧
        requested tr₁ = requested tr' := by
  obtain ⟨s', fs'⟩ := Y'
  obtain ⟨f', st', rfl, like⟩ : ∃ f' st', fs' = f' :: st' ∧
      f.rest.Like M N (MethodResult.Like M N) f'.rest := by
    cases (h.like start).stack with
    | cons hf => exact ⟨_, _, rfl, hf.rest⟩
  -- The induction is on the keys that the counterpart still has to copy.
  generalize f.rest = p, hr : f'.rest = p' at like ready
  induction like generalizing f' s' tr' with
  | done | ask => exact ⟨tr', s', f', st', h, by rw [hr]; rfl, rfl⟩
  | act like =>
    obtain ⟨x, x', like⟩ := like
    refine ⟨tr', s', f', st', h, ?_, rfl⟩
    rw [hr]
    cases like <;> rfl
  | copyLeft => cases ready
  | @copyRight k p next go ih =>
    have takes : AnsweredAction.Takes ⟨.copyKey k, (s'.store.copyKey k).1⟩ t s'
        (Action.apply t s' (.copyKey k)).2 := ⟨rfl, rfl⟩
    have later := ih _ rfl _ _ (h.right (.act hr takes) rfl) rfl ready
    exact later

theorem head (h : Twins g t M N A A' tr ⟨s, f :: st⟩ tr' ⟨s', f' :: st'⟩) :
    s.Like M N s' ∧ f.Like M N f' := by
  have like := h.like start
  cases like.stack with
  | cons hf => exact ⟨like.state, hf⟩

/-- If code outside the cache has the turn in one run, it can have it in the other. -/
theorem exists_open (h : Twins g t M N A A' tr Y tr' Y') (turn : IsOpen Y.stack) :
    ∃ tr₁ Y₁, Twins g t M N A A' tr Y tr₁ Y₁ ∧ IsOpen Y₁.stack ∧
      requested tr₁ = requested tr' := by
  obtain ⟨s, fs⟩ := Y
  cases fs with
  | nil =>
    obtain ⟨s', fs'⟩ := Y'
    cases (h.like start).stack
    exact ⟨tr', _, h, trivial, rfl⟩
  | cons f st =>
    have ready := Program.isCopying_of_isCalling turn
    obtain ⟨tr₁, s₁, f₁, st₁, twins, ready₁, same⟩ := h.exists_ready start ready
    have turns := (twins.head start).2.rest.isCalling_eq ready ready₁
    exact ⟨tr₁, _, twins, turns.symm.trans turn, same⟩

/-- Whatever happens next in one run, it can happen in the other. -/
theorem extend {choose : List Call → Call → Call} (likes : ∀ cs (c : Call), c.Like (choose cs c))
    (h : Twins g t M N A A' tr Y tr' Y') (chosen : requested tr' = rewritten choose (requested tr))
    (move : Session.Step g t Y m Z) : ∃ tr₁ Z₁, Twins g t M N A A' (m :: tr) Z tr₁ Z₁ ∧
      requested tr₁ = rewritten choose (requested (m :: tr)) := by
  by_cases silent : m.isSilent M = true
  · refine ⟨tr', Y', h.left move silent, ?_⟩
    rw [requested_cons, Move.call?_of_isSilent silent]
    exact chosen
  -- Before it makes the same move, the other run may have keys to copy.
  cases move with
  | request c =>
    obtain ⟨s', fs'⟩ := Y'
    cases (h.like start).stack
    have same : (Move.request c).Matches M N (.request (choose (requested tr) c)) :=
      .request (likes _ c)
    exact ⟨_, _, h.both (.request c) (.request _) same, congrArg (List.cons _) chosen⟩
  | nest c calling =>
    have ready := Program.isCopying_of_isCalling calling
    obtain ⟨tr₁, s₁, f₁, st₁, twins, ready₁, reqs⟩ := h.exists_ready start ready
    have turns := (twins.head start).2.rest.isCalling_eq ready ready₁
    have same : (Move.nest c).Matches M N (.nest (choose (requested tr) c)) := .nest (likes _ c)
    exact ⟨_, _, twins.both (.nest c calling) (.nest _ (turns.symm.trans calling)) same,
      congrArg (List.cons _) (reqs.trans chosen)⟩
  | @act s z f st d next rest takes =>
    have ready : f.rest.isCopying = false := by
      rw [rest]
      exact Bool.eq_false_iff.2 silent
    obtain ⟨tr₁, s₁, f₁, st₁, twins, ready₁, reqs⟩ := h.exists_ready start ready
    obtain ⟨state, hf⟩ := twins.head start
    have like := hf.rest
    rw [rest] at like
    obtain ⟨a', next', rest', ha, loud⟩ := like.exists_act (Bool.eq_false_iff.2 silent) ready₁
    have takes' : AnsweredAction.Takes ⟨a', (a'.apply t s₁).1⟩ t s₁ (a'.apply t s₁).2 :=
      ⟨(state.isEnabled_eq ha).symm.trans takes.enabled, rfl⟩
    exact ⟨_, _, twins.both (.act rest takes) (.act rest' takes')
      (.act (Bool.eq_false_iff.2 silent) loud), reqs.trans chosen⟩
  | @answer s f st c q next rest x =>
    have ready : f.rest.isCopying = false := by rw [rest]; rfl
    obtain ⟨tr₁, s₁, f₁, st₁, twins, ready₁, reqs⟩ := h.exists_ready start ready
    have like := (twins.head start).2.rest
    rw [rest] at like
    obtain ⟨c', q', next', rest', hq⟩ := like.exists_ask ready₁
    obtain ⟨x', hx⟩ := hq.exists_answer x
    exact ⟨_, _, twins.both (.answer rest x) (.answer rest' x') (.answer hx), reqs.trans chosen⟩
  | @finish s f st r rest =>
    have ready : f.rest.isCopying = false := by rw [rest]; rfl
    obtain ⟨tr₁, s₁, f₁, st₁, twins, ready₁, reqs⟩ := h.exists_ready start ready
    have like := (twins.head start).2.rest
    rw [rest] at like
    obtain ⟨r', rest'⟩ := like.exists_done ready₁
    exact ⟨_, _, twins.both (.finish rest) (.finish rest') .finish, reqs.trans chosen⟩
  | outside turn outside =>
    obtain ⟨tr₁, Y₁, twins, turn₁, reqs⟩ := h.exists_open start turn
    obtain ⟨a', ha, outside'⟩ := Action.exists_like (N := N) outside silent
    exact ⟨_, _, twins.both (.outside turn outside) (.outside turn₁ outside') (.outside ha),
      reqs.trans chosen⟩
  | hold available =>
    obtain ⟨s', fs'⟩ := Y'
    have like := h.like start
    cases like.stack
    have available' := available
    rw [like.state.lock] at available'
    exact ⟨_, _, h.both (.hold available) (.hold available') .hold, chosen⟩
  | unhold held =>
    obtain ⟨s', fs'⟩ := Y'
    have like := h.like start
    cases like.stack
    have held' := held
    rw [like.state.lock] at held'
    exact ⟨_, _, h.both (.unhold held) (.unhold held') .unhold, chosen⟩
  | reset turn =>
    obtain ⟨tr₁, Y₁, twins, turn₁, reqs⟩ := h.exists_open start turn
    exact ⟨_, _, twins.both (.reset turn) (.reset turn₁) .reset, reqs.trans chosen⟩

end Ready

end Twins

/-- Every run has a twin, whatever like requests are made in it. -/
theorem Session.Run.exists_twin {g : Engine} {t : ThreadId} {ok : Session → Move → Prop}
    {M N : Mark} {A A' Y : Session} {tr : List Move} (run : Session.Run g t ok A tr Y)
    (start : A.Like M N A') {choose : List Call → Call → Call}
    (likes : ∀ cs (c : Call), c.Like (choose cs c)) : ∃ tr' Y',
      Twins g t M N A A' tr Y tr' Y' ∧ requested tr' = rewritten choose (requested tr) := by
  induction run with
  | nil => exact ⟨[], A', .nil, rfl⟩
  | step _ _ move ih =>
    obtain ⟨tr', Y', twins, chosen⟩ := ih
    exact twins.extend start likes chosen move

end Monomorph
