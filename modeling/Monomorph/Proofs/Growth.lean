import Mathlib.Data.List.Chain
import Monomorph.Proofs.Nesting
import Monomorph.Proofs.Recursion

/-!
Recursion over growing keys. A construction may request its own key again, or keys that nest more
deeply, of which there is no end. Each construction that waits is for a deeper key than the one
below it, and the nesting limit bounds their depths, so every request comes to its end. Main
statement: `Session.Run.growing_recursion_ends`.
-/

namespace Monomorph

/-! ## Descending numbers -/

/-- Natural numbers that descend from `n` are at most `n + 1`. -/
theorem length_le_of_descending {l : List Nat} {n : Nat} (h : (n :: l).Pairwise (· > ·)) :
    (n :: l).length ≤ n + 1 := by
  induction l generalizing n with
  | nil => simp
  | cons m l ih =>
    obtain ⟨first, rest⟩ := List.pairwise_cons.1 h
    have below : m < n := first m List.mem_cons_self
    have shorter := ih rest
    simp only [List.length_cons] at shorter ⊢
    omega

/-- All but the last being at most `n`, there are no more than `n + 1`. -/
theorem length_le_of_dropLast {l : List Nat} {n : Nat} (h : l.Pairwise (· > ·))
    (bound : ∀ x ∈ l.dropLast, x ≤ n) : l.length ≤ n + 1 := by
  cases l with
  | nil => simp
  | cons x l =>
    cases l with
    | nil => simp
    | cons y l =>
      have first : x ≤ n := bound x (by simp)
      have length := length_le_of_descending h
      omega

/-! ## Growing requests -/

/-- The call is for the key of the construction, or for one that nests more deeply, and looks at
the limit. -/
def Call.Grows (c : Construction) : Call → Prop
  | get h _ => h.key = c.key.key ∨ c.key.key.depth < h.key.depth
  | request _ _ => False
  | virtualTarget _ _ => False

instance (c : Construction) : DecidablePred (Call.Grows c)
  | .get _ _ => inferInstanceAs (Decidable (_ ∨ _))
  | .request _ _ => isFalse id
  | .virtualTarget _ _ => isFalse id

theorem Call.Grows.isLimited {c : Construction} {c₀ : Call} (h : c₀.Grows c) : c₀.IsLimited := by
  cases c₀ with
  | get => trivial
  | request | virtualTarget => exact h.elim

/-- What a growing call builds has the key of the construction, or is deeper. -/
theorem Call.Grows.eq_or_lt {g : Engine} {c : Construction} {c₀ : Call} {k : MethodKey}
    (h : c₀.Grows c) (aim : c₀.aim g = .key k) : k = c.key.key ∨ c.key.key.depth < k.depth := by
  cases c₀ with
  | get l copyKey =>
    have key : l.key = k := (Engine.get_eq copyKey aim).1
    rw [← key]
    exact h
  | request | virtualTarget => exact h.elim

/-- Each request that waits for another one waits in a construction, from which the other one
grows. -/
def Climbs (fs : List Activity) : Prop :=
  fs.IsChain fun a b => ∃ c, b.construction? = some c ∧ a.call.Grows c

section Stacks

variable {K : Contract} {g : Engine} {s : State} {f : Activity} {fs : List Activity} {φ : Phase}
  {φs : List Phase}

theorem Climbs.tail (h : Climbs (f :: fs)) : Climbs fs := List.IsChain.tail h

/-- What the innermost request has become does not matter to those below it. -/
theorem Climbs.of_call_eq {f' : Activity} (h : Climbs (f :: fs)) (same : f'.call = f.call) :
    Climbs (f' :: fs) := by
  unfold Climbs at h ⊢
  cases fs with
  | nil => exact .singleton _
  | cons b fs =>
    obtain ⟨grows, tail⟩ := List.isChain_cons_cons.1 h
    rw [← same] at grows
    exact List.isChain_cons_cons.2 ⟨grows, tail⟩

/-- All calls but the outermost look at the limit. -/
theorem Climbs.isLimited (h : Climbs (f :: fs)) (inner : fs ≠ []) : f.call.IsLimited := by
  cases fs with
  | nil => exact absurd rfl inner
  | cons b fs =>
    obtain ⟨⟨c, -, grows⟩, -⟩ := List.isChain_cons_cons.1 h
    exact grows.isLimited

theorem Climbs.all_isLimited (h : Climbs fs) (outermost : ∀ f ∈ fs.getLast?, f.call.IsLimited) :
    ∀ f ∈ fs, f.call.IsLimited := by
  induction fs with
  | nil => simp
  | cons a fs ih =>
    cases fs with
    | nil =>
      intro f hf
      obtain rfl : f = a := List.mem_singleton.1 hf
      exact outermost f rfl
    | cons b fs =>
      intro f hf
      rcases List.mem_cons.1 hf with rfl | hf
      · exact h.isLimited (by simp)
      · refine ih h.tail ?_ f hf
        simpa using outermost

/-- The construction from which the innermost request grows is the topmost of those that wait. -/
theorem Stands.exists_top (h : Stands K g s fs φs) (climbs : Climbs (f :: fs)) (inner : fs ≠ []) :
    ∃ c cs, Phase.constructions φs = c :: cs ∧ f.call.Grows c := by
  cases h with
  | nil => exact absurd rfl inner
  | @cons b fs φ φs serves turn tail =>
    obtain ⟨⟨c, asks, grows⟩, -⟩ := List.isChain_cons_cons.1 climbs
    have calling : b.rest.isCalling = true := Activity.isCalling_of_construction? asks
    have building : φ.construction? = some c := (serves.construction?_eq calling).symm.trans asks
    refine ⟨c, Phase.constructions φs, ?_, grows⟩
    rw [Phase.constructions_cons, building]
    rfl

/-- Each construction is for a deeper key than those below it, if no two are for the same key. -/
theorem Stands.descending (h : Stands K g s fs φs) (climbs : Climbs fs)
    (distinct : ((Phase.constructions φs).map (·.key.key)).Nodup) :
    ((Phase.constructions φs).map (·.key.key.depth)).Pairwise (· > ·) := by
  induction h with
  | nil => exact .nil
  | @cons f fs φ φs serves turn tail ih =>
    rw [Phase.constructions_cons] at distinct ⊢
    cases hφ : φ.construction? with
    | none =>
      rw [hφ] at distinct
      exact ih climbs.tail distinct
    | some c =>
      rw [hφ] at distinct
      obtain ⟨new, distinct⟩ := List.nodup_cons.1 distinct
      have rest := ih climbs.tail distinct
      refine List.pairwise_cons.2 ⟨?_, rest⟩
      by_cases inner : fs = []
      · rw [tail.eq_nil inner]
        nofun
      · obtain ⟨c', cs, waiting, grows⟩ := tail.exists_top climbs inner
        have aim : f.call.aim g = .key c.key.key :=
          serves.aim_eq.trans (Phase.aim_of_construction? hφ)
        rw [waiting] at new rest ⊢
        have deeper : c'.key.key.depth < c.key.key.depth := by
          refine (grows.eq_or_lt aim).resolve_left fun same => new ?_
          simp [same]
        obtain ⟨first, -⟩ := List.pairwise_cons.1 rest
        intro n hn
        rcases List.mem_cons.1 hn with rfl | hn
        · exact deeper
        · exact Nat.lt_trans (first n hn) deeper

/-- Constructions of requests that look at the limit are within it. -/
theorem Stands.depth_le (h : Stands K g s fs φs) (limited : ∀ f ∈ fs, f.call.IsLimited) :
    ∀ c ∈ Phase.constructions φs, c.key.key.depth ≤ g.policy.maxNesting := by
  intro c hc
  obtain ⟨⟨f, hf, aim⟩, -⟩ := h.exists_call hc
  exact (limited f hf).depth_le aim

/-- Of all constructions only that of the outermost request may be beyond the limit. -/
theorem Stands.depth_le_of_dropLast (h : Stands K g s fs φs) (climbs : Climbs fs) :
    ∀ c ∈ (Phase.constructions φs).dropLast, c.key.key.depth ≤ g.policy.maxNesting := by
  induction h with
  | nil => nofun
  | @cons f fs φ φs serves turn tail ih =>
    rw [Phase.constructions_cons]
    intro c hc
    by_cases below : Phase.constructions φs = []
    · rw [below] at hc
      cases hφ : φ.construction? <;> simp [hφ] at hc
    · rw [List.dropLast_append_of_ne_nil below] at hc
      rcases List.mem_append.1 hc with hc | hc
      · have hφ : φ.construction? = some c := by simpa using hc
        have inner : fs ≠ [] := by
          rintro rfl
          exact below (by rw [tail.eq_nil rfl]; rfl)
        refine (climbs.isLimited inner).depth_le ?_
        exact serves.aim_eq.trans (Phase.aim_of_construction? hφ)
      · exact ih climbs.tail c hc

end Stacks

namespace Session

variable {K : Contract} {g : Engine} {t : ThreadId} {X Y : Session} {φs : List Phase}
  {tr : List Move} {m : Move}

/-! ## Runs -/

/-- Requests that are made for a construction grow from its key. Those from outside are for any
keys, the formatter makes none, and instances are forgotten only between requests. -/
def Growing : Session → Move → Prop := Confined (fun _ => True) Call.Grows

instance (X : Session) (m : Move) : Decidable (Growing X m) :=
  inferInstanceAs (Decidable (Confined _ _ X m))

theorem Step.climbs (h : Step g t X m Y) (climbs : Climbs X.stack) (allowed : X.Growing m) :
    Climbs Y.stack := by
  cases h with
  | request c => exact .singleton _
  | nest c calling => exact List.isChain_cons_cons.2 ⟨allowed, climbs⟩
  | act | answer => exact climbs.of_call_eq rfl
  | finish => exact climbs.tail
  | outside | hold | unhold | reset => exact climbs

theorem Run.climbs (run : Run g t Growing X tr Y) (idle : X.stack = []) : Climbs Y.stack := by
  induction run with
  | nil =>
    rw [idle]
    exact .nil
  | step _ allowed move ih => exact move.climbs ih allowed

/-- The constructions in progress, each of them for a deeper key than those below it. -/
structure Descending (L : Nat) (Y : Session) : Prop where
  waiting : (Y.constructions.map (·.key.key.depth)).Pairwise (· > ·)
  pending : (Y.state.cache.pending.entries.map (·.1.depth)).Pairwise (· > ·)
  /-- Of keys within the limit only, if the outermost request looks at it. -/
  waiting_le : (∀ f ∈ Y.stack.getLast?, f.call.IsLimited) →
    ∀ c ∈ Y.constructions, c.key.key.depth ≤ L
  pending_le : (∀ f ∈ Y.stack.getLast?, f.call.IsLimited) →
    ∀ e ∈ Y.state.cache.pending.entries, e.1.depth ≤ L
  /-- And there are never many of them. -/
  constructions_le : Y.constructions.length ≤ L + 1
  size_le : Y.state.cache.pending.size ≤ L + 1

theorem Sound.pending_map {β : Type} (h : X.Sound K g φs) (p : MethodKey → β) :
    X.state.cache.pending.entries.map (fun e => p e.1) =
      (Phase.constructions φs).map fun c => p c.key.key := by
  rw [h.pending, List.map_map]
  rfl

theorem Sound.descending (h : X.Sound K g φs) (climbs : Climbs X.stack) :
    Descending g.policy.maxNesting X := by
  have distinct : ((Phase.constructions φs).map (·.key.key)).Nodup := by
    have keys : X.state.cache.pending.entries.map Prod.fst =
        (Phase.constructions φs).map (·.key.key) := h.pending_map id
    rw [← keys]
    exact X.state.cache.pending.nodup_keys
  have depths := h.stands.descending climbs distinct
  have pending : (X.state.cache.pending.entries.map (·.1.depth)).Pairwise (· > ·) := by
    rw [h.pending_map MethodKey.depth]
    exact depths
  have sub := h.stands.sublist_constructions
  have size : X.state.cache.pending.size ≤ g.policy.maxNesting + 1 := by
    have inner : ∀ n ∈ ((Phase.constructions φs).map (·.key.key.depth)).dropLast,
        n ≤ g.policy.maxNesting := by
      intro n hn
      rw [← List.map_dropLast] at hn
      obtain ⟨c, hc, rfl⟩ := List.mem_map.1 hn
      exact h.stands.depth_le_of_dropLast climbs c hc
    have length := length_le_of_dropLast depths inner
    rw [List.length_map] at length
    rw [Table.size, h.pending, List.length_map]
    exact length
  refine ⟨depths.sublist (sub.map _), pending, ?_, ?_, h.constructions_le.trans size, size⟩
  · intro outermost c hc
    exact h.stands.depth_le (climbs.all_isLimited outermost) c (sub.subset hc)
  · intro outermost e he
    rw [h.pending] at he
    obtain ⟨c, hc, rfl⟩ := List.mem_map.1 he
    exact h.stands.depth_le (climbs.all_isLimited outermost) c hc

theorem Run.descending (run : Run g t Growing X tr Y) (fresh : X.state.IsFresh)
    (idle : X.stack = []) : Descending g.policy.maxNesting Y := by
  obtain ⟨P, consistent⟩ := (run.mono fun _ _ h => h.resetsIdle).consistent_any fresh idle
  exact consistent.sound.descending (run.climbs idle)

/-- Recursion over growing keys ends. -/
structure GrowthEnds (g : Engine) (t : ThreadId) (X : Session) (tr : List Move) (Y : Session) :
    Prop where
  /-- Every call that may be made now returns, however the collaborators reply to it with requests
  that grow, and the run goes on from there. -/
  returns : ∀ H : Host, H.KeepsTo Call.Grows → ∀ c : Call, Growing Y (c.move Y.stack) →
    ∃ r new s,
      H.Finishes g t .own (c.move Y.stack :: tr) ⟨Y.state, .made c g Y.state :: Y.stack⟩ r
        (new ++ tr) ⟨s, Y.stack⟩ ∧
      Run g t Growing X (new ++ tr) ⟨s, Y.stack⟩
  /-- The constructions in progress become deeper and deeper, up to the limit. -/
  descending : Descending g.policy.maxNesting Y

/-- In every run in which collaborators make growing requests only, in whatever pattern, every call
returns. -/
theorem Run.growing_recursion_ends (run : Run g t Growing X tr Y) (fresh : X.state.IsFresh)
    (idle : X.stack = []) (available : X.state.lock.isAvailable t = true) :
    GrowthEnds g t X tr Y where
  returns H keeps c allowed := by
    refine run.call_returns (N := g.policy.maxNesting + 1) fresh idle available ?_ keeps c allowed
    rintro Z ⟨W, tr', fresh', idle', run'⟩
    exact (run'.descending fresh' idle').constructions_le
  descending := run.descending fresh idle

end Session

namespace Sample

/-- At most two levels of instantiation. -/
def twoLevels : Engine where
  policy := { maxNesting := 2 }

/-- While an instance is built, it is requested again, then a deeper one, and while that is built,
one beyond the limit. -/
def growing : List Cue :=
  .call (.get ⟨0, towerKey 0 read⟩ false) :: goOn 6 ++
    .call (.get ⟨1, towerKey 0 read⟩ false) :: goOn 8 ++
    .call (.get ⟨2, towerKey 1 read⟩ false) :: goOn 6 ++
    .call (.get ⟨3, towerKey 2 read⟩ false) :: goOn 4

end Sample

/-- Two constructions wait, one for the other, and the third key is not built any more. -/
theorem Session.Run.growing_recursion_ends_growing :
    ∃ R, replayWhile Growing Sample.twoLevels 0 .plain Sample.growing ([], ⟨{}, []⟩) = some R ∧
      R.2.constructions.map (·.key.key.depth) = [2, 1] ∧
      R.2.state.cache.counters.recursionHits = 1 ∧ R.2.state.cache.counters.degenerate = 1 ∧
      GrowthEnds Sample.twoLevels 0 ⟨{}, []⟩ R.1 R.2 := by
  have facts : (replayWhile Growing Sample.twoLevels 0 .plain Sample.growing ([], ⟨{}, []⟩)).map
      (fun R => (R.2.constructions.map (·.key.key.depth),
        R.2.state.cache.counters.recursionHits, R.2.state.cache.counters.degenerate)) =
        some ([2, 1], 1, 1) := by
    decide +kernel
  obtain ⟨R, hR, hf⟩ := Option.map_eq_some_iff.1 facts
  obtain ⟨depths, hf⟩ := Prod.mk.inj hf
  obtain ⟨hits, counted⟩ := Prod.mk.inj hf
  exact ⟨R, hR, depths, hits, counted,
    (replayWhile_run .nil hR).growing_recursion_ends ⟨rfl, rfl⟩ rfl rfl⟩

end Monomorph
