import Monomorph.Proofs.Ledger
import Monomorph.Proofs.Replay

/-!
Requests of many threads. The steps of any number of threads are interleaved in any order; only a
thread that would take the lock while another holds it has to wait. Main statement:
`System.Run.constructed_once`.
-/

namespace Monomorph

namespace System

/-- Each key is constructed once, whichever thread does it. -/
structure ConstructedOnce (g : Engine) (tr : List (ThreadId × Move)) (Y : System) : Prop where
  once : ∀ k, tr.countP (fun e => e.2.adds k) ≤ 1
  /-- All results for a key are one descriptor, those of the recursion guard apart. -/
  agree : ∀ k t f m t' f' m', (t, .finish f (.ok m)) ∈ tr → (t', .finish f' (.ok m')) ∈ tr →
    f.call.aim g = .key k → f'.call.aim g = .key k → f.isRecursive = false →
    f'.isRecursive = false → m = m'
  /-- The descriptor that a request ends with is complete, or the thread itself has it under
  construction. -/
  complete : ∀ t f st m, Y.stackOf t = f :: st → f.rest = .done (.ok m) →
    ∃ d, Y.state.store.get? m = some d ∧ (d.state = .complete ∨
      ∃ c ∈ (Y.session t).constructions, c.method = m ∧ d.key = some c.key)
  /-- Of `n` requests for a key that can be realized and has no instance, one builds it and the
  others find it. -/
  counted : (∀ t, Y.stackOf t = []) → ∀ k, g.validate k = .ok () →
    Y.state.cache.methods.find? k = none → ∀ tr' Z, Run g (OnlyFor g k) Y tr' Z →
    (∀ t, Z.stackOf t = []) → ∀ n, (tr'.countP fun e => e.2.isRequest) = n → 0 < n →
    Z.state.cache.counters.inflated = Y.state.cache.counters.inflated + 1 ∧
      Z.state.cache.counters.fastHits + Z.state.cache.counters.recheckHits =
        Y.state.cache.counters.fastHits + Y.state.cache.counters.recheckHits + (n - 1)

variable {K : Contract} {g : Engine} {X Y : System} {P : ThreadId → List Phase} {t : ThreadId}
  {k : MethodKey} {m : MethodId} {tr : List (ThreadId × Move)}

/-- What a request has given for a key remains the instance of the key. -/
theorem Run.find?_of_finish (run : Run g NoReset X tr Y) (h : Consistent .any g X P)
    {f : Activity} (hf : (t, .finish f (.ok m)) ∈ tr) (aim : f.call.aim g = .key k)
    (recursive : f.isRecursive = false) : Y.state.cache.methods.find? k = some m := by
  induction run with
  | nil => cases hf
  | @step tr Y Z u mv run allowed move ih =>
    obtain ⟨P', h'⟩ := run.consistent_any h
    refine move.own.find?_of_some (h'.stands u) allowed ?_
    rcases List.mem_cons.1 hf with he | hf
    · obtain ⟨rfl, rfl⟩ := Prod.mk.inj he
      have own := move.own
      generalize hS : Y.session t = S at own
      generalize Z.session t = T at own
      cases own with
      | finish rest =>
        obtain ⟨rfl, hY⟩ := Session.mk.inj hS
        obtain ⟨φ, φs, -, serves, -⟩ := (h'.stands t).exists_serves hY
        exact serves.find?_eq_some rest aim recursive
    · exact ih hf

end System

variable {K : Contract} {g : Engine} {X Y : System} {P : ThreadId → List Phase} {t : ThreadId}
  {m : MethodId} {tr : List (ThreadId × Move)}

/-- A request ends with a complete descriptor, or with one of a construction that waits for it. -/
theorem Consistent.complete_or_waiting (h : Consistent K g X P) {f : Activity}
    {st : List Activity} (hX : X.stackOf t = f :: st) (rest : f.rest = .done (.ok m)) :
    ∃ d, X.state.store.get? m = some d ∧ (d.state = .complete ∨
      ∃ c ∈ (X.session t).constructions, c.method = m ∧ d.key = some c.key) := by
  obtain ⟨φ, φs, -, serves, turn, tail⟩ := (h.stands t).exists_serves hX
  rcases serves.closed_of_ok rest with ⟨o, k, rfl⟩ | ⟨k, rfl⟩ | rfl
  · obtain ⟨-, l, r, -, hd, -⟩ := h.built serves.holds
    exact ⟨_, hd, .inl rfl⟩
  · obtain ⟨c, hc, he⟩ := serves.holds
    obtain ⟨rfl, rfl⟩ := Prod.mk.inj he
    obtain ⟨o, hd, -⟩ := (tail.underWay turn hc).descriptor
    refine ⟨_, hd, .inr ⟨c, ?_, rfl, rfl⟩⟩
    rw [← tail.constructions_eq turn] at hc
    have none : f.construction? = none := by
      rw [Activity.construction?, rest]
    rw [Session.constructions, System.session, hX, List.filterMap_cons, none]
    exact hc
  · exact ⟨_, serves.holds, .inl rfl⟩

/-- In every run of any number of threads, each key is constructed once. -/
theorem System.Run.constructed_once (run : System.Run g System.NoReset X tr Y)
    (fresh : X.state.IsFresh) (idle : ∀ t, X.stackOf t = []) : System.ConstructedOnce g tr Y := by
  have h := Consistent.of_isFresh .any g fresh idle
  obtain ⟨P, h'⟩ := run.consistent_any h
  refine ⟨fun k => run.countP_adds_le_one h k, ?_, ?_, ?_⟩
  · intro k t f m t' f' m' hf hf' aim aim' recursive recursive'
    have hk := run.find?_of_finish h hf aim recursive
    rw [run.find?_of_finish h hf' aim' recursive'] at hk
    exact (Option.some.inj hk).symm
  · exact fun t f st m hY rest => h'.complete_or_waiting hY rest
  · intro idle k valid missing tr' Z run' idle' n hn pos
    subst hn
    obtain ⟨inflated, total⟩ := run'.counters_of_onlyFor h' idle idle' valid missing pos
    refine ⟨inflated, ?_⟩
    unfold Counters.instances at total
    omega

/-- Two threads after one key, both of which have missed it. -/
theorem System.Run.constructed_once_racing :
    ∃ R, System.replay {} .plain Sample.racing ([], ⟨{}, fun _ => []⟩) = some R ∧
      R.2.state.cache.counters.inflated = 1 ∧ R.2.state.cache.counters.recheckHits = 1 ∧
      System.ConstructedOnce {} R.1 R.2 := by
  have facts : (System.replay {} .plain Sample.racing ([], ⟨{}, fun _ => []⟩)).map (fun R =>
      (R.2.state.cache.counters.inflated, R.2.state.cache.counters.recheckHits)) =
        some (1, 1) := by
    decide +kernel
  obtain ⟨R, hR, hf⟩ := Option.map_eq_some_iff.1 facts
  obtain ⟨inflated, hits⟩ := Prod.mk.inj hf
  have run : System.Run {} System.NoReset ⟨{}, fun _ => []⟩ R.1 R.2 :=
    System.replay_run (fun _ _ m hm hr => by subst hr; exact hm) .nil hR
  exact ⟨R, hR, inflated, hits, run.constructed_once ⟨rfl, rfl⟩ fun _ => rfl⟩

end Monomorph
