import Monomorph.Proofs.Preservation

/-!
Complete instances are inserted once. As long as none are forgotten, the instance of a key stays
what it is (`System.Run.find?_of_some`), and it is inserted at most once (`System.Run.countP_adds`).
-/

namespace Monomorph

namespace Move

/-- The move is an action in `p`. -/
def does (p : AnsweredAction → Bool) : Move → Bool
  | act d => p d
  | _ => false

/-- The move inserts an instance of `k`. -/
def adds (k : MethodKey) : Move → Bool := does (AnsweredAction.adds k)

end Move

namespace Session

/-- No instance is forgotten. -/
def NoReset (_ : Session) (m : Move) : Prop := m ≠ .reset

variable {K : Contract} {g : Engine} {t : ThreadId} {X Y : Session} {φs : List Phase} {m : Move}
  {k : MethodKey} {n : MethodId}

/-- Instances are inserted one by one, each for a key that has none. -/
theorem Step.methods_eq (h : Step g t X m Y) (stands : Stands K g X.state X.stack φs)
    (hm : m ≠ .reset) :
    (Y.state.cache.methods = X.state.cache.methods ∧ ∀ k, m.adds k = false) ∨
      ∃ k n, m = .act ⟨.addMethod k n, ()⟩ ∧ X.state.cache.methods.find? k = none ∧
        Y.state.cache.methods = X.state.cache.methods.insert k n := by
  cases h with
  | act rest takes =>
    obtain ⟨φ, φs, -, serves, -⟩ := stands.exists_serves rfl
    obtain ⟨φ', step, -⟩ := serves.step rest takes
    rcases step.methods_eq takes with hm | ⟨c, r, rfl, hd, hm⟩
    · exact .inl hm
    · exact .inr ⟨_, _, congrArg Move.act hd, serves.holds.1, hm⟩
  | @outside s _ a _ outside =>
    have quiet : s.Quiet (fun _ => True) (a.apply t s).2 :=
      Action.quiet_of_isOutside outside fun _ _ _ => trivial
    exact .inl ⟨quiet.methods, fun _ => rfl⟩
  | reset => exact absurd rfl hm
  | request | nest | answer | finish | hold | unhold => exact .inl ⟨rfl, fun _ => rfl⟩

theorem Step.find?_of_some (h : Step g t X m Y) (stands : Stands K g X.state X.stack φs)
    (hm : m ≠ .reset) (hk : X.state.cache.methods.find? k = some n) :
    Y.state.cache.methods.find? k = some n := by
  rcases h.methods_eq stands hm with ⟨hY, -⟩ | ⟨l, n', -, hl, hY⟩
  · rw [hY, hk]
  · have hne : k ≠ l := by
      rintro rfl
      rw [hl] at hk
      cases hk
    rw [hY, Table.find?_insert_of_ne _ _ hne, hk]

/-- The insertions of a key, and its instance before and after. -/
theorem Step.adds_count (h : Step g t X m Y) (stands : Stands K g X.state X.stack φs)
    (hm : m ≠ .reset) (k : MethodKey) :
    (X.state.cache.methods.find? k).isSome.toNat + (m.adds k).toNat =
      (Y.state.cache.methods.find? k).isSome.toNat := by
  rcases h.methods_eq stands hm with ⟨hY, ha⟩ | ⟨l, n', rfl, hl, hY⟩
  · rw [hY, ha]
    rfl
  · by_cases hk : k = l
    · simp [hk, hY, hl, Move.adds, Move.does, AnsweredAction.adds]
    · have hla : (l == k) = false := by simpa using Ne.symm hk
      simp [hY, Table.find?_insert_of_ne _ _ hk, Move.adds, Move.does, AnsweredAction.adds, hla]

end Session

/-! ## Runs -/

namespace System

/-- No instance is forgotten. -/
def NoReset (_ : System) (_ : ThreadId) (m : Move) : Prop := m ≠ .reset

variable {K : Contract} {g : Engine} {X Y : System} {tr : List (ThreadId × Move)} {k : MethodKey}
  {n : MethodId} {P : ThreadId → List Phase}

/-- The invariant, whatever the collaborators answer. -/
theorem Run.consistent_any (run : Run g NoReset X tr Y) (h : Consistent .any g X P) :
    ∃ P', Consistent .any g Y P' := by
  refine (run.mono fun Z t m hm => ?_).consistent h
  cases m with
  | reset => exact absurd rfl hm
  | outside a => cases a <;> trivial
  | _ => trivial

/-- The instance of a key stays what it is. -/
theorem Run.find?_of_some (run : Run g NoReset X tr Y) (h : Consistent .any g X P)
    (hk : X.state.cache.methods.find? k = some n) : Y.state.cache.methods.find? k = some n := by
  induction run with
  | nil => exact hk
  | step run allowed move ih =>
    obtain ⟨P', h'⟩ := run.consistent_any h
    exact move.own.find?_of_some (h'.stands _) allowed ih

/-- Each insertion is of a key that had no instance, and no instance comes in otherwise. -/
theorem Run.countP_adds (run : Run g NoReset X tr Y) (h : Consistent .any g X P)
    (k : MethodKey) :
    (X.state.cache.methods.find? k).isSome.toNat + tr.countP (fun e => e.2.adds k) =
      (Y.state.cache.methods.find? k).isSome.toNat := by
  induction run with
  | nil => rfl
  | @step tr Y Z t m run allowed move ih =>
    obtain ⟨P', h'⟩ := run.consistent_any h
    have hc := move.own.adds_count (h'.stands _) allowed k
    simp only [System.session] at hc
    rw [List.countP_cons, ← hc, ← ih]
    cases m.adds k <;> simp [Nat.add_assoc]

theorem Run.countP_adds_le_one (run : Run g NoReset X tr Y) (h : Consistent .any g X P)
    (k : MethodKey) : tr.countP (fun e => e.2.adds k) ≤ 1 := by
  have hc := run.countP_adds h k
  have : (Y.state.cache.methods.find? k).isSome.toNat ≤ 1 := Bool.toNat_le _
  omega

end System

/-- A run of one thread in which no instance is forgotten, as a run of many. -/
theorem Session.Run.alone_noReset {g : Engine} {t : ThreadId} {X Y : Session} {tr : List Move}
    (run : Run g t NoReset X tr Y) :
    System.Run g System.NoReset (X.alone t) (tr.map fun m => (t, m)) (Y.alone t) :=
  run.alone.mono fun _ _ _ h => h.2.2

end Monomorph
