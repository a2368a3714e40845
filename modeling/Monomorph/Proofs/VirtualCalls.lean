import Monomorph.Proofs.Failure
import Monomorph.Proofs.Recursion
import Monomorph.Proofs.Results

/-!
Virtual calls. A virtual call is a request for a key of two halves: the method of the slot with its
class arguments, and the method arguments of the called method (`CallsFor`). What it ends with can
take the place of the slot: the same call then gives the same descriptor again. Main statement:
`System.Run.virtual_calls_resolved`.
-/

namespace Monomorph

/-! ## What is called -/

/-- A descriptor as it is made: the placeholder, or one that describes an instance. -/
def Descriptor.IsMade (d : Descriptor) : Prop := d = .placeholder ∨ ∃ h o, d = .describing h o

namespace SlotMethod

def IsMade : SlotMethod → Prop
  | definition _ => True
  | descriptor d => d.IsMade

def IsPlaceholder : SlotMethod → Prop
  | definition _ => False
  | descriptor d => d = .placeholder

end SlotMethod

/-- The key of a virtual call. A definition in the slot has no class arguments, and method arguments
of the slot do not matter, nor do the definition and the class arguments of the called method. -/
inductive CallsFor : SlotMethod → Descriptor → MethodKey → Prop where
  | definition (m : MethodDef) (l : KeyHandle) (o : Option Realization) :
      CallsFor (.definition m) (.describing l o) ⟨m, ⟨none, l.key.context.methodArgs⟩⟩
  | descriptor (h l : KeyHandle) (o p : Option Realization) :
      CallsFor (.descriptor (.describing h o)) (.describing l p)
        ⟨h.key.definition, ⟨h.key.context.classArgs, l.key.context.methodArgs⟩⟩

section Keys

variable {v : SlotMethod} {d : Descriptor} {k : MethodKey}

theorem CallsFor.virtualKey (h : CallsFor v d k) : virtualKey v d = .ok k := by
  cases h <;> rfl

theorem exists_callsFor (hv : v.IsMade) (hd : d.IsMade) (slot : ¬v.IsPlaceholder)
    (called : d ≠ .placeholder) : ∃ k, CallsFor v d k := by
  obtain ⟨l, p, rfl⟩ := hd.resolve_left called
  cases v with
  | definition m => exact ⟨_, .definition m l p⟩
  | descriptor e =>
    obtain ⟨h, o, rfl⟩ := Or.resolve_left hv slot
    exact ⟨_, .descriptor h l o p⟩

theorem CallsFor.not_placeholder (h : CallsFor v d k) : ¬(v.IsPlaceholder ∨ d = .placeholder) := by
  cases h <;> rintro (hv | hd)
  · exact hv
  · cases congrArg Descriptor.key hd
  · cases congrArg Descriptor.key hv
  · cases congrArg Descriptor.key hd

theorem virtualKey_of_placeholder (h : v.IsPlaceholder ∨ d = .placeholder) :
    ∃ t, virtualKey v d = .error (.notAnInstance t) := by
  rcases h with h | rfl
  · cases v with
    | definition m => exact h.elim
    | descriptor e =>
      obtain rfl : e = .placeholder := h
      exact ⟨_, rfl⟩
  · cases v with
    | definition m => exact ⟨_, rfl⟩
    | descriptor e =>
      cases he : e.key with
      | none => exact ⟨e.token, by simp [virtualKey, SlotMethod.target, he, bind, Except.bind]⟩
      | some h =>
        refine ⟨Descriptor.placeholder.token, ?_⟩
        simp [virtualKey, SlotMethod.target, he, bind, Except.bind, Descriptor.context,
          Descriptor.placeholder]
        rfl

theorem exists_callsFor_iff (hv : v.IsMade) (hd : d.IsMade) :
    (∃ k, CallsFor v d k) ↔ ¬(v.IsPlaceholder ∨ d = .placeholder) := by
  constructor
  · rintro ⟨k, hk⟩
    exact hk.not_placeholder
  · intro no
    exact exists_callsFor hv hd (no ∘ .inl) (no ∘ .inr)

theorem virtualKey_notAnInstance_iff (hv : v.IsMade) (hd : d.IsMade) :
    (∃ t, virtualKey v d = .error (.notAnInstance t)) ↔ v.IsPlaceholder ∨ d = .placeholder := by
  refine ⟨?_, virtualKey_of_placeholder⟩
  rintro ⟨t, ht⟩
  by_contra no
  obtain ⟨k, hk⟩ := (exists_callsFor_iff hv hd).2 no
  cases ht.symm.trans hk.virtualKey

/-- A slot and a called method for which there is a key: they describe instances, or the slot is a
definition, and the key is made of their halves. -/
theorem virtualKey_eq_ok (h : virtualKey v d = .ok k) : ∃ l, d.key = some l ∧
    ((∃ m, v = .definition m ∧ k = ⟨m, ⟨none, l.key.context.methodArgs⟩⟩) ∨
      ∃ e i, v = .descriptor e ∧ e.key = some i ∧
        k = ⟨i.key.definition, ⟨i.key.context.classArgs, l.key.context.methodArgs⟩⟩) := by
  cases hd : d.key with
  | none =>
    have context : d.context = none := by simp [Descriptor.context, hd]
    simp only [virtualKey, context, bind, Except.bind] at h
    split at h <;> cases h
  | some l =>
    have context : d.context = some l.key.context := by simp [Descriptor.context, hd]
    simp only [virtualKey, context, bind, Except.bind] at h
    cases v with
    | definition m =>
      cases h
      exact ⟨l, rfl, .inl ⟨m, rfl, rfl⟩⟩
    | descriptor e =>
      cases he : e.key with
      | none =>
        simp only [SlotMethod.target, he] at h
        cases h
      | some i =>
        simp only [SlotMethod.target, he] at h
        cases h
        exact ⟨l, rfl, .inr ⟨e, i, rfl, he, rfl⟩⟩

theorem virtualKey_again (h : virtualKey v d = .ok k) {i : KeyHandle} {o : Option Realization}
    (hi : i.key = k) : virtualKey (.descriptor (.describing i o)) d = .ok k := by
  obtain ⟨l, hd, hk⟩ := virtualKey_eq_ok h
  have context : d.context = some l.key.context := by simp [Descriptor.context, hd]
  have halves : k = ⟨k.definition, ⟨k.context.classArgs, l.key.context.methodArgs⟩⟩ := by
    rcases hk with ⟨m, -, rfl⟩ | ⟨e, j, -, -, rfl⟩ <;> rfl
  have target : (SlotMethod.descriptor (.describing i o)).target =
      .ok (i.key.definition, i.key.context.classArgs) := rfl
  simp only [virtualKey, target, context, bind, Except.bind]
  rw [halves, ← hi]
  rfl

theorem virtualKey_self (i : KeyHandle) (o : Option Realization) :
    virtualKey (.descriptor (.describing i o)) (.describing i o) = .ok i.key := rfl

theorem depth_le_of_virtualKey {n : Nat} (h : virtualKey v d = .ok k)
    (slot : ∀ e i, v = .descriptor e → e.key = some i → i.key.depth ≤ n)
    (called : ∀ l, d.key = some l → l.key.depth ≤ n) : k.depth ≤ n := by
  obtain ⟨l, hd, hk⟩ := virtualKey_eq_ok h
  have second : ((l.key.context.methodArgs.map TypeArgs.depth).getD 0) ≤ n :=
    (Nat.max_le.1 (called l hd)).2
  rcases hk with ⟨m, -, rfl⟩ | ⟨e, i, rfl, he, rfl⟩
  · exact Nat.max_le.2 ⟨Nat.zero_le n, second⟩
  · exact Nat.max_le.2 ⟨(Nat.max_le.1 (slot e i rfl he)).1, second⟩

end Keys

/-! ## Requests that are served at once -/

theorem Engine.aimAt_of_depth_le (g : Engine) {k : MethodKey}
    (h : k.depth ≤ g.policy.maxNesting) : g.aimAt k = .key k :=
  if_neg fun deep => absurd (Policy.exceeds_iff.1 deep) (Nat.not_lt.2 h)

theorem Engine.aimAt_ne_error (g : Engine) (k : MethodKey) (e : Error) : g.aimAt k ≠ .error e := by
  unfold aimAt
  split <;> nofun

/-- The thread does not have to wait while it carries the program on to its next question. -/
def Program.NeverWaits {α : Type} (t : ThreadId) : Program α → State → Prop
  | .act a next, s => a.isEnabled t s = true ∧
    (next (a.apply t s).1).NeverWaits t (a.apply t s).2
  | _, _ => True

/-- The call is served at once: it ends with `n` without a wait and without a question, and leaves
tables and descriptors as they are. -/
def Call.GivesAt (g : Engine) (t : ThreadId) (s : State) (n : MethodId) (c : Call) : Prop :=
  (c.program g).NeverWaits t s ∧ ∃ s', (c.program g).advance t s = (.finished (.ok n), s') ∧
    s'.cache.methods = s.cache.methods ∧ s'.cache.pending = s.cache.pending ∧
    s'.store.descriptors = s.store.descriptors

section Served

variable {g : Engine} {t : ThreadId} {s : State} {k : MethodKey} {n : MethodId} {v : SlotMethod}
  {d : Descriptor}

theorem Program.neverWaits_of_available {α : Type} (p : Program α)
    (h : s.lock.isAvailable t = true) : p.NeverWaits t s := by
  induction p generalizing s with
  | done | ask => trivial
  | act a next ih =>
    refine ⟨?_, ih _ (a.isAvailable_apply h)⟩
    cases a with
    | acquire => exact h
    | _ => rfl

theorem Engine.request_neverWaits {h : KeyHandle} (copyKey : Bool)
    (hk : s.cache.methods.find? h.key = some n) :
    (g.request (.instantiate h) copyKey).NeverWaits t s := by
  simp [request, Program.perform, bind, pure, Program.bind, Program.NeverWaits, Action.apply,
    Action.isEnabled, hk]

theorem Call.virtualTarget_program (hk : virtualKey v d = .ok k) :
    (Call.virtualTarget v d).program g =
      .act (.copyKey k) fun h => g.get h false := by
  simp only [program, Engine.virtualTarget, hk]
  rfl

theorem Call.program_of_placeholder (h : v.IsPlaceholder ∨ d = .placeholder) :
    ∃ a, (Call.virtualTarget v d).program g = .done (.error (.notAnInstance a)) := by
  obtain ⟨a, ha⟩ := virtualKey_of_placeholder h
  refine ⟨a, ?_⟩
  simp only [program, Engine.virtualTarget, ha]
  rfl

/-- A virtual call for a key with a complete instance gives it at once. -/
theorem Call.givesAt_cached (hk : virtualKey v d = .ok k) (aim : g.aimAt k = .key k)
    (found : s.cache.methods.find? k = some n) : (Call.virtualTarget v d).GivesAt g t s n := by
  have aims : (Call.virtualTarget v d).aim g = .key k := by simp [Call.aim, hk, aim]
  obtain ⟨s', advance, methods, pending, descriptors, -⟩ := Call.answersAt aims found
  refine ⟨?_, s', advance, methods, pending, descriptors⟩
  rw [virtualTarget_program hk]
  have free : ∀ s' : State, s'.cache = s.cache →
      (g.get ⟨s.store.nextKey, k⟩ false).NeverWaits t s' := by
    intro s' same
    rw [(Engine.get_eq (h := ⟨s.store.nextKey, k⟩) false aim).2]
    exact Engine.request_neverWaits false (same ▸ found)
  exact ⟨rfl, free _ rfl⟩

/-- A virtual call for a key under construction gives what is pending at once, to a thread that may
take the lock. -/
theorem Call.givesAt_pending (hk : virtualKey v d = .ok k) (aim : g.aimAt k = .key k)
    (valid : g.validate k = .ok ()) (missing : s.cache.methods.find? k = none)
    (pending : s.cache.pending.find? k = some n) (available : s.lock.isAvailable t = true) :
    (Call.virtualTarget v d).GivesAt g t s n := by
  have aims : (Call.virtualTarget v d).aim g = .key k := by simp [Call.aim, hk, aim]
  obtain ⟨l, copyKey, i, rfl, advance⟩ := Call.advance_eq aims t s
  have guarded := advance.trans (Engine.request_guarded copyKey valid missing pending)
  exact ⟨Program.neverWaits_of_available _ available, _, guarded, rfl, rfl, rfl⟩

end Served

/-! ## What a request has looked up -/

/-- What a request has found out before it ends so is still the case. -/
def Verdict.Recalls (t : ThreadId) (s : State) : Verdict → Prop
  | cached _ k n => s.cache.methods.find? k = some n
  | pending k n => s.cache.methods.find? k = none ∧ s.cache.pending.find? k = some n ∧
    s.lock.isAvailable t = true
  | _ => True

namespace Phase

/-- What a request has found out before it has come to this phase is still the case. -/
def Recalls (t : ThreadId) (s : State) : Phase → Prop
  | hit k n => s.cache.methods.find? k = some n
  | locked _ => s.lock.isAvailable t = true
  | rehit k n => s.cache.methods.find? k = some n
  | absent k => s.cache.methods.find? k = none ∧ s.lock.isAvailable t = true
  | guarded k n => s.cache.methods.find? k = none ∧ s.cache.pending.find? k = some n ∧
    s.lock.isAvailable t = true
  | inserted c _ => s.cache.methods.find? c.key.key = some c.method
  | finished c _ => s.cache.methods.find? c.key.key = some c.method
  | closing v => v.Recalls t s
  | closed v => v.Recalls t s
  | _ => True

variable {K : Contract} {g : Engine} {φ φ' : Phase} {d : AnsweredAction} {t : ThreadId}
  {s s' : State}

/-- By its own actions a request does not undo what it has found out. -/
theorem Step.recalls (h : φ.Step K g d φ') (takes : d.Takes t s s') (hφ : φ.Recalls t s) :
    φ'.Recalls t s' := by
  cases h with
  | hit | rehit =>
    rw [takes.state_eq]
    exact takes.response_eq.symm
  | missAgain =>
    rw [takes.state_eq]
    exact ⟨takes.response_eq.symm, hφ⟩
  | guard =>
    rw [takes.state_eq]
    exact ⟨hφ.1, takes.response_eq.symm, hφ.2⟩
  | lock =>
    rw [takes.state_eq]
    exact MetadataLock.isAvailable_acquire takes.enabled
  | insert =>
    rw [takes.state_eq]
    exact Table.find?_insert_self _ _ _
  | @unlock v =>
    rw [takes.state_eq]
    cases v with
    | pending => exact ⟨hφ.1, hφ.2.1, MetadataLock.isAvailable_release hφ.2.2⟩
    | cached => exact hφ
    | placeholder | unresolved | refused => trivial
  | @noteLocked v | @noteUnlocked v =>
    rw [takes.state_eq]
    cases v <;> exact hφ
  | countHit | countRehit | countGuard | unclaim | countBuilt =>
    rw [takes.state_eq]
    exact hφ
  | _ => trivial

/-- A request that waits for a collaborator has found out nothing that could change. -/
theorem recalls_of_isCalling {p : Program MethodResult} (h : p.Follows K g (Ends g) φ)
    (calling : p.isCalling = true) : φ.Recalls t s := by
  rcases h.of_isCalling calling with ⟨c, -, -, rfl, -⟩ | ⟨rfl | ⟨c, e, rfl⟩, -⟩ <;> trivial

end Phase

namespace Session

variable {g : Engine} {t : ThreadId} {ok : Session → Move → Prop} {A : Session} {c : Call}
  {tr : List Move} {above : List Activity} {f : Activity} {s : State}

/-- While a request is served by its thread alone, it does not lose what it has found out, whatever
its collaborators do. -/
theorem Serving.recalls (h : Serving g t ok A c tr ⟨s, above ++ [f]⟩) :
    (∃ φ, f.Courses .any g φ ∧ φ.Recalls t s) ∧ (above ≠ [] → f.rest.isCalling = true) := by
  refine h.induction (P := fun _ above f s => (∃ φ, f.Courses .any g φ ∧ φ.Recalls t s) ∧
    (above ≠ [] → f.rest.isCalling = true)) ?_ ?_ ?_
  · exact ⟨⟨_, .made .any g c A.state, trivial⟩, by simp⟩
  · rintro tr f s m f' s' - ⟨⟨φ, courses, recalls⟩, -⟩ goes
    refine ⟨?_, by simp⟩
    cases goes with
    | act rest takes =>
      obtain ⟨φ', step, follows⟩ := courses.step rest takes
      exact ⟨φ', ⟨follows, courses.reached.step step⟩, step.recalls takes recalls⟩
    | answer rest x =>
      have follows := courses.follows
      rw [rest] at follows
      obtain ⟨rfl, follows⟩ := follows
      exact ⟨_, ⟨follows x trivial, courses.reached⟩, trivial⟩
  · rintro tr above f s m above' s' - ⟨⟨φ, courses, -⟩, waits⟩ - - calls
    have calling : f.rest.isCalling = true := by
      by_cases ha : above = []
      · exact calls ha
      · exact waits ha
    exact ⟨⟨φ, courses, Phase.recalls_of_isCalling courses.follows calling⟩, fun _ => calling⟩

end Session

section Ended

variable {K : Contract} {g : Engine} {X Y Z : System} {P : ThreadId → List Phase} {t : ThreadId}
  {ok : System → ThreadId → Move → Prop} {tr : List (ThreadId × Move)} {f : Activity}
  {st : List Activity} {φ : Phase} {w : Verdict} {k : MethodKey} {n : MethodId} {v : SlotMethod}
  {m d : Descriptor}

/-- If instances are only forgotten between requests, no other thread takes away what a request has
found out. -/
theorem Consistent.recalls (h : Consistent K g X P) (hX : X.stackOf t = f :: st)
    (rest : f.rest = .done (.ok n)) : ∃ φ, f.Courses K g φ ∧ φ.Recalls t X.state := by
  obtain ⟨φ, φs, hP, serves, turn, tail⟩ := (h.stands t).exists_serves hX
  refine ⟨φ, ⟨serves.follows, serves.reached⟩, ?_⟩
  rcases serves.closed_of_ok rest with ⟨o, k, rfl⟩ | ⟨k, rfl⟩ | rfl
  · exact serves.holds
  · obtain ⟨c, hc, he⟩ := serves.holds
    obtain ⟨rfl, rfl⟩ := Prod.mk.inj he
    have held : X.state.lock.holds t ≠ 0 := by
      intro free
      have none := h.constructions_of_holds free
      rw [hP, Phase.constructions_cons] at none
      exact List.ne_nil_of_mem (List.mem_append_right _ hc) none
    have entries := h.pending_eq hP fun u hu => MetadataLock.holds_eq_zero_of_ne held hu
    refine ⟨(tail.underWay turn hc).missing, Table.find?_of_mem_entries ?_, ?_⟩
    · rw [entries]
      exact List.mem_map_of_mem (List.mem_append_right _ hc)
    · exact MetadataLock.isAvailable_of_holds held
  · trivial

/-- What a virtual call has ended with is given again, if it may take the place of the slot. -/
theorem Verdict.Recalls.givesAt {s : State} (h : w.Recalls t s) (warranted : w.Warranted K g)
    (aim : w.aim = .key k) (result : w.result g = .ok n) (hk : virtualKey v d = .ok k)
    (limit : g.aimAt k = .key k) : (Call.virtualTarget v d).GivesAt g t s n := by
  cases w with
  | cached o l m =>
    cases aim
    cases result
    exact Call.givesAt_cached hk limit h
  | pending l m =>
    cases aim
    cases result
    exact Call.givesAt_pending hk limit warranted h.1 h.2.1 h.2.2
  | placeholder => cases aim
  | unresolved | refused => cases result

theorem System.Run.exists_virtualKey (run : Run g ok X tr Y) (fresh : X.state.IsFresh)
    (idle : ∀ u, X.stackOf u = []) (hf : f ∈ Y.stackOf t) (call : f.call = .virtualTarget v m)
    (rest : f.rest = .done (.ok n)) (hd : Y.state.store.get? n = some d)
    (inst : d ≠ .placeholder) : ∃ k h o, virtualKey v m = .ok k ∧ f.call.aim g = .key k ∧
      g.aimAt k = .key k ∧ d = .describing h o ∧ h.key = k := by
  have fits := run.fits fresh idle hf rest
  rw [call] at fits ⊢
  simp only [Call.aim] at fits ⊢
  cases hk : virtualKey v m with
  | error e =>
    rw [hk] at fits
    exact fits.elim
  | ok k =>
    simp only [hk] at fits
    rcases Nat.lt_or_ge g.policy.maxNesting k.depth with deep | within
    · have place : g.aimAt k = .placeholder := if_pos (Policy.exceeds_iff.2 deep)
      rw [place] at fits
      exact absurd (Option.some.inj (hd.symm.trans fits)) inst
    · have limit := g.aimAt_of_depth_le within
      rw [limit] at fits
      obtain ⟨h, o, hh, hd'⟩ := fits
      cases hd.symm.trans hd'
      exact ⟨k, h, o, rfl, limit, limit, rfl, hh⟩

theorem System.Run.gives_again (run : Run g ok X tr Y) (fresh : X.state.IsFresh)
    (idle : ∀ u, X.stackOf u = []) (hf : f ∈ Y.stackOf t) (call : f.call = .virtualTarget v m)
    (rest : f.rest = .done (.ok n)) (hd : Y.state.store.get? n = some d)
    (inst : d ≠ .placeholder) (courses : f.Courses K g φ) (recalls : φ.Recalls t Y.state) :
    (Call.virtualTarget (.descriptor d) m).GivesAt g t Y.state n := by
  obtain ⟨k, h, o, hk, aim, limit, rfl, hh⟩ :=
    run.exists_virtualKey fresh idle hf call rest hd inst
  rw [← courses.reached.aim_eq] at aim
  have warranted := courses.reached.warranted
  have ends := courses.ends rest
  generalize hr : Except.ok n = r at ends
  cases ends with
  | closed w => exact recalls.givesAt warranted aim hr.symm (virtualKey_again hk hh) limit
  | invalid | error => cases hr

end Ended

/-! ## Runs -/

namespace System

variable {g : Engine} {X Y : System} {t : ThreadId} {ok : System → ThreadId → Move → Prop}
  {tr : List (ThreadId × Move)} {f : Activity} {s : State} {c : Call} {v : SlotMethod}
  {m d : Descriptor} {k : MethodKey} {n : MethodId} {r : MethodResult}

theorem Run.exists_extension {ok' : Session → Move → Prop} {tr' : List Move} {L : Session}
    (run : Run g ok X tr Y) (later : Session.Run g t ok' (Y.session t) tr' L) :
    ∃ Z, Run g (fun _ _ _ => True) X (tr'.map (fun m => (t, m)) ++ tr) Z ∧ Z.session t = L := by
  induction later with
  | nil => exact ⟨Y, run.mono fun _ _ _ _ => trivial, rfl⟩
  | @step tr' L L' m _ _ move ih =>
    obtain ⟨Z, run', rfl⟩ := ih
    refine ⟨Z.update t L', .step run' trivial ⟨?_, fun u hu => by simp [update, hu]⟩, ?_⟩
    · simpa [update, session] using move
    · simp [update, session]

/-- A request that a thread serves alone is part of a run. -/
theorem Run.exists_of_serving {ok' : Session → Move → Prop} {tr' : List Move}
    (run : Run g ok X tr Y)
    (h : Session.Serving g t ok' (Y.session t) c tr' ⟨s, [f]⟩) :
    ∃ tr' Z, Run g (fun _ _ _ => True) X tr' Z ∧ Z.state = s ∧ f ∈ Z.stackOf t := by
  obtain ⟨Z, run', hZ⟩ := run.exists_extension (h.run_append .nil)
  obtain ⟨hs, hf⟩ := Session.mk.inj hZ
  exact ⟨_, Z, run', hs, hf ▸ List.mem_cons_self⟩

/-- A request for the instance of a key, made within the limit or beyond it, has ended with this
descriptor, which may have been completed since. -/
def Obtained (tr : List (ThreadId × Move)) (Y : System) (d : Descriptor) : Prop :=
  ∃ t f h copyKey n e, (t, .finish f (.ok n)) ∈ tr ∧ f.call = .get h copyKey ∧
    Y.state.store.get? n = some e ∧ e.key = d.key

theorem Run.depth_le_of_obtained (run : Run g ok X tr Y) (fresh : X.state.IsFresh)
    (idle : ∀ u, X.stackOf u = []) (h : Obtained tr Y d) {l : KeyHandle} (hl : d.key = some l) :
    l.key.depth ≤ g.policy.maxNesting := by
  obtain ⟨t, f, h, copyKey, n, e, hf, call, he, key⟩ := h
  have fits := run.fits_of_finish fresh idle hf
  have limited : f.call.IsLimited := by
    rw [call]
    trivial
  cases aim : f.call.aim g with
  | key k =>
    rw [aim] at fits
    obtain ⟨i, o, hi, hn⟩ := fits
    cases he.symm.trans hn
    obtain rfl : i = l := Option.some.inj (key.trans hl)
    exact hi ▸ limited.depth_le aim
  | placeholder =>
    rw [aim] at fits
    cases he.symm.trans fits
    cases key.trans hl
  | error =>
    rw [aim] at fits
    exact fits.elim

/-- Virtual calls of generic methods. A call has a key unless one of the two methods is the
placeholder, which is turned away at once; of the descriptors only the class arguments of the slot
and the method arguments of the call matter. With what it has reached in the place of the slot, the
call is served at once and gives the same: `again` if its thread has served it alone, `shared` among
threads that do not forget instances while another one serves a request. An instance called through
itself gives itself, and calls of methods within the limit never give the placeholder. -/
structure CallsVirtually (g : Engine) (ok : System → ThreadId → Move → Prop)
    (tr : List (ThreadId × Move)) (Y : System) : Prop where
  keyed : ∀ v m, v.IsMade → m.IsMade →
    ((∃ k, CallsFor v m k) ↔ ¬(v.IsPlaceholder ∨ m = .placeholder))
  requests : ∀ v m k, CallsFor v m k → (Call.virtualTarget v m).program g =
    .act (.copyKey k) fun h => (Call.get h false).program g
  independent : ∀ (h h' l l' : KeyHandle) o o' p p', h.key.definition = h'.key.definition →
    h.key.context.classArgs = h'.key.context.classArgs →
    l.key.context.methodArgs = l'.key.context.methodArgs → ∀ slot,
      (Call.virtualTarget (.descriptor (.describing h o)) (.describing l p)).program g =
        (Call.virtualTarget (.descriptor (.describing h' o')) (.describing l' p')).program g ∧
      (Call.virtualTarget (.definition slot) (.describing l p)).program g =
        (Call.virtualTarget (.definition slot) (.describing l' p')).program g
  turned_away : ∀ v m, v.IsPlaceholder ∨ m = .placeholder →
    ∃ a, (Call.virtualTarget v m).program g = .done (.error (.notAnInstance a))
  fails : ∀ t, ∀ f ∈ Y.stackOf t, ∀ v m, f.call = .virtualTarget v m → v.IsMade → m.IsMade →
    ∀ r, f.rest = .done r →
      ((∃ a, r = .error (.notAnInstance a)) ↔ v.IsPlaceholder ∨ m = .placeholder)
  again : ∀ t ok' v m tr' s f n d,
    Session.Serving g t ok' (Y.session t) (.virtualTarget v m) tr' ⟨s, [f]⟩ →
    f.rest = .done (.ok n) → s.store.get? n = some d → d ≠ .placeholder →
      (Call.virtualTarget (.descriptor d) m).GivesAt g t s n
  shared : (∀ Z u x, ok Z u x → Contract.any.Permits Z u x) → ∀ t f st v m n d,
    Y.stackOf t = f :: st → f.call = .virtualTarget v m → f.rest = .done (.ok n) →
    Y.state.store.get? n = some d → d ≠ .placeholder →
      (Call.virtualTarget (.descriptor d) m).GivesAt g t Y.state n
  self : ∀ k n, Y.state.cache.methods.find? k = some n → k.depth ≤ g.policy.maxNesting →
    ∃ h r, h.key = k ∧ Y.state.store.get? n = some (.describing h (some r)) ∧ ∀ t,
      (Call.virtualTarget (.descriptor (.describing h (some r)))
        (.describing h (some r))).GivesAt g t Y.state n
  limited : ∀ v m, (∀ e, v = .descriptor e → e.isInflated = true → Obtained tr Y e) →
    Obtained tr Y m → ∀ t, ∀ f ∈ Y.stackOf t, f.call = .virtualTarget v m →
      ∀ n, f.rest = .done (.ok n) → Y.state.store.get? n ≠ some .placeholder

theorem Run.notAnInstance_iff (run : Run g ok X tr Y) (fresh : X.state.IsFresh)
    (idle : ∀ u, X.stackOf u = []) (hf : f ∈ Y.stackOf t) (call : f.call = .virtualTarget v m)
    (rest : f.rest = .done r) :
    (∃ a, r = .error (.notAnInstance a)) ↔ ∃ a, virtualKey v m = .error (.notAnInstance a) := by
  have course := run.course_any fresh idle
  obtain ⟨φ, courses⟩ := course.courses t f hf
  have ends := courses.ends rest
  constructor
  · rintro ⟨a, rfl⟩
    cases ends.fails courses.reached (course.described t f hf) with
    | notAnInstance a aim =>
      rw [call] at aim
      simp only [Call.aim] at aim
      split at aim
      · exact absurd aim (g.aimAt_ne_error _ _)
      · next e he =>
        cases aim
        exact ⟨a, he⟩
  · rintro ⟨a, ha⟩
    have aim : φ.aim = .error (.notAnInstance a) := by
      rw [courses.reached.aim_eq, call]
      simp [Call.aim, ha]
    cases ends with
    | closed w => cases w <;> cases aim
    | invalid => cases aim
    | error e =>
      cases aim
      exact ⟨a, rfl⟩

/-- In every run of any threads, also if instances are forgotten in the midst of constructions. -/
theorem Run.virtual_calls_resolved (run : Run g ok X tr Y) (fresh : X.state.IsFresh)
    (idle : ∀ u, X.stackOf u = []) : CallsVirtually g ok tr Y := by
  have course := run.course_any fresh idle
  constructor
  · exact fun v m hv hm => exists_callsFor_iff hv hm
  · exact fun v m k hk => Call.virtualTarget_program hk.virtualKey
  · intro h h' l l' o o' p p' hd hc hm slot
    refine ⟨?_, ?_⟩
    · rw [Call.virtualTarget_program (CallsFor.descriptor h l o p).virtualKey,
        Call.virtualTarget_program (CallsFor.descriptor h' l' o' p').virtualKey, hd, hc, hm]
    · rw [Call.virtualTarget_program (CallsFor.definition slot l p).virtualKey,
        Call.virtualTarget_program (CallsFor.definition slot l' p').virtualKey, hm]
  · exact fun v m place => Call.program_of_placeholder place
  · intro t f hf v m call hv hm r rest
    rw [run.notAnInstance_iff fresh idle hf call rest]
    exact virtualKey_notAnInstance_iff hv hm
  · intro t ok' v m tr' s f n d serving rest hd inst
    obtain ⟨⟨φ, courses, recalls⟩, -⟩ := serving.nil_append.recalls
    have call : f.call = .virtualTarget v m := serving.nil_append.call_eq
    obtain ⟨tr', Z, run', rfl, hf⟩ := run.exists_of_serving serving
    exact run'.gives_again fresh idle hf call rest hd inst courses recalls
  · intro keeps t f st v m n d hY call rest hd inst
    obtain ⟨P, consistent⟩ := (run.mono keeps).consistent (.of_isFresh .any g fresh idle)
    obtain ⟨φ, courses, recalls⟩ := consistent.recalls hY rest
    have hf : f ∈ Y.stackOf t := hY ▸ List.mem_cons_self
    exact run.gives_again fresh idle hf call rest hd inst courses recalls
  · intro k n found shallow
    obtain ⟨h, r, hk, hd, -⟩ := course.inserted k n found
    refine ⟨h, r, hk, hd, fun t => ?_⟩
    have called := virtualKey_self h (some r)
    rw [hk] at called
    exact Call.givesAt_cached called (g.aimAt_of_depth_le shallow) found
  · intro v m slot called t f hf call n rest place
    have fits := run.fits fresh idle hf rest
    rw [call] at fits
    simp only [Call.aim] at fits
    split at fits
    · next k hk =>
      have shallow : k.depth ≤ g.policy.maxNesting := by
        refine depth_le_of_virtualKey hk (fun e i he hi => ?_) fun l hl => ?_
        · have inflated : e.isInflated = true := by simp [Descriptor.isInflated, hi]
          exact run.depth_le_of_obtained fresh idle (slot e he inflated) hi
        · exact run.depth_le_of_obtained fresh idle called hl
      rw [g.aimAt_of_depth_le shallow] at fits
      obtain ⟨h, o, -, hd⟩ := fits
      cases place.symm.trans hd
    · exact fits

end System

namespace Sample

/-- A generic method, and one that overrides it. -/
def visit : MethodDef :=
  { read with serial := 3, name := "Visit", params := [{ name := "U", number := 0 }] }

def overrides : MethodDef := { visit with serial := 4 }

/-- The instance of a method for a tower in its class and one in the method. -/
def visitKey (m : MethodDef) (a b : Nat) : MethodKey where
  definition := m
  context := ⟨some (.cons (.named (tower a)) .nil), some (.cons (.named (tower b)) .nil)⟩

/-- Two instances are requested, then one is called through a slot that holds the other. -/
def visiting : List (ThreadId × Cue) :=
  (.call (.get ⟨0, visitKey overrides 0 0⟩ false) :: goOn 19 ++
    .call (.get ⟨1, visitKey visit 1 2⟩ false) :: goOn 19 ++
    .call (.virtualTarget (.descriptor (.ofKey ⟨0, visitKey overrides 0 0⟩))
      (.ofKey ⟨1, visitKey visit 1 2⟩)) :: goOn 19).map fun q => (0, q)

end Sample

/-- A virtual call that is about to end with an instance of its own. -/
theorem System.Run.virtual_calls_resolved_visiting :
    ∃ R, replay {} .plain Sample.visiting ([], {state := {}}) = some R ∧
      (R.2.stackOf 0).map (fun f => (f.rest.isDone, f.call.aim {})) =
        [(true, .key (Sample.visitKey Sample.overrides 0 2))] ∧
      R.2.state.cache.methods.find? (Sample.visitKey Sample.overrides 0 2) = some ⟨2⟩ ∧
      CallsVirtually {} Contract.any.Permits R.1 R.2 := by
  have facts : (replay {} .plain Sample.visiting ([], {state := {}})).map (fun R =>
      ((R.2.stackOf 0).map (fun f => (f.rest.isDone, f.call.aim {})),
        R.2.state.cache.methods.find? (Sample.visitKey Sample.overrides 0 2))) =
        some ([(true, .key (Sample.visitKey Sample.overrides 0 2))], some ⟨2⟩) := by
    decide +kernel
  obtain ⟨R, hR, hf⟩ := Option.map_eq_some_iff.1 facts
  obtain ⟨ended, found⟩ := Prod.mk.inj hf
  have run : Run {} Contract.any.Permits {state := {}} R.1 R.2 := by
    refine replay_run (fun _ _ m hm => ?_) .nil hR
    cases m with
    | outside | reset => exact hm.elim
    | _ => trivial
  exact ⟨R, hR, ended, found, run.virtual_calls_resolved ⟨rfl, rfl⟩ fun _ => rfl⟩

end Monomorph
