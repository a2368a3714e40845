import Mathlib.Data.List.Forall2
import Monomorph.Proofs.Publication
import Monomorph.Proofs.Questions
import Monomorph.Proofs.Substitution
import Monomorph.Proofs.Uniqueness

/-!
Runtime context data. Slots are added to the layouts of images while threads make requests; a
construction is told the data of its instance by the layouts as they are then, and whatever is added
later, its descriptor keeps them (`Loaded.History`). A callee in the data is the key that a caller
makes by itself. Main statement: `Loaded.History.context_data_kept`.
-/

namespace Monomorph

/-! ## Slots and entries -/

/-- The entry is of the kind of the slot, and has the arguments of the context put in. -/
inductive ContextSlot.Inflates (c : Context) : ContextSlot → ContextEntry → Prop where
  | typeHandle (e : TypeExpr) : Inflates c (.typeHandle e) (.typeHandle (e.substitute c.assign))
  | classHandle (e : TypeExpr) :
      Inflates c (.classHandle e) (.classHandle (e.substitute c.assign))
  | callee (m : MethodDef) (o : Context) (k : MethodKey) (definition : k.definition = m)
      (classArgs : k.context.classArgs = o.classArgs.map (·.substitute c.assign))
      (methodArgs : k.context.methodArgs = o.methodArgs.map (·.substitute c.assign)) :
      Inflates c (.callee m o) (.callee k)

/-- The arguments with others put in for parameters, in a list of their own. -/
def TypeArgs.filled (as : TypeArgs) (c : Context) : TypeArgs :=
  .ofList (as.toList.map (·.substitute c.assign))

theorem TypeArgs.filled_eq (as : TypeArgs) (c : Context) :
    as.filled c = as.substitute c.assign := by
  rw [filled, ← toList_substitute, ofList_toList]

/-- The key that a caller makes of a callee in a layout. -/
def MethodDef.keyFor (m : MethodDef) (o c : Context) : MethodKey where
  definition := m
  context := ⟨o.classArgs.map (·.filled c), o.methodArgs.map (·.filled c)⟩

section Slots

variable {l : Layouts} {t u : Token} {c o : Context} {m : MethodDef} {k : MethodKey}
  {slots : List ContextSlot}

theorem ContextSlot.inflates (s : ContextSlot) (c : Context) : s.Inflates c (s.inflate c) := by
  cases s with
  | typeHandle e =>
    rw [inflate, e.inflate_eq_substitute c]
    exact .typeHandle e
  | classHandle e =>
    rw [inflate, e.inflate_eq_substitute c]
    exact .classHandle e
  | callee m o =>
    rw [inflate, o.inflate_eq_substitute c]
    exact .callee m o _ rfl rfl rfl

theorem ContextSlot.Inflates.key_eq (h : (ContextSlot.callee m o).Inflates c (.callee k)) :
    k = m.keyFor o c := by
  have filled : (fun as : TypeArgs => as.filled c) = TypeArgs.substitute c.assign :=
    funext fun as => as.filled_eq c
  cases h with
  | callee _ _ _ definition classArgs methodArgs =>
    show (⟨k.definition, ⟨k.context.classArgs, k.context.methodArgs⟩⟩ : MethodKey) = _
    rw [definition, classArgs, methodArgs, MethodDef.keyFor, filled]

theorem Layouts.layout?_add_self (l : Layouts) (t : Token) (s : ContextSlot) :
    (l.add t s).layout? t = some ((l.layout? t).getD [] ++ [s]) :=
  Table.find?_insert_self _ _ _

theorem Layouts.layout?_add_of_ne (l : Layouts) (s : ContextSlot) (h : u ≠ t) :
    (l.add t s).layout? u = l.layout? u :=
  Table.find?_insert_of_ne _ _ h

theorem Layouts.exists_resolve (laid : l.layout? t = some slots) (c : Context) :
    ∃ data, l.resolve t c = some data ∧ List.Forall₂ (ContextSlot.Inflates c) slots data := by
  refine ⟨slots.map (·.inflate c), by rw [resolve, laid]; rfl, ?_⟩
  rw [List.forall₂_map_right_iff, List.forall₂_same]
  exact fun s _ => s.inflates c

end Slots

/-! ## Histories -/

/-- A system, with the layouts of the images that it has loaded. -/
structure Loaded where
  system : System
  images : ImageHandle → Layouts := fun _ => {}

/-- A slot is added for a method of the image. -/
def Loaded.add (A : Loaded) (i : ImageHandle) (t : Token) (s : ContextSlot) : Loaded :=
  { A with images := fun j => if j = i then (A.images j).add t s else A.images j }

theorem Loaded.images_add_self (A : Loaded) (i : ImageHandle) (t : Token) (s : ContextSlot) :
    ((A.add i t s).images i).layout? t = some (((A.images i).layout? t).getD [] ++ [s]) := by
  simp [add, Layouts.layout?_add_self]

/-- Layouts of other methods, in this image or another one, stay as they are. -/
theorem Loaded.images_add_of_ne {A : Loaded} {i j : ImageHandle} {t u : Token} {s : ContextSlot}
    (h : ¬(j = i ∧ u = t)) : ((A.add j u s).images i).layout? t = (A.images i).layout? t := by
  by_cases hj : j = i
  · have other : t ≠ u := fun ht => h ⟨hj, ht.symm⟩
    simp [add, hj, Layouts.layout?_add_of_ne _ _ other]
  · simp [add, Ne.symm hj]

/-- A thread moves, or a slot is added for a method of an image. -/
inductive Happening where
  | move (t : ThreadId) (m : Move)
  | add (i : ImageHandle) (t : Token) (s : ContextSlot)

namespace Happening

def move? : Happening → Option (ThreadId × Move)
  | move t m => some (t, m)
  | add _ _ _ => none

/-- The slot, if it is added for this method. -/
def slot? (i : ImageHandle) (t : Token) : Happening → Option ContextSlot
  | move _ _ => none
  | add j u s => if j = i ∧ u = t then some s else none

/-- The moves among what has happened, the latest first. -/
def moves (hs : List Happening) : List (ThreadId × Move) := hs.filterMap move?

/-- The slots that have been added for a method, in the order in which they were added. -/
def slots (i : ImageHandle) (t : Token) (hs : List Happening) : List ContextSlot :=
  (hs.filterMap (slot? i t)).reverse

variable {i j : ImageHandle} {t u : Token} {hs : List Happening}

theorem slots_add_self (i : ImageHandle) (t : Token) (s : ContextSlot) (hs : List Happening) :
    slots i t (add i t s :: hs) = slots i t hs ++ [s] := by
  simp [slots, slot?]

theorem slots_add_of_ne {s : ContextSlot} (h : ¬(j = i ∧ u = t)) :
    slots i t (add j u s :: hs) = slots i t hs := by
  simp [slots, slot?, h]

theorem slots_eq_nil_iff : slots i t hs = [] ↔ ∀ s, add i t s ∉ hs := by
  rw [slots, List.reverse_eq_nil_iff, List.filterMap_eq_nil_iff]
  constructor
  · intro h s hs
    simpa [slot?] using h _ hs
  · intro h e he
    cases e with
    | move => rfl
    | add j u s =>
      refine if_neg ?_
      rintro ⟨rfl, rfl⟩
      exact h s he

end Happening

/-- An answer about runtime context data is what the layouts give. -/
def Move.Resolves (images : ImageHandle → Layouts) : Move → Prop
  | .answer _ (.contextData i t c) x => x = (images i).resolve t c
  | _ => True

/-- Any interleaving of moves and additions. Answers about runtime context data go by what has been
added up to then. -/
inductive Loaded.History (g : Engine) (A : Loaded) : List Happening → Loaded → Prop where
  | nil : History g A [] A
  | move {hs : List Happening} {B : Loaded} {t : ThreadId} {m : Move} {Y : System}
      (history : History g A hs B) (resolves : m.Resolves B.images)
      (step : System.Step g B.system t m Y) :
      History g A (.move t m :: hs) ⟨Y, B.images⟩
  | add {hs : List Happening} {B : Loaded} (history : History g A hs B) (i : ImageHandle)
      (t : Token) (s : ContextSlot) : History g A (.add i t s :: hs) (B.add i t s)

namespace Loaded.History

open Happening

variable {g : Engine} {A B C : Loaded} {hs hs' : List Happening} {i : ImageHandle} {u : Token}

theorem run (history : History g A hs B) :
    System.Run g (fun _ _ _ => True) A.system (moves hs) B.system := by
  induction history with
  | nil => exact .nil
  | move _ _ step ih => exact .step ih trivial step
  | add _ _ _ _ ih => exact ih

/-- A run in which answers about runtime context data go by fixed layouts. -/
theorem of_run {ok : System → ThreadId → Move → Prop} {tr : List (ThreadId × Move)} {Y : System}
    (history : History g A hs B) (resolves : ∀ Z t m, ok Z t m → m.Resolves B.images)
    (run : System.Run g ok B.system tr Y) :
    History g A (tr.map (fun e => .move e.1 e.2) ++ hs) ⟨Y, B.images⟩ := by
  induction run with
  | nil => exact history
  | @step tr Y Z t m _ allowed step ih =>
    have before : History g A (tr.map (fun e => .move e.1 e.2) ++ hs) ⟨Y, B.images⟩ := ih
    exact Loaded.History.move (B := ⟨Y, B.images⟩) before (resolves _ _ _ allowed) step

/-- A layout has the slots that have been added for the method, if there are any. -/
theorem layout?_eq (history : History g A hs B) (empty : ∀ i, A.images i = {}) :
    (B.images i).layout? u = if slots i u hs = [] then none else some (slots i u hs) := by
  induction history with
  | nil =>
    rw [empty]
    rfl
  | move _ _ _ ih => exact ih
  | @add hs B _ j t s ih =>
    by_cases own : j = i ∧ t = u
    · obtain ⟨rfl, rfl⟩ := own
      have before : ((B.images j).layout? t).getD [] = slots j t hs := by
        rw [ih]
        split
        · next none => exact none.symm
        · rfl
      rw [slots_add_self, if_neg (by simp), images_add_self, before]
    · rw [slots_add_of_ne own, images_add_of_ne own, ih]

/-- What was the case when a thread made a move. -/
theorem exists_earlier {t : ThreadId} {m : Move} (history : History g A hs B)
    (hm : (t, m) ∈ moves hs) : ∃ later earlier C, hs = later ++ .move t m :: earlier ∧
      History g A earlier C ∧ m.Resolves C.images := by
  induction history with
  | nil => cases hm
  | @move hs B u m' Y history resolves step ih =>
    rcases List.mem_cons.1 hm with hm | hm
    · cases hm
      exact ⟨[], hs, B, rfl, history, resolves⟩
    · obtain ⟨later, earlier, C, rfl, rest⟩ := ih hm
      exact ⟨_ :: later, earlier, C, rfl, rest⟩
  | add _ i t s ih =>
    obtain ⟨later, earlier, C, rfl, rest⟩ := ih hm
    exact ⟨_ :: later, earlier, C, rfl, rest⟩

end Loaded.History

/-! ## What a construction is told -/

/-- The construction has been told so in the run. -/
def ToldTo (tr : List (ThreadId × Move)) (c : Construction) (q : Query) (x : q.Answer) : Prop :=
  ∃ t, (t, .answer c q x) ∈ tr

section Told

variable {K : ((q : Query) → q.Answer → Prop) → Contract} {g : Engine} {X Y : System}
  {t : ThreadId} {ok : System → ThreadId → Move → Prop} {tr : List (ThreadId × Move)}
  {f : Activity} {n : MethodId} {r : Realization}

theorem ToldTo.cons {c : Construction} {q : Query} {x : q.Answer} (h : ToldTo tr c q x)
    (e : ThreadId × Move) : ToldTo (e :: tr) c q x := by
  obtain ⟨t, ht⟩ := h
  exact ⟨t, List.mem_cons_of_mem _ ht⟩

/-- Only its own construction is told what a request goes on with. -/
theorem Activity.Courses.admits {L : Contract} {φ : Phase} {f' : Activity} {s s' : State} {m : Move}
    (h : f.Courses L g φ) (goes : f.Goes t s m f' s')
    (told : ∀ c q x, m = .answer c q x → c.AllocatedBy f.actions → L.answers q x) :
    L.Admits m := by
  cases goes with
  | act => trivial
  | @answer c q next rest x =>
    have follows := h.follows
    rw [rest] at follows
    obtain ⟨rfl, -⟩ := follows
    exact told c q x rfl (h.reached.allocates rfl)

/-- A request goes through its phases with what its own construction has been told, and nothing
else. -/
theorem System.Run.courses_of_told (answers : ∀ G, (K G).answers = G) (run : Run g ok X tr Y)
    (idle : ∀ u, X.stackOf u = []) (hf : f ∈ Y.stackOf t) {G : (q : Query) → q.Answer → Prop}
    (told : ∀ (c : Construction) q x, c.AllocatedBy f.actions → ToldTo tr c q x → G q x) :
    ∃ φ, f.Courses (K G) g φ := by
  induction run generalizing t f with
  | nil =>
    rw [idle] at hf
    cases hf
  | @step tr Y Z u m _ _ move ih =>
    have earlier : ∀ f₀ : Activity, (∀ d ∈ f₀.actions, d ∈ f.actions) →
        ∀ (c : Construction) q x, c.AllocatedBy f₀.actions → ToldTo tr c q x → G q x :=
      fun f₀ kept c q x hc hx => told c q x (kept _ hc) (hx.cons _)
    rcases move.mem_stackOf hf with hf | ⟨c, -, rfl⟩ | ⟨f₀, hf₀, goes⟩
    · exact ih hf (earlier f fun _ => id)
    · exact ⟨_, .made (K G) g c Y.state⟩
    · obtain ⟨φ, courses⟩ := ih hf₀ (earlier f₀ fun _ => goes.mem_actions)
      refine courses.goes goes (courses.admits goes ?_)
      rintro c q x rfl hc
      rw [answers]
      exact told c q x (goes.mem_actions hc) ⟨u, List.mem_cons_self⟩

/-- What a construction builds comes out of what it has been told itself. -/
theorem System.Run.builds_of_told (answers : ∀ G, (K G).answers = G)
    (mono : ∀ {G G' c r}, (∀ q x, G q x → G' q x) → (K G).builds c r → (K G').builds c r)
    (run : Run g ok X tr Y) (fresh : X.state.IsFresh) (idle : ∀ u, X.stackOf u = [])
    (hr : Completed tr n r) : ∃ h, Y.state.store.get? n = some (.describing h (some r)) ∧
      (K (ToldTo tr ⟨h, n⟩)).builds ⟨h, n⟩ r := by
  induction run with
  | nil =>
    obtain ⟨u, hr⟩ := hr
    cases hr
  | @step tr Y Z t m run allowed move ih =>
    obtain ⟨u, hr⟩ := hr
    rcases List.mem_cons.1 hr with hr | hr
    · cases hr
      obtain ⟨f, next, hf, rest, takes⟩ := move.own.act_cases
      have course := run.course_any fresh idle
      obtain ⟨φ, courses⟩ := course.courses t f hf
      obtain ⟨φ', step, -⟩ := courses.step rest takes
      obtain ⟨c, rfl, rfl, rfl, -⟩ := step.of_publish
      have described : AnsweredAction.Described Z.state (_ :: f.actions) :=
        step.described takes courses.reached (course.described t f hf)
      refine ⟨c.key, (courses.reached.step step).published_describing described, ?_⟩
      have own : ∀ c' : Construction, c'.AllocatedBy f.actions → c = c' := fun c' hc' =>
        Option.some.inj (courses.reached.isOf hc')
      obtain ⟨φ, courses⟩ := run.courses_of_told answers idle hf (G := ToldTo tr c)
        fun c' q x hc' hx => own c' hc' ▸ hx
      obtain ⟨φ', step, -⟩ := courses.step rest takes
      obtain ⟨c', rfl, -, -, builds⟩ := step.of_publish
      obtain rfl := own c' (courses.reached.allocates rfl)
      exact mono (fun q x hx => hx.cons _) builds
    · obtain ⟨h, hd, builds⟩ := ih ⟨u, hr⟩
      refine ⟨h, move.own.store_extends_any.complete hd rfl, ?_⟩
      exact mono (fun q x hx => hx.cons _) builds

end Told

/-- Runtime context data as the construction has been told of it: there is none without arguments
for the method itself, and none without an image. -/
structure Construction.FindsData (answers : (q : Query) → q.Answer → Prop) (c : Construction)
    (data : Option ContextData) : Prop where
  classLevel : c.context.methodArgs = none → data = none
  imageless : c.definition.image = none → data = none
  told : ∀ i, c.context.methodArgs ≠ none → c.definition.image = some i →
    answers (.contextData i c.definition.token c.context) data

section Data

variable {answers answers' : (q : Query) → q.Answer → Prop} {c : Construction}
  {data : Option ContextData}

theorem Construction.FindsData.mono (h : c.FindsData answers data)
    (weaker : ∀ q x, answers q x → answers' q x) : c.FindsData answers' data :=
  ⟨h.classLevel, h.imageless, fun i args image => weaker _ _ (h.told i args image)⟩

theorem Construction.resolveContextData_asks (c : Construction) :
    c.resolveContextData.Asks answers (fun _ => True) (c.FindsData answers) := by
  unfold resolveContextData
  split
  · next as i args image =>
    have asked : (Program.query c (.contextData i c.definition.token c.context)).Asks answers
        (fun _ => True) (answers _) := Program.asks_query trivial
    refine asked.mono fun data hdata => ⟨?_, ?_, ?_⟩
    · simp [args]
    · simp [image]
    · intro j _ hj
      cases image.symm.trans hj
      exact hdata
  · next none =>
    refine ⟨fun _ => rfl, fun _ => rfl, fun i args image => ?_⟩
    obtain ⟨as, has⟩ := Option.ne_none_iff_exists'.1 args
    exact (none as i has image).elim

/-- What constructions come to that are told their runtime context data. -/
def Contract.findingData (answers : (q : Query) → q.Answer → Prop) : Contract :=
  .learning answers (fun c _ r => c.FindsData answers r.contextData) fun c _ =>
    (Construction.realize_asks (R := fun _ _ _ => True) (fun _ => trivial) trivial
      c.resolveContextData_asks fun _ _ => Program.asks_any _).mono fun _ learned => learned.1

theorem Contract.findingData_mono {r : Realization} (weaker : ∀ q x, answers q x → answers' q x)
    (builds : (findingData answers).builds c r) : (findingData answers').builds c r := by
  obtain ⟨owner, howner, declares, finds⟩ := builds
  exact ⟨owner, howner, declares.mono weaker, finds.mono weaker⟩

end Data

/-! ## Runtime context data in histories -/

/-- What holds of layouts and of runtime context data after what has happened. -/
structure Loaded.ContextDataKept (g : Engine) (A : Loaded) (hs : List Happening) (B : Loaded) :
    Prop where
  /-- A method has a layout if slots have been added for it, and these are the slots. -/
  laid : ∀ i t, ((B.images i).layout? t = none ↔ ∀ s, Happening.add i t s ∉ hs) ∧
    ∀ slots, (B.images i).layout? t = some slots → slots = Happening.slots i t hs
  /-- What is added for other methods does not matter. -/
  apart : ∀ i t hs' C, History g B hs' C → (∀ s, Happening.add i t s ∉ hs') →
    (C.images i).layout? t = (B.images i).layout? t
  /-- The data of a method have an entry for each slot of its layout. -/
  resolved : ∀ i t c, ((B.images i).resolve t c = none ↔ (B.images i).layout? t = none) ∧
    ∀ slots, (B.images i).layout? t = some slots →
      ∃ data, (B.images i).resolve t c = some data ∧
        List.Forall₂ (ContextSlot.Inflates c) slots data
  /-- The key in an entry is the one that a caller makes, with the same digest; and whichever of the
  two has been requested, the other one gives the same instance. -/
  identified : ∀ m o c k, (ContextSlot.callee m o).Inflates c (.callee k) →
    k.beq (m.keyFor o c) = true ∧ k.digest = (m.keyFor o c).digest ∧
    ∀ n, (B.system.state.cache.methods.find? k = some n ∨
        B.system.state.cache.methods.find? (m.keyFor o c) = some n) →
      ∀ call : Call, (call.aim g = .key k ∨ call.aim g = .key (m.keyFor o c)) →
        ∀ t, (call.program g).AnswersAt t B.system.state k n
  /-- A descriptor has the data by the layouts as they were when its construction was told. -/
  stored : ∀ n r, Completed (Happening.moves hs) n r → ∃ h,
    B.system.state.store.get? n = some (.describing h (some r)) ∧
    (h.key.context.methodArgs = none → r.contextData = none) ∧
    (h.key.definition.image = none → r.contextData = none) ∧
    ∀ i, h.key.context.methodArgs ≠ none → h.key.definition.image = some i →
      ∃ later t earlier C, hs = later ++ .move t (.answer ⟨h, n⟩
          (.contextData i h.key.definition.token h.key.context) r.contextData) :: earlier ∧
        History g A earlier C ∧
        r.contextData = (C.images i).resolve h.key.definition.token h.key.context
  kept : ∀ n h r, B.system.state.store.get? n = some (.describing h (some r)) →
    ∀ hs' C, History g B hs' C →
      C.system.state.store.get? n = some (.describing h (some r))

namespace Loaded.History

variable {g : Engine} {A B C : Loaded} {hs : List Happening}

/-- Layouts grow, and only by what is added for their own method. -/
theorem layout?_kept {hs' : List Happening} {i : ImageHandle} {t : Token}
    (later : History g B hs' C) (none : ∀ s, Happening.add i t s ∉ hs') :
    (C.images i).layout? t = (B.images i).layout? t := by
  induction later with
  | nil => rfl
  | move _ _ _ ih => exact ih fun s hs => none s (List.mem_cons_of_mem _ hs)
  | @add hs C _ j u s ih =>
    rw [← ih fun s hs => none s (List.mem_cons_of_mem _ hs)]
    refine images_add_of_ne ?_
    rintro ⟨rfl, rfl⟩
    exact none s List.mem_cons_self

/-- In every interleaving of the moves of any threads with additions to the layouts of images. -/
theorem context_data_kept (history : History g A hs B) (fresh : A.system.state.IsFresh)
    (idle : ∀ u, A.system.stackOf u = []) (empty : ∀ i, A.images i = {}) :
    ContextDataKept g A hs B := by
  have run := history.run
  constructor
  · intro i t
    rw [history.layout?_eq empty, ← Happening.slots_eq_nil_iff]
    split
    · next none => simp [none]
    · next some => simp [some]
  · exact fun i t hs' C later none => later.layout?_kept none
  · exact fun i t c => ⟨Option.map_eq_none_iff, fun slots laid => Layouts.exists_resolve laid c⟩
  · intro m o c k inflates
    obtain rfl := inflates.key_eq
    refine ⟨MethodKey.beq_iff.2 rfl, rfl, fun n found call aim t => ?_⟩
    rw [or_self] at found aim
    exact Call.answersAt aim found
  · intro n r hr
    obtain ⟨h, hd, owner, -, -, finds⟩ :=
      run.builds_of_told (K := .findingData) (fun _ => rfl) Contract.findingData_mono fresh idle hr
    refine ⟨h, hd, finds.classLevel, finds.imageless, fun i args image => ?_⟩
    obtain ⟨t, told⟩ := finds.told i args image
    obtain ⟨later, earlier, C, split, before, resolves⟩ := history.exists_earlier told
    exact ⟨later, t, earlier, C, split, before, resolves⟩
  · intro n h r hd hs' C later
    rw [later.run.get?_eq hd]
    rfl

end Loaded.History

/-- As `plain`, with runtime context data by these layouts. -/
def Collaborators.resolving (images : ImageHandle → Layouts) : Collaborators :=
  { plain with contextData := fun i t c => (images i).resolve t c }

theorem Move.IsPlayed.resolves {images : ImageHandle → Layouts} {m : Move}
    (h : m.IsPlayed (.resolving images)) : m.Resolves images := by
  cases m with
  | answer c q x =>
    cases q with
    | contextData => exact h
    | _ => trivial
  | _ => trivial

namespace Sample

/-- A method that calls itself for arrays of its argument. -/
def pack : MethodDef where
  serial := 0
  token := default
  name := "Pack"
  owner := .definition { cell with image := some default }
  params := [{ name := "U", number := 0 }]

/-- What is packed. -/
def element : TypeExpr := .named (.definition cell)

def packKey (e : TypeExpr) : MethodKey := ⟨pack, { methodArgs := some (.cons e .nil) }⟩

/-- The instance is requested and built. -/
def packing (n : Nat) (e : TypeExpr) : List (ThreadId × Cue) :=
  (.call (.get ⟨n, packKey e⟩ false) :: goOn 19).map fun q => (0, q)

/-- A slot for the callee is added. -/
def packed (A : Loaded) : Loaded :=
  A.add default default (.callee pack (packKey (.array (.methodVar 0))).context)

/-- A slot for the argument is added. -/
def labelled (A : Loaded) : Loaded := A.add default default (.typeHandle (.methodVar 0))

end Sample

/-- A slot is added after an instance has been built, and before its callee is. -/
theorem Loaded.History.context_data_kept_packing :
    ∃ hs B, History {} { system := { state := {} } } hs B ∧
      (B.system.state.store.get? ⟨0⟩).bind (·.contextData) =
        some [.callee (Sample.packKey (.array Sample.element))] ∧
      (B.system.state.store.get? ⟨1⟩).bind (·.contextData) =
        some [.callee (Sample.packKey (.array (.array Sample.element))),
          .typeHandle (.array Sample.element)] ∧
      ContextDataKept {} { system := { state := {} } } hs B := by
  have facts : ((System.replay {} (.resolving (Sample.packed { system := { state := {} } }).images)
      (Sample.packing 0 Sample.element) ([], { state := {} })).bind fun R =>
      (System.replay {}
        (.resolving (Sample.labelled (Sample.packed { system := { state := {} } })).images)
        (Sample.packing 1 (.array Sample.element)) ([], R.2)).map fun S =>
      ((S.2.state.store.get? ⟨0⟩).bind (·.contextData),
        (S.2.state.store.get? ⟨1⟩).bind (·.contextData))) =
      some (some [.callee (Sample.packKey (.array Sample.element))],
        some [.callee (Sample.packKey (.array (.array Sample.element))),
          .typeHandle (.array Sample.element)]) := by
    decide +kernel
  obtain ⟨R, hR, hf⟩ := Option.bind_eq_some_iff.1 facts
  obtain ⟨S, hS, hf⟩ := Option.map_eq_some_iff.1 hf
  obtain ⟨first, second⟩ := Prod.mk.inj hf
  have laid : History {} { system := { state := {} } } _ (Sample.packed _) := .add .nil _ _ _
  have built := laid.of_run (fun _ _ _ hm => hm)
    (System.replay_run (fun _ _ _ hm => hm.resolves) .nil hR)
  have added : History {} _ _ (Sample.labelled _) := built.add default default _
  have history := added.of_run (fun _ _ _ hm => hm)
    (System.replay_run (fun _ _ _ hm => hm.resolves) .nil hS)
  exact ⟨_, _, history, first, second,
    history.context_data_kept ⟨rfl, rfl⟩ (fun _ => rfl) fun _ => rfl⟩

end Monomorph
