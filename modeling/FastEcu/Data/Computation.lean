import Mathlib.Data.List.Basic

/-!
# Computations that fail, change a state and leave events

A computation ends with a value or an error; either way it has left a list of events and a state.

* `Computation` : the monad.
* `Compositional` : a property that the operations of the monad keep.
* `Strictly` : a failed event is the last one, and its error is the result.
* `Emits` : every event has a property.
* `Keeps` : a property of the state is kept.
-/

namespace FastEcu.Data

/-- What a computation ends with. -/
structure Outcome (ε ω σ α : Type) where
  result : Except ε α
  events : List ω
  state : σ

/-- A computation with errors `ε`, events `ω` and a state `σ`. -/
def Computation (ε ω σ α : Type) : Type := σ → Outcome ε ω σ α

/-- An element of two lists is one of the first or one of the second. -/
theorem append_eq_append_cons {ω : Type} {l l' before after : List ω} {a : ω}
    (h : l ++ l' = before ++ a :: after) :
    (∃ rest, l = before ++ a :: rest ∧ after = rest ++ l') ∨
      ∃ rest, before = l ++ rest ∧ l' = rest ++ a :: after := by
  rcases List.append_eq_append_iff.1 h with ⟨rest, hbefore, hrest⟩ | ⟨rest, hl, hrest⟩
  · exact .inr ⟨rest, hbefore, hrest⟩
  · cases rest with
    | nil => exact .inr ⟨[], by simpa using hl.symm, by simpa using hrest.symm⟩
    | cons b rest =>
      rw [List.cons_append] at hrest
      obtain ⟨rfl, hafter⟩ := List.cons.inj hrest
      exact .inl ⟨rest, hl, hafter⟩

namespace Computation

variable {ε ω σ α β : Type}

/-- One computation after the other, if the first does not fail. -/
def andThen (m : Computation ε ω σ α) (f : α → Computation ε ω σ β) : Computation ε ω σ β :=
  fun s =>
    match (m s).result with
    | .ok a =>
      let o := f a (m s).state
      ⟨o.result, (m s).events ++ o.events, o.state⟩
    | .error e => ⟨.error e, (m s).events, (m s).state⟩

instance : Monad (Computation ε ω σ) where
  pure a := fun s => ⟨.ok a, [], s⟩
  bind := andThen

/-- The computation that fails. -/
def fail (e : ε) : Computation ε ω σ α := fun s => ⟨.error e, [], s⟩

/-- A change of the state. -/
def modify (f : σ → σ) : Computation ε ω σ Unit := fun s => ⟨.ok (), [], f s⟩

/-- A computation that is done on a condition. -/
def when (c : Bool) (m : Computation ε ω σ Unit) : Computation ε ω σ Unit := if c then m else pure ()

/-- A computation for each element of a list, until one fails. -/
def each (l : List β) (f : β → Computation ε ω σ Unit) : Computation ε ω σ Unit :=
  match l with
  | [] => pure ()
  | b :: l => do
    f b
    each l f

@[simp]
theorem pure_apply (a : α) (s : σ) : (pure a : Computation ε ω σ α) s = ⟨.ok a, [], s⟩ := rfl

theorem bind_of_ok {m : Computation ε ω σ α} {f : α → Computation ε ω σ β} {s : σ} {a : α}
    (h : (m s).result = .ok a) : (m >>= f) s =
      ⟨(f a (m s).state).result, (m s).events ++ (f a (m s).state).events,
        (f a (m s).state).state⟩ := by
  change andThen m f s = _
  rw [andThen, h]

theorem bind_of_error {m : Computation ε ω σ α} {f : α → Computation ε ω σ β} {s : σ} {e : ε}
    (h : (m s).result = .error e) : (m >>= f) s = ⟨.error e, (m s).events, (m s).state⟩ := by
  change andThen m f s = _
  rw [andThen, h]

theorem bind_congr {m n : Computation ε ω σ α} {f : α → Computation ε ω σ β} {s : σ}
    (h : m s = n s) : (m >>= f) s = (n >>= f) s := by
  change andThen m f s = andThen n f s
  rw [andThen, andThen, h]

/-- Events that come before a computation come before what follows it. -/
theorem bind_of_events {m n : Computation ε ω σ α} {f : α → Computation ε ω σ β} {s s' : σ}
    {events : List ω} (h : m s = ⟨(n s').result, events ++ (n s').events, (n s').state⟩) :
    (m >>= f) s =
      ⟨((n >>= f) s').result, events ++ ((n >>= f) s').events, ((n >>= f) s').state⟩ := by
  have hresult : (m s).result = (n s').result := by rw [h]
  cases hn : (n s').result with
  | ok a =>
    rw [bind_of_ok (hresult.trans hn), bind_of_ok hn, h]
    simp only [List.append_assoc]
  | error e => rw [bind_of_error (hresult.trans hn), bind_of_error hn, h]

/-- A value that was returned by two computations was returned by the second, after the first. -/
theorem bind_eq_ok {m : Computation ε ω σ α} {f : α → Computation ε ω σ β} {s : σ} {b : β}
    (h : ((m >>= f) s).result = .ok b) : ∃ a, (m s).result = .ok a ∧
      (f a (m s).state).result = .ok b ∧
      ((m >>= f) s).events = (m s).events ++ (f a (m s).state).events ∧
      ((m >>= f) s).state = (f a (m s).state).state := by
  cases hm : (m s).result with
  | ok a =>
    rw [bind_of_ok hm] at h ⊢
    exact ⟨a, rfl, h, rfl, rfl⟩
  | error e =>
    rw [bind_of_error hm] at h
    cases h

/-! ### Properties of the parts -/

/-- A property of computations that is kept when they are composed. -/
structure Compositional (Q : ∀ α : Type, Computation ε ω σ α → Prop) : Prop where
  pure : ∀ {α : Type} (a : α), Q α (pure a)
  fail : ∀ {α : Type} (e : ε), Q α (fail e)
  bind : ∀ {α β : Type} {m : Computation ε ω σ α} {f : α → Computation ε ω σ β},
    Q α m → (∀ a, Q β (f a)) → Q β (m >>= f)
  /-- The state may choose the computation. -/
  choose : ∀ {α : Type} {m : σ → Computation ε ω σ α}, (∀ s, Q α (m s)) → Q α fun s => m s s

theorem Compositional.ite {Q : ∀ α : Type, Computation ε ω σ α → Prop} {c : Prop} [Decidable c]
    {m n : Computation ε ω σ α} (hm : Q α m) (hn : Q α n) : Q α (if c then m else n) := by
  split
  · exact hm
  · exact hn

theorem Compositional.when {Q : ∀ α : Type, Computation ε ω σ α → Prop} (hQ : Compositional Q)
    (c : Bool) {m : Computation ε ω σ Unit} (hm : Q Unit m) : Q Unit (when c m) :=
  ite hm (hQ.pure ())

theorem Compositional.each {Q : ∀ α : Type, Computation ε ω σ α → Prop} (hQ : Compositional Q)
    {l : List β} {f : β → Computation ε ω σ Unit} (hf : ∀ b ∈ l, Q Unit (f b)) :
    Q Unit (each l f) := by
  induction l with
  | nil => exact hQ.pure ()
  | cons b l ih =>
    exact hQ.bind (hf b (List.mem_cons_self ..)) fun _ =>
      ih fun b' hb' => hf b' (List.mem_cons_of_mem _ hb')

/-! ### A failed event ends the computation -/

section Strict

variable (failure : ω → Option ε)

/-- A failed event is the last one, and its error is the result. -/
def Strict (events : List ω) (result : Except ε α) : Prop :=
  ∀ before event after e, events = before ++ event :: after → failure event = some e →
    after = [] ∧ result = .error e

/-- The events of the computation are strict from every state. -/
def Strictly (α : Type) (m : Computation ε ω σ α) : Prop :=
  ∀ s, Strict failure (m s).events (m s).result

variable {failure}

theorem Strict.nil {result : Except ε α} : Strict failure [] result := by
  intro before event after e h
  simp at h

theorem Strict.singleton {event : ω} {result : Except ε α}
    (h : ∀ e, failure event = some e → result = .error e) : Strict failure [event] result := by
  intro before event' after e hl hfailure
  cases before with
  | nil =>
    cases hl
    exact ⟨rfl, h e hfailure⟩
  | cons b before => simp at hl

/-- A computation that has not failed has no failed event. -/
theorem Strict.append {events events' : List ω} {a : α} {result : Except ε β}
    (h : Strict failure events (.ok a : Except ε α)) (h' : Strict failure events' result) :
    Strict failure (events ++ events') result := by
  intro before event after e hl hfailure
  rcases append_eq_append_cons hl with ⟨rest, hbefore, -⟩ | ⟨rest, -, hrest⟩
  · -- the event is one of the first computation, which has not failed
    obtain ⟨-, hresult⟩ := h before event rest e hbefore hfailure
    cases hresult
  · exact h' rest event after e hrest hfailure

theorem Strictly.bind {m : Computation ε ω σ α} {f : α → Computation ε ω σ β}
    (hm : Strictly failure α m) (hf : ∀ a, Strictly failure β (f a)) :
    Strictly failure β (m >>= f) := by
  intro s
  have hs := hm s
  cases hresult : (m s).result with
  | ok a =>
    rw [bind_of_ok hresult]
    rw [hresult] at hs
    exact hs.append (hf a _)
  | error e =>
    rw [bind_of_error hresult]
    intro before event after e' hl hfailure
    obtain ⟨hafter, he⟩ := hs before event after e' hl hfailure
    rw [hresult] at he
    cases he
    exact ⟨hafter, rfl⟩

theorem Strictly.compositional : Compositional (Strictly (σ := σ) failure) where
  pure _ _ := .nil
  fail _ _ := .nil
  bind := Strictly.bind
  choose h s := h s s

end Strict

/-! ### What the events are -/

section Emits

variable {p : ω → Prop}

/-- Every event has the property. -/
def Emits (p : ω → Prop) (α : Type) (m : Computation ε ω σ α) : Prop :=
  ∀ s, ∀ event ∈ (m s).events, p event

theorem Emits.bind {m : Computation ε ω σ α} {f : α → Computation ε ω σ β} (hm : Emits p α m)
    (hf : ∀ a, Emits p β (f a)) : Emits p β (m >>= f) := by
  intro s event hmem
  cases hresult : (m s).result with
  | ok a =>
    rw [bind_of_ok hresult] at hmem
    rcases List.mem_append.1 hmem with hmem | hmem
    · exact hm s event hmem
    · exact hf a _ event hmem
  | error e =>
    rw [bind_of_error hresult] at hmem
    exact hm s event hmem

/-- The events after the first computation are those of what follows it. -/
theorem Emits.after {f : α → Computation ε ω σ β} (hf : ∀ a, Emits p β (f a))
    (m : Computation ε ω σ α) (s : σ) :
    ∃ rest, ((m >>= f) s).events = (m s).events ++ rest ∧ ∀ event ∈ rest, p event := by
  cases hresult : (m s).result with
  | ok a =>
    rw [bind_of_ok hresult]
    exact ⟨_, rfl, hf a _⟩
  | error e =>
    rw [bind_of_error hresult]
    exact ⟨[], (List.append_nil _).symm, fun _ hmem => (nomatch hmem)⟩

theorem Emits.compositional : Compositional (Emits (ε := ε) (σ := σ) p) where
  pure _ _ _ hmem := (nomatch hmem)
  fail _ _ _ hmem := (nomatch hmem)
  bind := Emits.bind
  choose h s := h s s

end Emits

/-! ### What is kept -/

section Keeps

variable {I : σ → Prop}

/-- The property of the state is kept. -/
def Keeps (I : σ → Prop) (α : Type) (m : Computation ε ω σ α) : Prop := ∀ s, I s → I (m s).state

theorem Keeps.bind {m : Computation ε ω σ α} {f : α → Computation ε ω σ β} (hm : Keeps I α m)
    (hf : ∀ a, Keeps I β (f a)) : Keeps I β (m >>= f) := by
  intro s hs
  cases hresult : (m s).result with
  | ok a =>
    rw [bind_of_ok hresult]
    exact hf a _ (hm s hs)
  | error e =>
    rw [bind_of_error hresult]
    exact hm s hs

theorem Keeps.compositional : Compositional (Keeps (ε := ε) (ω := ω) I) where
  pure _ _ hs := hs
  fail _ _ hs := hs
  bind := Keeps.bind
  choose h s := h s s

end Keeps

end Computation

end FastEcu.Data
