import FastEcu.Data.Computation

/-!
# Computations that follow a script

The calls that a computation makes are answered by a list, and what it sends is compared with a list
of requests.

* `ask` : a call that takes the next answer of the script.
* `mapError`, `attempt` : a computation whose error is changed, and one whose error is a value.
* `nest` : a computation as one event of another.
* `Meets` : a property of what the computation gives and leaves, from every state.
* `Returns` : the value that a computation gives on a script, and the rest of the script.
* `Sends` : what the computation sends is a part of a program from its start, and all of the program
  when it succeeds.
-/

namespace FastEcu.Data

namespace Computation

variable {ε ω σ ρ α β : Type}

/-! ### Calls -/

/-- A call: what it gives and leaves is a function of the next answer. -/
def ask [Inhabited ρ] (f : ρ → Except ε α × List ω) : Computation ε ω (List ρ) α := fun script =>
  ⟨(f (script.headD default)).1, (f (script.headD default)).2, script.tail⟩

/-- The computation with another error. -/
def mapError (g : ε → ε) (m : Computation ε ω σ α) : Computation ε ω σ α := fun s =>
  ⟨(m s).result.mapError g, (m s).events, (m s).state⟩

/-- The computation with its error as a value. -/
def attempt (m : Computation ε ω σ α) : Computation ε ω σ (Except ε α) := fun s =>
  ⟨.ok (m s).result, (m s).events, (m s).state⟩

/-- A result as a computation. -/
def ofExcept : Except ε α → Computation ε ω σ α
  | .ok a => pure a
  | .error e => fail e

/-- The computation with its events as one event, which has its result too. -/
def nest {ω' : Type} (event : List ω → Except ε α → ω') (m : Computation ε ω σ α) :
    Computation ε ω' σ α := fun s =>
  ⟨(m s).result, [event (m s).events (m s).result], (m s).state⟩

/-- The computation with each event as an event of another kind. -/
def mapEvents {ω' : Type} (g : ω → ω') (m : Computation ε ω σ α) : Computation ε ω' σ α := fun s =>
  ⟨(m s).result, (m s).events.map g, (m s).state⟩

@[simp]
theorem ofExcept_ok_bind (a : α) (f : α → Computation ε ω σ β) :
    ((ofExcept (.ok a) : Computation ε ω σ α) >>= f) = f a := by
  funext s
  rfl

/-- What follows an attempt gets its result, whether it is an error or not. -/
theorem attempt_bind (m : Computation ε ω σ α) (f : Except ε α → Computation ε ω σ β) (s : σ) :
    (attempt m >>= f) s =
      ⟨(f (m s).result (m s).state).result, (m s).events ++ (f (m s).result (m s).state).events,
        (f (m s).result (m s).state).state⟩ := rfl

/-! ### What a computation gives and leaves -/

section Meets

variable {P Q : Except ε α → List ω → Prop} {m : Computation ε ω σ α}

/-- The result and the events have the property, from every state. -/
def Meets (Q : Except ε α → List ω → Prop) (m : Computation ε ω σ α) : Prop :=
  ∀ s, Q (m s).result (m s).events

theorem Meets.pure {a : α} (h : Q (.ok a) []) : Meets Q (pure a : Computation ε ω σ α) := fun _ => h

theorem Meets.fail {e : ε} (h : Q (.error e) []) : Meets Q (fail e : Computation ε ω σ α) := fun _ => h

theorem Meets.ask [Inhabited ρ] {f : ρ → Except ε α × List ω}
    (h : ∀ answer, Q (f answer).1 (f answer).2) : Meets Q (ask f) :=
  fun _ => h _

theorem Meets.ofExcept {r : Except ε α} (h : Q r []) :
    Meets Q (ofExcept r : Computation ε ω σ α) := by
  cases r with
  | ok a => exact .pure h
  | error e => exact .fail h

theorem Meets.mono (h : Meets P m) (hPQ : ∀ result events, P result events → Q result events) :
    Meets Q m :=
  fun s => hPQ _ _ (h s)

theorem Meets.ite {c : Prop} [Decidable c] {n : Computation ε ω σ α} (hm : c → Meets Q m)
    (hn : ¬ c → Meets Q n) : Meets Q (if c then m else n) := by
  by_cases hc : c
  · rw [if_pos hc]
    exact hm hc
  · rw [if_neg hc]
    exact hn hc

/-- What the first of two computations must give and leave: its error is the last one, and what
follows its value leaves the rest of the events. -/
def Then (Q : Except ε β → List ω → Prop) (f : α → Computation ε ω σ β) :
    Except ε α → List ω → Prop
  | .error e, events => Q (.error e) events
  | .ok a, events => Meets (fun result rest => Q result (events ++ rest)) (f a)

theorem Then.error {Q : Except ε β → List ω → Prop} {f : α → Computation ε ω σ β} {e : ε}
    {events : List ω} (h : Q (.error e) events) : Then Q f (.error e) events := h

theorem Then.ok {Q : Except ε β → List ω → Prop} {f : α → Computation ε ω σ β} {a : α}
    {events : List ω} (h : Meets (fun result rest => Q result (events ++ rest)) (f a)) :
    Then Q f (.ok a) events := h

/-- The rule for two computations. -/
theorem Meets.bind {Q : Except ε β → List ω → Prop} {f : α → Computation ε ω σ β}
    (hm : Meets (Then Q f) m) : Meets Q (m >>= f) := by
  intro s
  have hs := hm s
  cases hresult : (m s).result with
  | ok a =>
    rw [bind_of_ok hresult]
    rw [hresult] at hs
    exact hs _
  | error e =>
    rw [bind_of_error hresult]
    rw [hresult] at hs
    exact hs

/-- The rule with what is known of the first computation. -/
theorem Meets.bind_of {Q : Except ε β → List ω → Prop} {f : α → Computation ε ω σ β}
    (hm : Meets P m) (h : ∀ result events, P result events → Then Q f result events) :
    Meets Q (m >>= f) :=
  .bind (hm.mono h)

/-- The rule for a property of what follows that nothing before it can spoil. -/
theorem Meets.bind_after {Q : Except ε β → List ω → Prop} {f : α → Computation ε ω σ β}
    (herror : ∀ e events, Q (.error e) events)
    (hbefore : ∀ result events rest, Q result rest → Q result (events ++ rest))
    (hf : ∀ a, Meets Q (f a)) (m : Computation ε ω σ α) : Meets Q (m >>= f) := by
  refine .bind ?_
  intro s
  cases (m s).result with
  | error e => exact .error (herror e _)
  | ok a => exact .ok ((hf a).mono fun result rest => hbefore result _ rest)

theorem Meets.mapError {g : ε → ε}
    (h : Meets (fun result events => Q (result.mapError g) events) m) : Meets Q (mapError g m) := h

theorem Meets.attempt {Q : Except ε (Except ε α) → List ω → Prop}
    (h : Meets (fun result events => Q (.ok result) events) m) : Meets Q (attempt m) := h

theorem Meets.nest {ω' : Type} {event : List ω → Except ε α → ω'} {Q : Except ε α → List ω' → Prop}
    (h : ∀ result events, Q result [event events result]) : Meets Q (nest event m) := fun _ => h _ _

/-- What is known of a computation is known of the calls in its event. -/
theorem Meets.nest_of {ω' : Type} (event : List ω → Except ε α → ω') (h : Meets P m) :
    Meets (fun result events => ∃ calls, events = [event calls result] ∧ P result calls)
      (Computation.nest event m) :=
  fun s => ⟨_, rfl, h s⟩

theorem Meets.mapEvents {ω' : Type} {g : ω → ω'} {Q : Except ε α → List ω' → Prop}
    (h : Meets (fun result events => Q result (events.map g)) m) : Meets Q (mapEvents g m) := h

end Meets

/-! ### What a script leads to -/

section Returns

/-- From the state the computation gives the value and ends in the other state. -/
def Returns (m : Computation ε ω σ α) (s : σ) (a : α) (s' : σ) : Prop :=
  (m s).result = .ok a ∧ (m s).state = s'

theorem Returns.pure (a : α) (s : σ) : Returns (pure a : Computation ε ω σ α) s a s := ⟨rfl, rfl⟩

theorem Returns.bind {m : Computation ε ω σ α} {f : α → Computation ε ω σ β} {s s' s'' : σ} {a : α}
    {b : β} (hm : Returns m s a s') (hf : Returns (f a) s' b s'') : Returns (m >>= f) s b s'' := by
  obtain ⟨hresult, rfl⟩ := hm
  rw [Returns, bind_of_ok hresult]
  exact hf

theorem Returns.ask [Inhabited ρ] {f : ρ → Except ε α × List ω} {answer : ρ} {a : α}
    (h : (f answer).1 = .ok a) (rest : List ρ) : Returns (ask f) (answer :: rest) a rest := ⟨h, rfl⟩

theorem Returns.nest {ω' : Type} {event : List ω → Except ε α → ω'} {m : Computation ε ω σ α}
    {s s' : σ} {a : α} (h : Returns m s a s') : Returns (nest event m) s a s' := h

theorem Returns.mapEvents {ω' : Type} {g : ω → ω'} {m : Computation ε ω σ α} {s s' : σ} {a : α}
    (h : Returns m s a s') : Returns (mapEvents g m) s a s' := h

end Returns

/-! ### What is sent -/

section Sends

variable (sends : ω → Option ρ)

/-- The requests among the events. -/
def sent (events : List ω) : List ρ := events.filterMap sends

/-- What is sent is a part of the program from its start, and all of it on success. -/
def Sends (program : List ρ) (m : Computation ε ω σ α) : Prop :=
  ∀ s, sent sends (m s).events <+: program ∧
    ∀ a, (m s).result = .ok a → sent sends (m s).events = program

variable {sends}

@[simp]
theorem sent_nil : sent sends [] = [] := rfl

@[simp]
theorem sent_append (l l' : List ω) : sent sends (l ++ l') = sent sends l ++ sent sends l' :=
  List.filterMap_append

theorem Sends.pure (a : α) : Sends sends [] (pure a : Computation ε ω σ α) := by
  intro s
  exact ⟨List.prefix_refl _, fun _ _ => rfl⟩

theorem Sends.fail (program : List ρ) (e : ε) :
    Sends sends program (fail e : Computation ε ω σ α) := by
  intro s
  refine ⟨List.nil_prefix, ?_⟩
  intro a h
  cases h

/-- What follows may depend on the value, but not what it sends. -/
theorem Sends.bind_of {program program' : List ρ} {m : Computation ε ω σ α}
    {f : α → Computation ε ω σ β} (hm : Sends sends program m)
    (hf : ∀ s a, (m s).result = .ok a → Sends sends program' (f a)) :
    Sends sends (program ++ program') (m >>= f) := by
  intro s
  obtain ⟨hpart, hall⟩ := hm s
  cases hresult : (m s).result with
  | ok a =>
    obtain ⟨hpart', hall'⟩ := hf s a hresult (m s).state
    rw [bind_of_ok hresult]
    simp only [sent_append, hall a hresult]
    refine ⟨(List.prefix_append_right_inj _).2 hpart', ?_⟩
    intro b hb
    rw [hall' b hb]
  | error e =>
    rw [bind_of_error hresult]
    refine ⟨hpart.trans (List.prefix_append _ _), ?_⟩
    intro b hb
    cases hb

theorem Sends.bind {program program' : List ρ} {m : Computation ε ω σ α}
    {f : α → Computation ε ω σ β} (hm : Sends sends program m)
    (hf : ∀ a, Sends sends program' (f a)) : Sends sends (program ++ program') (m >>= f) :=
  hm.bind_of fun _ a _ => hf a

theorem Sends.each {l : List β} {program : β → List ρ} {f : β → Computation ε ω σ Unit}
    (hf : ∀ b ∈ l, Sends sends (program b) (f b)) : Sends sends (l.flatMap program) (each l f) := by
  induction l with
  | nil => exact .pure ()
  | cons b l ih =>
    rw [List.flatMap_cons]
    refine .bind (hf b (List.mem_cons_self ..)) fun _ => ih ?_
    intro b' hb'
    exact hf b' (List.mem_cons_of_mem _ hb')

/-- A single request for each element. -/
theorem Sends.each_map {l : List β} {request : β → ρ} {f : β → Computation ε ω σ Unit}
    (hf : ∀ b ∈ l, Sends sends [request b] (f b)) :
    Sends sends (l.map request) (Computation.each l f) := by
  rw [← List.flatMap_pure_eq_map]
  exact .each hf

/-- What is made of the value sends nothing. -/
theorem Sends.map {program : List ρ} {m : Computation ε ω σ α} (hm : Sends sends program m)
    (g : α → β) : Sends sends program (m >>= fun a => Pure.pure (g a)) := by
  rw [← List.append_nil program]
  exact hm.bind fun a => .pure (g a)

theorem Sends.ite {c : Prop} [Decidable c] {program : List ρ} {m n : Computation ε ω σ α}
    (hm : Sends sends program m) (hn : Sends sends program n) :
    Sends sends program (if c then m else n) := by
  split
  · exact hm
  · exact hn

end Sends

end Computation

end FastEcu.Data
