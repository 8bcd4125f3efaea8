import FastEcu.Data.Script

/-!
# Computations as transitions

What a computation does, as a relation between the state before it, its result, its events and the state after it.

* `Relates` : the relation holds of the computation from every state.
* `Relates.bind`, `Relates.each` : computations one after another.
* `Lasting` : a relation on states and events that nothing and two steps keep.
-/

namespace FastEcu.Data

namespace Computation

variable {ε ω σ α β : Type}

/-- The relation holds between the state before, what the computation gives and leaves, and the state after. -/
def Relates (Q : σ → Except ε α → List ω → σ → Prop) (m : Computation ε ω σ α) : Prop :=
  ∀ s, Q s (m s).result (m s).events (m s).state

variable {P Q : σ → Except ε α → List ω → σ → Prop} {m : Computation ε ω σ α}

theorem Relates.pure {a : α} (h : ∀ s, Q s (.ok a) [] s) : Relates Q (pure a) := h

theorem Relates.fail {e : ε} (h : ∀ s, Q s (.error e) [] s) : Relates Q (fail e) := h

theorem Relates.mono (h : Relates P m) (hPQ : ∀ s result events s', P s result events s' → Q s result events s') :
    Relates Q m :=
  fun s => hPQ _ _ _ _ (h s)

/-- The rule for two computations: the first one fails, or the second one goes on with its value. -/
theorem Relates.bind {R : α → σ → Except ε β → List ω → σ → Prop} {Q : σ → Except ε β → List ω → σ → Prop}
    {f : α → Computation ε ω σ β} (hm : Relates P m) (hf : ∀ a, Relates (R a) (f a))
    (herror : ∀ s e events s', P s (.error e) events s' → Q s (.error e) events s')
    (hok : ∀ s a events s' result events' s'', P s (.ok a) events s' → R a s' result events' s'' →
      Q s result (events ++ events') s'') : Relates Q (m >>= f) := by
  intro s
  have hs := hm s
  cases hresult : (m s).result with
  | ok a =>
    rw [hresult] at hs
    rw [bind_of_ok hresult]
    exact hok _ _ _ _ _ _ _ hs (hf a _)
  | error e =>
    rw [hresult] at hs
    rw [bind_of_error hresult]
    exact herror _ _ _ _ hs

/-- A relation that ignores the result holds of an attempt. -/
theorem Relates.attempt {R : σ → List ω → σ → Prop} (h : Relates (fun s _ events s' => R s events s') m) :
    Relates (fun s _ events s' => R s events s') (Computation.attempt m) := h

/-! ### Relations that last -/

/-- A relation between states with the events between them that holds of no step and of two steps. -/
structure Lasting (R : σ → List ω → σ → Prop) : Prop where
  refl : ∀ s, R s [] s
  trans : ∀ {s s' s'' events events'}, R s events s' → R s' events' s'' → R s (events ++ events') s''

/-- The relation holds whatever the result is. -/
abbrev Always (R : σ → List ω → σ → Prop) (m : Computation ε ω σ α) : Prop :=
  Relates (fun s _ events s' => R s events s') m

/-- The relation holds, and the property of the last state if the computation succeeds. -/
abbrev Attains (R : σ → List ω → σ → Prop) (G : σ → Prop) (m : Computation ε ω σ α) : Prop :=
  Relates (fun s result events s' => R s events s' ∧ ∀ a, result = .ok a → G s') m

variable {R : σ → List ω → σ → Prop} {G H : σ → Prop}

theorem Attains.pure (hR : Lasting R) (hG : ∀ s, G s) (a : α) :
    Attains R G (Pure.pure a : Computation ε ω σ α) :=
  fun s => ⟨hR.refl s, fun _ _ => hG s⟩

theorem Attains.fail (hR : Lasting R) (e : ε) : Attains R G (fail e : Computation ε ω σ α) :=
  fun s => ⟨hR.refl s, fun _ h => by cases h⟩

theorem Attains.ite {c : Prop} [Decidable c] {n : Computation ε ω σ α} (hm : c → Attains R G m)
    (hn : ¬ c → Attains R G n) : Attains R G (if c then m else n) := by
  by_cases hc : c
  · rw [if_pos hc]
    exact hm hc
  · rw [if_neg hc]
    exact hn hc

theorem Attains.always (h : Attains R G m) : Always R m := fun s => (h s).1

theorem Attains.weaken (h : Attains R G m) (hGH : ∀ s, G s → H s) : Attains R H m :=
  fun s => ⟨(h s).1, fun a ha => hGH _ ((h s).2 a ha)⟩

theorem Attains.mapError {g : ε → ε} (h : Attains R G m) : Attains R G (Computation.mapError g m) := by
  intro s
  refine ⟨(h s).1, fun a ha => ?_⟩
  cases hresult : (m s).result with
  | ok b => exact (h s).2 b hresult
  | error e =>
    have hmap : (Computation.mapError g m s).result = (m s).result.mapError g := rfl
    rw [hmap, hresult] at ha
    cases ha

/-- What the first of two computations attains may be lost again. -/
theorem Attains.bind_last (hR : Lasting R) {f : α → Computation ε ω σ β} (hm : Always R m)
    (hf : ∀ a, Attains R G (f a)) : Attains R G (m >>= f) := by
  refine Relates.bind hm hf (fun s e events s' h => ⟨h, fun _ he => by cases he⟩) ?_
  intro s a events s' result events' s'' h h'
  exact ⟨hR.trans h h'.1, h'.2⟩

/-- What the first of two computations attains stays if the relation keeps it. -/
theorem Attains.bind (hR : Lasting R) (hkeep : ∀ {s events s'}, R s events s' → G s → G s')
    {f : α → Computation ε ω σ β} (hm : Attains R G m) (hf : ∀ a, Attains R H (f a)) :
    Attains R (fun s => G s ∧ H s) (m >>= f) := by
  refine Relates.bind hm hf (fun s e events s' h => ⟨h.1, fun _ he => by cases he⟩) ?_
  intro s a events s' result events' s'' h h'
  exact ⟨hR.trans h.1 h'.1, fun b hb => ⟨hkeep h'.1 (h.2 a rfl), h'.2 b hb⟩⟩

/-- What is attained for each element of a list stays. -/
theorem Attains.each (hR : Lasting R) {G : β → σ → Prop}
    (hkeep : ∀ {b s events s'}, R s events s' → G b s → G b s') {l : List β} {f : β → Computation ε ω σ Unit}
    (hf : ∀ b ∈ l, Attains R (G b) (f b)) : Attains R (fun s => ∀ b ∈ l, G b s) (Computation.each l f) := by
  induction l with
  | nil => exact .pure hR (fun s b hb => by simp at hb) ()
  | cons b l ih =>
    refine (Attains.bind hR hkeep (hf b (List.mem_cons_self ..))
      fun _ => ih fun b' hb' => hf b' (List.mem_cons_of_mem _ hb')).mono ?_
    rintro s result events s' ⟨hrel, hattained⟩
    refine ⟨hrel, fun a ha b' hb' => ?_⟩
    obtain ⟨hfirst, hrest⟩ := hattained a ha
    rcases List.mem_cons.1 hb' with rfl | hb'
    · exact hfirst
    · exact hrest b' hb'

end Computation

end FastEcu.Data
