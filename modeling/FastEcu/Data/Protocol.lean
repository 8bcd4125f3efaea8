import FastEcu.Data.History
import FastEcu.Data.Script

/-!
# Protocols

A protocol is a relation that says which event leads from one phase to another.  A computation keeps to
it when its events lead through the phases, whatever the calls answer.

* `Path` : events that lead from a phase to another.
* `Path.invariant`, `Path.each` : what every step keeps is kept by a path, with all that happened before.
* `Computation.Follows` : the computation keeps to the protocol.
-/

namespace FastEcu.Data

variable {S ω : Type} {step : S → ω → S → Prop}

/-- The events lead from a phase to another. -/
inductive Path (step : S → ω → S → Prop) : S → List ω → S → Prop
  | nil (p : S) : Path step p [] p
  | cons {p p' p'' : S} {e : ω} {l : List ω} (first : step p e p') (rest : Path step p' l p'') :
      Path step p (e :: l) p''

theorem Path.single {p p' : S} {e : ω} (h : step p e p') : Path step p [e] p' := .cons h (.nil p')

theorem Path.append {p p' p'' : S} {l l' : List ω} (h : Path step p l p') (h' : Path step p' l' p'') :
    Path step p (l ++ l') p'' := by
  induction h with
  | nil => exact h'
  | cons first _ ih => exact .cons first (ih h')

/-- What every step keeps, with all that happened before, is kept by a path. -/
theorem Path.invariant {I : List ω → S → Prop} {p p' : S} {l before : List ω} (h : Path step p l p')
    (hinit : I before p)
    (hstep : ∀ before e p q, I before p → step p e q → I (before ++ [e]) q) : I (before ++ l) p' := by
  induction h generalizing before with
  | nil =>
    rw [List.append_nil]
    exact hinit
  | @cons p p' p'' e l first rest ih =>
    have hrest := ih (hstep before e p p' hinit first)
    rwa [List.append_assoc] at hrest

/-- What the invariant gives of every step holds of every event of a path. -/
theorem Path.each {I : List ω → S → Prop} {P : List ω → ω → Prop} {p p' : S} {l : List ω}
    (h : Path step p l p') (hinit : I [] p)
    (hstep : ∀ before e p q, I before p → step p e q → I (before ++ [e]) q)
    (hallowed : ∀ before e p q, I before p → step p e q → P before e) : Each P l := by
  have hboth := @Path.invariant S ω step (fun before p => I before p ∧ Each P before) p p' l [] h
    ⟨hinit, .nil⟩ fun before e p q hbefore hpq =>
      ⟨hstep before e p q hbefore.1 hpq, hbefore.2.concat (hallowed before e p q hbefore.1 hpq)⟩
  exact hboth.2

namespace Computation

variable {ε σ ρ α β : Type} {P P' : S → Prop}

/-- From every phase with the property, the events lead to a phase that has the other one with the value
that the computation gives, if it gives one. -/
def Follows (step : S → ω → S → Prop) (P : S → Prop) (Q : α → S → Prop) (m : Computation ε ω σ α) :
    Prop :=
  ∀ p, P p → Meets (fun result events => ∃ q, Path step p events q ∧ ∀ a, result = .ok a → Q a q) m

namespace Follows

variable {Q : α → S → Prop} {m : Computation ε ω σ α}

theorem pure {a : α} (h : ∀ p, P p → Q a p) : Follows step P Q (pure a : Computation ε ω σ α) := by
  intro p hp
  refine Meets.pure ⟨p, .nil p, ?_⟩
  intro b hb
  cases hb
  exact h p hp

theorem fail (e : ε) : Follows step P Q (fail e : Computation ε ω σ α) :=
  fun p _ => Meets.fail ⟨p, .nil p, fun _ h => (nomatch h)⟩

theorem bind {R : β → S → Prop} {f : α → Computation ε ω σ β} (hm : Follows step P Q m)
    (hf : ∀ a, Follows step (Q a) R (f a)) : Follows step P R (m >>= f) := by
  intro p hp
  refine Meets.bind_of (hm p hp) ?_
  rintro (e | a) events ⟨q, hpath, hq⟩
  · exact .error ⟨q, hpath, fun _ h => (nomatch h)⟩
  · refine .ok (Meets.mono (hf a q (hq a rfl)) ?_)
    rintro result events' ⟨r, hpath', hr⟩
    exact ⟨r, hpath.append hpath', hr⟩

theorem mono {Q' : α → S → Prop} (h : Follows step P Q m) (hP : ∀ p, P' p → P p)
    (hQ : ∀ a p, Q a p → Q' a p) : Follows step P' Q' m := by
  intro p hp
  refine (h p (hP p hp)).mono ?_
  rintro result events ⟨q, hpath, hq⟩
  exact ⟨q, hpath, fun a ha => hQ a q (hq a ha)⟩

theorem ite {c : Prop} [Decidable c] {n : Computation ε ω σ α} (hm : c → Follows step P Q m)
    (hn : ¬ c → Follows step P Q n) : Follows step P Q (if c then m else n) := by
  by_cases hc : c
  · rw [if_pos hc]
    exact hm hc
  · rw [if_neg hc]
    exact hn hc

/-- A call that leaves one event. -/
theorem call [Inhabited ρ] {value : ρ → Except ε α} {event : ρ → ω}
    (h : ∀ p, P p → ∀ answer, ∃ q, step p (event answer) q ∧ ∀ a, value answer = .ok a → Q a q) :
    Follows step P Q (ask fun answer => (value answer, [event answer])) := by
  intro p hp
  refine Meets.ask fun answer => ?_
  obtain ⟨q, hstep, hq⟩ := h p hp answer
  exact ⟨q, .single hstep, hq⟩

/-- A call that leaves nothing. -/
theorem silent [Inhabited ρ] {value : ρ → Except ε α} (h : ∀ p, P p → ∀ a, Q a p) :
    Follows step P Q (ask fun answer => (value answer, [])) :=
  fun p hp => Meets.ask fun _ => ⟨p, .nil p, fun a _ => h p hp a⟩

/-- A loop over numbers, with what holds before each turn. -/
theorem each_range' {I : ℕ → S → Prop} {f : ℕ → Computation ε ω σ Unit} (start n : ℕ)
    (h : ∀ k, start ≤ k → k < start + n → Follows step (I k) (fun _ => I (k + 1)) (f k)) :
    Follows step (I start) (fun _ => I (start + n)) (each (List.range' start n) f) := by
  induction n generalizing start with
  | zero => exact .pure fun p hp => hp
  | succ n ih =>
    refine Follows.bind (h start (Nat.le_refl _) (by omega)) fun _ => ?_
    have hrest := ih (start + 1) fun k hk hlt => h k (by omega) (by omega)
    rwa [Nat.add_assoc, Nat.add_comm 1 n] at hrest

theorem each_range {I : ℕ → S → Prop} {f : ℕ → Computation ε ω σ Unit} (n : ℕ)
    (h : ∀ k < n, Follows step (I k) (fun _ => I (k + 1)) (f k)) :
    Follows step (I 0) (fun _ => I n) (each (List.range n) f) := by
  have hloop := each_range' 0 n fun k _ hlt => h k (by omega)
  rwa [Nat.zero_add, ← List.range_eq_range'] at hloop

/-- A computation that keeps to the protocol, from one phase on. -/
theorem run {p : S} (h : Follows step (· = p) Q m) (s : σ) :
    ∃ q, Path step p (m s).events q ∧ ∀ a, (m s).result = .ok a → Q a q := h p rfl s

end Follows

end Computation

end FastEcu.Data
