import FastEcu.Data.Pipes

/-!
# Transfers over pipes, and a process that is gone

* `Net.Reaches.transfer_right`, `Net.Reaches.transfer_left` : what one process writes the other reads.
* `Process.starve` : what a process ends with when nothing comes any more but what is in its pipe.
* `Process.Safe` : wherever on a given input that happens, the process ends well.
* `Net.Fragile`, `Process.Safe.fragile` : a safe process ends well even if the other one crashes.
-/

namespace FastEcu.Data

variable {B : Type} {α β : Type} {cap : ℕ+} {f : α → Process B (Loop α)} {g : β → Process B (Loop β)}

namespace Net

theorem Reaches.trans {s t u : Net B α β} (h : Reaches cap f g s t) (h' : Reaches cap f g t u) :
    Reaches cap f g s u := Relation.ReflTransGen.trans h h'

/-- What the left process writes the right one reads. -/
theorem Reaches.transfer_right (bytes got taken : List B) (i : Pipe B)
    (next : Bool → Process B (Loop α)) (next' : Option (List B) → Process B (Loop β)) :
    Reaches cap f g
      ⟨restart f (.sent bytes next), restart g (.received got bytes.length next'), ⟨taken, []⟩, i⟩
      ⟨restart f (next true), restart g (next' (some (got ++ bytes))), ⟨taken ++ bytes, []⟩, i⟩ := by
  induction bytes generalizing got taken with
  | nil =>
    rw [List.append_nil, List.append_nil]
    exact .refl
  | cons b bytes ih =>
    -- one byte is written and read, whatever the capacity
    have hput : Step cap f g
        ⟨.sending (b :: bytes) next, .receiving got (bytes.length + 1) next', ⟨taken, []⟩, i⟩
        ⟨restart f (.sent bytes next), .receiving got (bytes.length + 1) next', ⟨taken, [b]⟩, i⟩ :=
      .left (.put 1 Nat.one_pos (by simp) cap.pos trivial)
    have htake : Step cap f g
        ⟨restart f (.sent bytes next), .receiving got (bytes.length + 1) next', ⟨taken, [b]⟩, i⟩
        ⟨restart f (.sent bytes next), restart g (.received (got ++ [b]) bytes.length next'),
          ⟨taken ++ [b], []⟩, i⟩ :=
      .right (.take 1 Nat.one_pos (by omega) (by simp))
    have hrest := ih (got ++ [b]) (taken ++ [b])
    rw [List.append_assoc, List.append_assoc, List.singleton_append] at hrest
    exact .head hput (.head htake hrest)

/-- What the right process writes the left one reads. -/
theorem Reaches.transfer_left (bytes got taken : List B) (i : Pipe B)
    (next : Bool → Process B (Loop β)) (next' : Option (List B) → Process B (Loop α)) :
    Reaches cap f g
      ⟨restart f (.received got bytes.length next'), restart g (.sent bytes next), i, ⟨taken, []⟩⟩
      ⟨restart f (next' (some (got ++ bytes))), restart g (next true), i, ⟨taken ++ bytes, []⟩⟩ :=
  (@transfer_right B β α cap g f bytes got taken i next next').swap

end Net

namespace Process

/-- What a process ends with when its writes fail and it can read only what is in its pipe. -/
def starve : Process B α → List B → α
  | done a, _ => a
  | sending _ next, queued => (next false).starve queued
  | receiving got missing next, queued =>
    if missing ≤ queued.length then (next (some (got ++ queued.take missing))).starve (queued.drop missing)
    else (next none).starve []

/-- The process ends well on this input, and also when the input ends early or a write fails. -/
def Safe (good : α → Prop) : Process B α → List B → Prop
  | done a, _ => good a
  | sending _ next, input => (next true).Safe good input ∧ ∀ queued, queued <+: input →
      good ((next false).starve queued)
  | receiving got missing next, input =>
    (missing ≤ input.length → (next (some (got ++ input.take missing))).Safe good (input.drop missing)) ∧
      good ((next none).starve [])

variable {good : α → Prop} {p q : Process B α} {input queued : List B} {attended : Prop}
  {i i' o o' : Pipe B}

theorem Safe.sent {left : List B} {next : Bool → Process B α} (hnext : (next true).Safe good input)
    (hstop : ∀ queued, queued <+: input → good ((next false).starve queued)) :
    (Process.sent left next).Safe good input := by
  by_cases hnil : left = []
  · rw [hnil, sent_nil]
    exact hnext
  · rw [sent_of_ne hnil]
    exact ⟨hnext, hstop⟩

theorem Safe.received {bytes rest got : List B} {missing : ℕ} {next : Option (List B) → Process B α}
    (hlength : bytes.length = missing) (hnext : (next (some (got ++ bytes))).Safe good rest)
    (hstop : good ((next none).starve [])) : (Process.received got missing next).Safe good (bytes ++ rest) := by
  by_cases hzero : missing = 0
  · rw [hzero, List.length_eq_zero_iff] at hlength
    rw [hzero, received_zero, hlength, List.nil_append]
    rwa [hlength, List.append_nil] at hnext
  · rw [received_of_ne hzero]
    refine ⟨fun _ => ?_, hstop⟩
    rwa [List.take_left' hlength, List.drop_left' hlength]

/-- A process that ends alike whether its write succeeds or not. -/
theorem starve_sent_done (left : List B) (a : α) (queued : List B) :
    (Process.sent left fun _ => done a).starve queued = a := by
  by_cases hnil : left = []
  · rw [hnil]
    rfl
  · rw [sent_of_ne hnil]
    rfl

/-- A safe process that reads only a part of its input ends well. -/
theorem Safe.starve (h : p.Safe good input) (hpart : queued <+: input) : good (p.starve queued) := by
  induction p generalizing input queued with
  | done a => exact h
  | sending left next ih => exact h.2 queued hpart
  | receiving got missing next ih =>
    rw [Process.starve]
    by_cases hle : missing ≤ queued.length
    · rw [if_pos hle]
      obtain ⟨rest, rfl⟩ := hpart
      have hnext := h.1 (by rw [List.length_append]; omega)
      rw [List.take_append_of_le_length hle, List.drop_append_of_le_length hle] at hnext
      exact ih _ hnext (List.prefix_append _ _)
    · rw [if_neg hle]
      exact h.2

/-- A safe process stays safe on the rest of its input. -/
theorem Safe.act (h : p.Safe good input) (hpart : i.queued <+: input)
    (act : Act cap attended p i o q i' o') :
    ∃ rest, q.Safe good rest ∧ i'.taken ++ rest = i.taken ++ input := by
  cases act with
  | @put left next _ _ n pos le room _ =>
    refine ⟨input, ?_, rfl⟩
    by_cases hnil : left.drop n = []
    · rw [hnil, sent_nil]
      exact h.1
    · rw [sent_of_ne hnil]
      exact h
  | @take got missing next _ _ n pos le there =>
    obtain ⟨rest, rfl⟩ := hpart
    refine ⟨i.queued.drop n ++ rest, ?_, ?_⟩
    · have htake : ∀ m, (i.queued ++ rest).take (n + m) =
          i.queued.take n ++ (i.queued.drop n ++ rest).take m := by
        intro m
        rw [List.take_add, List.take_append_of_le_length there, List.drop_append_of_le_length there]
      have hdrop : ∀ m, (i.queued ++ rest).drop (n + m) = (i.queued.drop n ++ rest).drop m := by
        intro m
        rw [← List.drop_drop, List.drop_append_of_le_length there]
      obtain ⟨m, rfl⟩ := Nat.exists_eq_add_of_le le
      rw [Nat.add_sub_cancel_left]
      rw [Process.Safe, htake, hdrop, ← List.append_assoc] at h
      have hlength : m ≤ (i.queued.drop n ++ rest).length → n + m ≤ (i.queued ++ rest).length := by
        simp only [List.length_append, List.length_drop]
        omega
      by_cases hzero : m = 0
      · subst hzero
        rw [received_zero]
        simpa using h.1 (hlength (Nat.zero_le _))
      · rw [received_of_ne hzero]
        exact ⟨fun hle => h.1 (hlength hle), h.2⟩
    · simp only [Pipe.take]
      rw [List.append_assoc, ← List.append_assoc (i.queued.take n), List.take_append_drop]

theorem Safe.restart {good : Loop α → Prop} {p : Process B (Loop α)} (hagain : ∀ a, ¬ good (.again a))
    (h : p.Safe good input) : restart f p = p := by
  cases p with
  | done l =>
    cases l with
    | again a => exact absurd h (hagain a)
    | exit a => rfl
  | sending left next => rfl
  | receiving got missing next => rfl

/-- Reading what is in the pipe changes nothing about the end. -/
theorem starve_act (hgone : ¬ attended) (act : Act cap attended p i o q i' o') :
    q.starve i'.queued = p.starve i.queued := by
  cases act with
  | put n pos le room reader => exact absurd reader hgone
  | @take got missing next _ _ n pos le there =>
    obtain ⟨m, rfl⟩ := Nat.exists_eq_add_of_le le
    have hle : n + m ≤ i.queued.length ↔ m ≤ (i.queued.drop n).length := by
      rw [List.length_drop]
      omega
    rw [Process.starve, Nat.add_sub_cancel_left, List.take_add, ← List.drop_drop, ← List.append_assoc]
    simp only [Pipe.take, hle]
    by_cases hzero : m = 0
    · subst hzero
      simp
    · rw [received_of_ne hzero, Process.starve]

theorem starve_givesUp (call : GivesUp p i q) : q.starve i.queued = p.starve i.queued := by
  cases call with
  | broken _ => rfl
  | @ended got missing next _ some empty =>
    rw [Process.starve, if_neg, empty]
    rw [empty, List.length_nil]
    omega

end Process

/-! ### Crashes -/

namespace Net

variable (cap f g)

/-- A call, or the end of the right process wherever it is. -/
inductive Fragile : Net B α β → Net B α β → Prop
  | live {s t : Net B α β} (step : Live cap f g s t) : Fragile s t
  | crash (s : Net B α β) (b : β) : Fragile s ⟨s.left, .done (.exit b), s.toRight, s.toLeft⟩

end Net

section Crashes

open Net Process

variable {good : Loop α → Prop} {s t z : Net B α β} {input : List B}

/-- What is still in the pipe of the left process begins what it is going to read. -/
theorem Net.Reaches.queued_prefix (h : Reaches cap f g s z) (hinput : s.toLeft.taken ++ input = z.toLeft.history) :
    s.toLeft.queued <+: input := by
  have hpart := h.grows.2.1
  rwa [← hinput, Pipe.history, List.prefix_append_right_inj] at hpart

theorem Net.not_open_exit (b : β) : ¬ (Process.done (.exit b) : Process B (Loop β)).Open := fun h => h b rfl

theorem Net.not_act_of_gone {p p' : Process B (Loop α)} {i i' o o' : Pipe B} {attended : Prop}
    (hgone : ¬ p.Open) : ¬ Act cap attended p i o p' i' o' := by
  intro act
  refine hgone ?_
  rintro a rfl
  cases act

theorem Net.not_givesUp_of_gone {p p' : Process B (Loop α)} {i : Pipe B} (hgone : ¬ p.Open) :
    ¬ GivesUp p i p' := by
  intro call
  refine hgone ?_
  rintro a rfl
  cases call

/-- The left process is safe on what it is going to read, or the right one is gone. -/
def Sheltered (cap : ℕ+) (f : α → Process B (Loop α)) (g : β → Process B (Loop β)) (good : Loop α → Prop)
    (z s : Net B α β) : Prop :=
  (Reaches cap f g s z ∧ ∃ input, s.left.Safe good input ∧ s.toLeft.taken ++ input = z.toLeft.history) ∨
    (¬ s.right.Open ∧ good (s.left.starve s.toLeft.queued))

theorem restart_of_starve {p : Process B (Loop α)} {queued : List B} (hagain : ∀ a, ¬ good (.again a))
    (h : good (p.starve queued)) : restart f p = p := by
  cases p with
  | done l =>
    cases l with
    | again a => exact absurd h (hagain a)
    | exit a => rfl
  | sending left next => rfl
  | receiving got missing next => rfl

theorem Sheltered.step (hz : Over z) (hagain : ∀ a, ¬ good (.again a)) (h : Sheltered cap f g good z s)
    (hstep : Fragile cap f g s t) : Sheltered cap f g good z t := by
  rcases h with ⟨hreach, input, hsafe, hinput⟩ | ⟨hgone, hgood⟩
  · have hpart := hreach.queued_prefix hinput
    cases hstep with
    | crash b => exact .inr ⟨not_open_exit b, hsafe.starve hpart⟩
    | live step =>
      have hstep := (hreach.live_iff hz).1 step
      refine .inl ⟨hreach.to_over hz (.single hstep), ?_⟩
      cases hstep with
      | left act =>
        obtain ⟨rest, hrest, htaken⟩ := hsafe.act hpart act
        exact ⟨rest, by rwa [hrest.restart hagain], htaken.trans hinput⟩
      | right act =>
        obtain ⟨-, -, htaken, -, -⟩ := act.history
        refine ⟨input, hsafe, ?_⟩
        rw [htaken]
        exact hinput
  · cases hstep with
    | crash b => exact .inr ⟨not_open_exit b, hgood⟩
    | live step =>
      cases step with
      | left act =>
        have heq := starve_act hgone act
        rw [← heq] at hgood
        exact .inr ⟨hgone, by rwa [restart_of_starve hagain hgood]⟩
      | right act => exact absurd act (not_act_of_gone hgone)
      | leftAlone alone call =>
        have heq := starve_givesUp call
        rw [← heq] at hgood
        exact .inr ⟨hgone, by rwa [restart_of_starve hagain hgood]⟩
      | rightAlone alone call => exact absurd call (not_givesUp_of_gone hgone)

/-- A process that is safe on what it would read ends well, wherever the other process crashes. -/
theorem Process.Safe.fragile (hz : Over z) (hreach : Reaches cap f g s z) (hagain : ∀ a, ¬ good (.again a))
    (hsafe : s.left.Safe good input) (hinput : s.toLeft.taken ++ input = z.toLeft.history)
    (ht : Relation.ReflTransGen (Fragile cap f g) s t) {l : Loop α} (hdone : t.left = .done l) : good l := by
  have hsheltered : Sheltered cap f g good z t := by
    clear hdone
    induction ht with
    | refl => exact .inl ⟨hreach, input, hsafe, hinput⟩
    | tail _ hstep ih => exact Sheltered.step hz hagain ih hstep
  rcases hsheltered with ⟨-, _, hsafe, -⟩ | ⟨-, hgood⟩
  · rw [hdone] at hsafe
    exact hsafe
  · rw [hdone] at hgood
    exact hgood

end Crashes

end FastEcu.Data
