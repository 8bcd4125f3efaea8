import Mathlib.Data.List.Basic
import Mathlib.Data.PNat.Defs
import Mathlib.Logic.Relation

/-!
# Two processes on two pipes

A process writes all of a sequence, or reads until it has as many bytes as it wants; a call moves as many
bytes as the pipe lets it, so one write or read takes any number of calls.  Two processes are joined by two
pipes of a bounded capacity and run in any order.

* `Process` : what a process does; `Process.send`, `Process.receive` : the loops over the calls.
* `Act` : one call of a process.
* `Net` : two processes, each started again when it asks for it, and their pipes.
* `Net.Step` : one call of one of the two, as if the other were always there.
* `Net.Step.confluent` : in whatever order and portions the bytes move, what was reachable stays reachable.
* `Net.Ends` : from a state on, every run comes to an end, and always the same one.
-/

namespace FastEcu.Data

variable {B : Type} {α β : Type}

/-- What a process does on its two pipes, and what it ends with. -/
inductive Process (B α : Type) : Type
  | done (a : α)
  | sending (left : List B) (next : Bool → Process B α)
  | receiving (got : List B) (missing : ℕ) (next : Option (List B) → Process B α)

namespace Process

/-- One process after the other. -/
def andThen : Process B α → (α → Process B β) → Process B β
  | done a, f => f a
  | sending left next, f => sending left fun sent => (next sent).andThen f
  | receiving got missing next, f => receiving got missing fun bytes => (next bytes).andThen f

instance : Monad (Process B) where
  pure := done
  bind := andThen

/-- A write with these bytes left. -/
def sent (left : List B) (next : Bool → Process B α) : Process B α :=
  if left = [] then next true else sending left next

/-- A read with these bytes so far. -/
def received (got : List B) (missing : ℕ) (next : Option (List B) → Process B α) : Process B α :=
  if missing = 0 then next (some got) else receiving got missing next

/-- Every byte is written. -/
def send (bytes : List B) : Process B Bool := sent bytes done

/-- So many bytes are read. -/
def receive (size : ℕ) : Process B (Option (List B)) := received [] size done

variable {left got : List B} {missing : ℕ} {next : Bool → Process B α}
  {next' : Option (List B) → Process B α}

@[simp]
theorem sent_nil : sent [] next = next true := rfl

theorem sent_of_ne (h : left ≠ []) : sent left next = sending left next := if_neg h

@[simp]
theorem received_zero : received got 0 next' = next' (some got) := rfl

theorem received_of_ne (h : missing ≠ 0) : received got missing next' = receiving got missing next' :=
  if_neg h

theorem send_bind (bytes : List B) (f : Bool → Process B α) : (send bytes >>= f) = sent bytes f := by
  cases bytes with
  | nil => rfl
  | cons b bytes => rfl

theorem receive_bind (size : ℕ) (f : Option (List B) → Process B α) :
    (receive size >>= f) = received [] size f := by
  cases size with
  | zero => rfl
  | succ size => rfl

theorem bind_assoc' {γ : Type} (m : Process B α) (f : α → Process B β) (g : β → Process B γ) :
    (m >>= f) >>= g = m >>= fun a => f a >>= g := by
  change (m.andThen f).andThen g = m.andThen fun a => (f a).andThen g
  induction m with
  | done a => rfl
  | sending left next ih => simp only [andThen, ih]
  | receiving got missing next ih => simp only [andThen, ih]

end Process

/-- What a process that may be started again ends with. -/
inductive Loop (α : Type) : Type
  | again (a : α)
  | exit (a : α)

/-- A pipe: what its reader has taken so far, and what is in it. -/
structure Pipe (B : Type) : Type where
  taken : List B := []
  queued : List B := []

namespace Pipe

/-- All that was ever written. -/
def history (p : Pipe B) : List B := p.taken ++ p.queued

def put (p : Pipe B) (bytes : List B) : Pipe B := { p with queued := p.queued ++ bytes }

def take (p : Pipe B) (n : ℕ) : Pipe B := ⟨p.taken ++ p.queued.take n, p.queued.drop n⟩

@[simp]
theorem history_put (p : Pipe B) (bytes : List B) : (p.put bytes).history = p.history ++ bytes := by
  simp [history, put]

@[simp]
theorem history_take (p : Pipe B) (n : ℕ) : (p.take n).history = p.history := by
  simp [history, take]

theorem take_put {p : Pipe B} {n : ℕ} (h : n ≤ p.queued.length) (bytes : List B) :
    (p.put bytes).take n = (p.take n).put bytes := by
  simp [take, put, List.take_append_of_le_length h, List.drop_append_of_le_length h]

theorem put_put (p : Pipe B) (bytes more : List B) : (p.put bytes).put more = p.put (bytes ++ more) := by
  simp [put]

theorem take_take (p : Pipe B) (n m : ℕ) : (p.take n).take m = p.take (n + m) := by
  simp [take, List.take_add, List.drop_drop]

end Pipe

/-- One call of a process, on the pipe that it reads and the pipe that it writes.  A write needs room, and a
reader at the other end. -/
inductive Act (cap : ℕ+) (attended : Prop) :
    Process B α → Pipe B → Pipe B → Process B α → Pipe B → Pipe B → Prop
  | put {left : List B} {next : Bool → Process B α} {i o : Pipe B} (n : ℕ) (pos : 0 < n)
      (le : n ≤ left.length) (room : o.queued.length + n ≤ cap) (reader : attended) :
      Act cap attended (.sending left next) i o (.sent (left.drop n) next) i (o.put (left.take n))
  | take {got : List B} {missing : ℕ} {next : Option (List B) → Process B α} {i o : Pipe B} (n : ℕ)
      (pos : 0 < n) (le : n ≤ missing) (there : n ≤ i.queued.length) :
      Act cap attended (.receiving got missing next) i o
        (.received (got ++ i.queued.take n) (missing - n) next) (i.take n) o

namespace Act

variable {cap : ℕ+} {attended : Prop} {p q r : Process B α} {i i' i'' o o' o'' : Pipe B}

theorem attend (h : Act cap attended p i o q i' o') : Act cap True p i o q i' o' := by
  cases h with
  | put n pos le room _ => exact .put n pos le room trivial
  | take n pos le there => exact .take n pos le there

/-- Whatever the first of two calls moved less than the second, one more call moves it. -/
theorem extend (h : Act cap attended p i o q i' o') (h' : Act cap attended p i o r i'' o'') :
    (q, i', o') = (r, i'', o'') ∨ Act cap attended q i' o' r i'' o'' ∨ Act cap attended r i'' o'' q i' o' := by
  -- both calls do the same thing with `n` and `m` bytes
  have hput : ∀ {left : List B} {next : Bool → Process B α} {o : Pipe B} {n m : ℕ}, n < m →
      m ≤ left.length → o.queued.length + m ≤ cap → attended →
      Act cap attended (.sent (left.drop n) next) i (o.put (left.take n)) (.sent (left.drop m) next) i
        (o.put (left.take m)) := by
    intro left next o n m hlt hle hroom hreader
    obtain ⟨k, rfl⟩ := Nat.exists_eq_add_of_lt hlt
    have hne : left.drop n ≠ [] := by
      intro hnil
      have := congrArg List.length hnil
      simp at this
      omega
    have hact := @Act.put B α cap attended (left.drop n) next i (o.put (left.take n)) (k + 1)
      (by omega) (by simp; omega) (by simp [Pipe.put]; omega) hreader
    rwa [List.drop_drop, Pipe.put_put, ← List.take_add, ← Nat.add_assoc, ← Process.sent_of_ne hne] at hact
  have htake : ∀ {got : List B} {missing : ℕ} {next : Option (List B) → Process B α} {i : Pipe B} {n m : ℕ},
      n < m → m ≤ missing → m ≤ i.queued.length →
      Act cap attended (.received (got ++ i.queued.take n) (missing - n) next) (i.take n) o
        (.received (got ++ i.queued.take m) (missing - m) next) (i.take m) o := by
    intro got missing next i n m hlt hle hthere
    obtain ⟨k, rfl⟩ := Nat.exists_eq_add_of_lt hlt
    have hact := @Act.take B α cap attended (got ++ i.queued.take n) (missing - n) next (i.take n) o (k + 1)
      (by omega) (by omega) (by simp [Pipe.take]; omega)
    have hbytes : (i.take n).queued.take (k + 1) = (i.queued.drop n).take (k + 1) := rfl
    rwa [hbytes, List.append_assoc, ← List.take_add, Pipe.take_take, Nat.sub_sub, ← Nat.add_assoc,
      ← Process.received_of_ne (by omega)] at hact
  cases h with
  | put n pos le room reader =>
    cases h' with
    | put m pos' le' room' _ =>
      rcases Nat.lt_trichotomy n m with hlt | rfl | hlt
      · exact .inr (.inl (hput hlt le' room' reader))
      · exact .inl rfl
      · exact .inr (.inr (hput hlt le room reader))
  | take n pos le there =>
    cases h' with
    | take m pos' le' there' =>
      rcases Nat.lt_trichotomy n m with hlt | rfl | hlt
      · exact .inr (.inl (htake hlt le' there'))
      · exact .inl rfl
      · exact .inr (.inr (htake hlt le there))

/-- Calls at the two ends of the pipes commute. -/
theorem commute {q' p' : Process B β} (h : Act cap True p i o q i' o') {j j' : Pipe B}
    (h' : Act cap True p' o i q' j' j) :
    ∃ i₃ o₃, Act cap True p' o' i' q' o₃ i₃ ∧ Act cap True p j j' q i₃ o₃ := by
  -- the bytes that are taken stand before the ones that are put
  have hqueued : ∀ {bytes : List B} {pipe : Pipe B} {n : ℕ}, n ≤ pipe.queued.length →
      (pipe.put bytes).queued.take n = pipe.queued.take n := List.take_append_of_le_length
  cases h with
  | @put left _ _ _ n pos le room _ =>
    cases h' with
    | put m pos' le' room' _ =>
      exact ⟨_, _, .put m pos' le' room' trivial, .put n pos le room trivial⟩
    | @take got missing next _ _ m pos' le' there =>
      have hact := @Act.take B β cap True got missing next (o.put (left.take n)) i m pos' le'
        (by simp [Pipe.put]; omega)
      rw [hqueued there, Pipe.take_put there] at hact
      exact ⟨_, _, hact, .put n pos le (by simp [Pipe.take]; omega) trivial⟩
  | @take got missing next _ _ n pos le there =>
    cases h' with
    | @put left _ _ _ m pos' le' room' _ =>
      have hact := @Act.take B α cap True got missing next (i.put (left.take m)) o n pos le
        (by simp [Pipe.put]; omega)
      rw [hqueued there, Pipe.take_put there] at hact
      exact ⟨_, _, .put m pos' le' (by simp [Pipe.take]; omega) trivial, hact⟩
    | take m pos' le' there' =>
      exact ⟨_, _, .take m pos' le' there', .take n pos le there⟩

/-- What a call writes is appended and what it reads is kept. -/
theorem history (h : Act cap attended p i o q i' o') :
    i'.history = i.history ∧ i.taken <+: i'.taken ∧ o'.taken = o.taken ∧ o.history <+: o'.history ∧
      i.taken.length + o.history.length < i'.taken.length + o'.history.length := by
  cases h with
  | put n pos le room _ =>
    refine ⟨rfl, List.prefix_rfl, rfl, ?_, ?_⟩
    · rw [Pipe.history_put]
      exact List.prefix_append _ _
    · rw [Pipe.history_put, List.length_append, List.length_take]
      omega
  | take n pos le there =>
    refine ⟨Pipe.history_take i n, List.prefix_append _ _, rfl, List.prefix_rfl, ?_⟩
    simp only [Pipe.take, List.length_append, List.length_take]
    omega

end Act

/-- A process that asks for it is started again. -/
def restart (body : α → Process B (Loop α)) : Process B (Loop α) → Process B (Loop α)
  | .done (.again a) => body a
  | p => p

/-- Two processes and the pipes between them. -/
@[ext]
structure Net (B α β : Type) : Type where
  left : Process B (Loop α)
  right : Process B (Loop β)
  toRight : Pipe B := {}
  toLeft : Pipe B := {}

namespace Net

/-- The two processes seen from the other side. -/
def swap (s : Net B α β) : Net B β α := ⟨s.right, s.left, s.toLeft, s.toRight⟩

variable (cap : ℕ+) (f : α → Process B (Loop α)) (g : β → Process B (Loop β))

/-- One call of one of the processes. -/
inductive Step : Net B α β → Net B α β → Prop
  | left {s : Net B α β} {p : Process B (Loop α)} {i o : Pipe B}
      (act : Act cap True s.left s.toLeft s.toRight p i o) : Step s ⟨restart f p, s.right, o, i⟩
  | right {s : Net B α β} {p : Process B (Loop β)} {i o : Pipe B}
      (act : Act cap True s.right s.toRight s.toLeft p i o) : Step s ⟨s.left, restart g p, i, o⟩

/-- What calls lead to. -/
def Reaches : Net B α β → Net B α β → Prop := Relation.ReflTransGen (Step cap f g)

variable {cap f g} {s t z : Net B α β}

theorem Step.swap (h : Step cap f g s t) : Step cap g f s.swap t.swap := by
  cases h with
  | left act => exact @Step.right B β α cap g f s.swap _ _ _ act
  | right act => exact @Step.left B β α cap g f s.swap _ _ _ act

theorem Reaches.swap (h : Reaches cap f g s t) : Reaches cap g f s.swap t.swap :=
  h.lift Net.swap fun _ _ h => h.swap

/-- Two calls of one process lead to one state with at most one more call. -/
theorem Step.join_left {p q : Process B (Loop α)} {i i' o o' : Pipe B}
    (hp : Act cap True s.left s.toLeft s.toRight p i o)
    (hq : Act cap True s.left s.toLeft s.toRight q i' o') :
    ∃ t, Relation.ReflGen (Step cap f g) ⟨restart f p, s.right, o, i⟩ t ∧
      Relation.ReflGen (Step cap f g) ⟨restart f q, s.right, o', i'⟩ t := by
  -- a process that acts has not ended
  have hrun : ∀ {p q : Process B (Loop α)} {i o i' o' : Pipe B}, Act cap True p i o q i' o' →
      Step cap f g ⟨restart f p, s.right, o, i⟩ ⟨restart f q, s.right, o', i'⟩ := by
    intro p q i o i' o' h
    have hp : restart f p = p := by cases h <;> rfl
    rw [hp]
    exact @Step.left B α β cap f g ⟨p, s.right, o, i⟩ q i' o' h
  rcases hp.extend hq with heq | hact | hact
  · obtain ⟨rfl, rfl, rfl⟩ := Prod.mk.injEq .. ▸ heq
    exact ⟨_, .refl, .refl⟩
  · exact ⟨_, .single (hrun hact), .refl⟩
  · exact ⟨_, .refl, .single (hrun hact)⟩

/-- Two calls lead to one state with at most one more call each. -/
theorem Step.join {s' : Net B α β} (h : Step cap f g s t) (h' : Step cap f g s s') :
    ∃ u, Relation.ReflGen (Step cap f g) t u ∧ Relation.ReflGen (Step cap f g) s' u := by
  cases h with
  | left act =>
    cases h' with
    | left act' => exact join_left act act'
    | right act' =>
      obtain ⟨i, o, hright, hleft⟩ := act.commute act'
      exact ⟨_, .single (@Step.right B α β cap f g ⟨_, s.right, _, _⟩ _ _ _ hright),
        .single (@Step.left B α β cap f g ⟨s.left, _, _, _⟩ _ _ _ hleft)⟩
  | right act =>
    cases h' with
    | left act' =>
      obtain ⟨i, o, hright, hleft⟩ := act'.commute act
      exact ⟨_, .single (@Step.left B α β cap f g ⟨s.left, _, _, _⟩ _ _ _ hleft),
        .single (@Step.right B α β cap f g ⟨_, s.right, _, _⟩ _ _ _ hright)⟩
    | right act' =>
      obtain ⟨u, hu, hu'⟩ := @join_left B β α cap g f s.swap _ _ _ _ _ _ act act'
      refine ⟨u.swap, ?_, ?_⟩
      · cases hu with
        | refl => exact .refl
        | single hstep => exact .single hstep.swap
      · cases hu' with
        | refl => exact .refl
        | single hstep => exact .single hstep.swap

/-- What is reachable in one way stays reachable in every other. -/
theorem Step.confluent {s' : Net B α β} (h : Reaches cap f g s t) (h' : Reaches cap f g s s') :
    ∃ u, Reaches cap f g t u ∧ Reaches cap f g s' u := by
  refine Relation.church_rosser (fun a b c hb hc => ?_) h h'
  obtain ⟨d, hd, hd'⟩ := hb.join hc
  exact ⟨d, hd, hd'.to_reflTransGen⟩

/-- Both processes have ended and nothing is left in the pipes. -/
structure Over (z : Net B α β) : Prop where
  left : ∃ a, z.left = .done (.exit a)
  right : ∃ b, z.right = .done (.exit b)
  toRight : z.toRight.queued = []
  toLeft : z.toLeft.queued = []

theorem Over.swap (h : Over z) : Over z.swap := ⟨h.right, h.left, h.toLeft, h.toRight⟩

theorem Over.stuck (h : Over z) : ¬ Step cap f g z t := by
  obtain ⟨a, ha⟩ := h.left
  obtain ⟨b, hb⟩ := h.right
  rintro (act | act)
  · rw [ha] at act
    cases act
  · rw [hb] at act
    cases act

/-- An end that can be reached can be reached from everywhere. -/
theorem Reaches.to_over (hz : Over z) (h : Reaches cap f g s z) (ht : Reaches cap f g s t) :
    Reaches cap f g t z := by
  obtain ⟨u, hu, hu'⟩ := Step.confluent ht h
  rcases Relation.ReflTransGen.cases_head hu' with rfl | ⟨v, hv, -⟩
  · exact hu
  · exact absurd hv hz.stuck

/-- The bytes that were written, and the bytes that were read. -/
def moved (s : Net B α β) : ℕ :=
  s.toRight.history.length + s.toRight.taken.length + (s.toLeft.history.length + s.toLeft.taken.length)

/-- A call moves bytes, and leaves what was written before. -/
theorem Step.grows (h : Step cap f g s t) :
    s.toRight.history <+: t.toRight.history ∧ s.toLeft.history <+: t.toLeft.history ∧
      s.moved < t.moved := by
  cases h with
  | left act =>
    obtain ⟨hread, -, htaken, hwritten, hlt⟩ := act.history
    refine ⟨hwritten, hread ▸ List.prefix_rfl, ?_⟩
    simp only [moved, hread, htaken]
    omega
  | right act =>
    obtain ⟨hread, -, htaken, hwritten, hlt⟩ := act.history
    refine ⟨hread ▸ List.prefix_rfl, hwritten, ?_⟩
    simp only [moved, hread, htaken]
    omega

theorem Reaches.grows (h : Reaches cap f g s t) :
    s.toRight.history <+: t.toRight.history ∧ s.toLeft.history <+: t.toLeft.history ∧
      s.moved ≤ t.moved := by
  induction h with
  | refl => exact ⟨List.prefix_rfl, List.prefix_rfl, Nat.le_refl _⟩
  | tail _ hstep ih =>
    obtain ⟨hright, hleft, hlt⟩ := hstep.grows
    exact ⟨ih.1.trans hright, ih.2.1.trans hleft, ih.2.2.trans hlt.le⟩

end Net

/-! ### Ends of pipes that are closed -/

/-- A process that has not ended still holds its ends of the pipes. -/
def Process.Open (p : Process B (Loop α)) : Prop := ∀ a, p ≠ .done (.exit a)

/-- A call that fails since the other process is gone. -/
inductive GivesUp : Process B α → Pipe B → Process B α → Prop
  | broken {left : List B} {next : Bool → Process B α} {i : Pipe B} (some : left ≠ []) :
      GivesUp (.sending left next) i (next false)
  | ended {got : List B} {missing : ℕ} {next : Option (List B) → Process B α} {i : Pipe B}
      (some : missing ≠ 0) (empty : i.queued = []) : GivesUp (.receiving got missing next) i (next none)

namespace Net

variable (cap : ℕ+) (f : α → Process B (Loop α)) (g : β → Process B (Loop β))

/-- One call of one of the processes, which fails when it has to wait for a process that is gone. -/
inductive Live : Net B α β → Net B α β → Prop
  | left {s : Net B α β} {p : Process B (Loop α)} {i o : Pipe B}
      (act : Act cap s.right.Open s.left s.toLeft s.toRight p i o) : Live s ⟨restart f p, s.right, o, i⟩
  | right {s : Net B α β} {p : Process B (Loop β)} {i o : Pipe B}
      (act : Act cap s.left.Open s.right s.toRight s.toLeft p i o) : Live s ⟨s.left, restart g p, i, o⟩
  | leftAlone {s : Net B α β} {p : Process B (Loop α)} (alone : ¬ s.right.Open)
      (call : GivesUp s.left s.toLeft p) : Live s ⟨restart f p, s.right, s.toRight, s.toLeft⟩
  | rightAlone {s : Net B α β} {p : Process B (Loop β)} (alone : ¬ s.left.Open)
      (call : GivesUp s.right s.toRight p) : Live s ⟨s.left, restart g p, s.toRight, s.toLeft⟩

/-- From `s` on, the end `z` can be reached from wherever a run has led, no run goes on for ever, and none
stops elsewhere. -/
structure Ends (s z : Net B α β) : Prop where
  reachable : ∀ t, Relation.ReflTransGen (Live cap f g) s t → Relation.ReflTransGen (Live cap f g) t z
  terminates : ∀ t, Relation.ReflTransGen (Live cap f g) s t → Acc (fun b a => Live cap f g a b) t
  unique : ∀ t, Relation.ReflTransGen (Live cap f g) s t → (∀ u, ¬ Live cap f g t u) → t = z

variable {cap f g} {s t z : Net B α β}

theorem Live.swap (h : Live cap f g s t) : Live cap g f s.swap t.swap := by
  cases h with
  | left act => exact @Live.right B β α cap g f s.swap _ _ _ act
  | right act => exact @Live.left B β α cap g f s.swap _ _ _ act
  | leftAlone alone call => exact @Live.rightAlone B β α cap g f s.swap _ alone call
  | rightAlone alone call => exact @Live.leftAlone B β α cap g f s.swap _ alone call

/-- What a process that is gone has read is all that it will have read. -/
theorem Reaches.taken_eq (h : Reaches cap f g s t) (hgone : ¬ s.right.Open) :
    t.right = s.right ∧ t.toRight.taken = s.toRight.taken := by
  induction h with
  | refl => exact ⟨rfl, rfl⟩
  | @tail t u _ hstep ih =>
    obtain ⟨hright, htaken⟩ := ih
    cases hstep with
    | left act =>
      obtain ⟨-, -, htaken', -, -⟩ := act.history
      exact ⟨hright, htaken'.trans htaken⟩
    | right act =>
      rw [hright] at act
      refine absurd ?_ hgone
      rintro b hb
      rw [hb] at act
      cases act

/-- Before the end, nothing is written to a process that is gone, and nobody waits for it. -/
theorem Reaches.left_attended (hz : Over z) (h : Reaches cap f g s z) {p : Process B (Loop α)}
    {i o : Pipe B} (act : Act cap True s.left s.toLeft s.toRight p i o) :
    Act cap s.right.Open s.left s.toLeft s.toRight p i o := by
  have hafter : Reaches cap f g ⟨restart f p, s.right, o, i⟩ z := h.to_over hz (.single (.left act))
  cases hleft : s.left with
  | done a =>
    rw [hleft] at act
    cases act
  | receiving got missing next =>
    rw [hleft] at act
    cases act with
    | take n pos le there => exact .take n pos le there
  | sending left next =>
    rw [hleft] at act
    cases act with
    | put n pos le room _ =>
      refine .put n pos le room ?_
      by_contra hgone
      -- what is put now would still lie in the pipe at the end
      have htaken := (h.taken_eq hgone).2
      have hwritten := hafter.grows.1.length_le
      have hend : z.toRight.history = s.toRight.taken := by
        rw [Pipe.history, hz.toRight, List.append_nil, htaken]
      rw [hend, Pipe.history_put, Pipe.history, List.length_append, List.length_append,
        List.length_take] at hwritten
      omega

theorem Reaches.left_not_alone (hz : Over z) (h : Reaches cap f g s z) (hgone : ¬ s.right.Open)
    {p : Process B (Loop α)} : ¬ GivesUp s.left s.toLeft p := by
  intro hcall
  have hgoing : s ≠ z := by
    rintro rfl
    obtain ⟨a, ha⟩ := hz.left
    rw [ha] at hcall
    cases hcall
  obtain rfl | ⟨t, hstep, -⟩ := Relation.ReflTransGen.cases_head h
  · exact hgoing rfl
  cases hstep with
  | right act =>
    refine hgone ?_
    rintro b hb
    rw [hb] at act
    cases act
  | left act =>
    have hact := h.left_attended hz act
    revert hact
    generalize s.left = q at hcall
    cases hcall with
    | broken _ =>
      rintro ⟨⟩
      contradiction
    | ended _ empty =>
      rintro ⟨⟩
      simp_all

/-- On the way to an end, calls do not fail. -/
theorem Reaches.live_iff (hz : Over z) (h : Reaches cap f g s z) : Live cap f g s t ↔ Step cap f g s t := by
  constructor
  · rintro (act | act | ⟨alone, call⟩ | ⟨alone, call⟩)
    · exact .left act.attend
    · exact .right act.attend
    · exact absurd call (h.left_not_alone hz alone)
    · exact absurd call (h.swap.left_not_alone hz.swap alone)
  · rintro (act | act)
    · exact .left (h.left_attended hz act)
    · exact .right (h.swap.left_attended hz.swap act)

theorem Reaches.of_live (hz : Over z) (h : Reaches cap f g s z)
    (ht : Relation.ReflTransGen (Live cap f g) s t) : Reaches cap f g s t := by
  induction ht with
  | refl => exact .refl
  | tail _ hstep ih => exact ih.tail (((h.to_over hz ih).live_iff hz).1 hstep)

theorem Reaches.live (hz : Over z) (h : Reaches cap f g s z) (ht : Reaches cap f g s t) :
    Relation.ReflTransGen (Live cap f g) s t := by
  induction ht with
  | refl => exact .refl
  | tail ht hstep ih => exact ih.tail (((h.to_over hz ht).live_iff hz).2 hstep)

/-- An end that one run comes to is the end of all. -/
theorem Reaches.ends (hz : Over z) (h : Reaches cap f g s z) : Ends cap f g s z where
  reachable t ht := by
    have hto := h.to_over hz (h.of_live hz ht)
    exact hto.live hz hto
  terminates t ht := by
    have hto := h.to_over hz (h.of_live hz ht)
    clear ht
    induction hn : z.moved - t.moved using Nat.strong_induction_on generalizing t with
    | _ n ih =>
      refine Acc.intro t fun u hu => ?_
      have hstep := (hto.live_iff hz).1 hu
      have hto' := hto.to_over hz (.single hstep)
      have hlt := hstep.grows.2.2
      have hle := hto'.grows.2.2
      exact ih _ (by omega) u hto' rfl
  unique t ht hstuck := by
    have hto := h.to_over hz (h.of_live hz ht)
    rcases Relation.ReflTransGen.cases_head (hto.live hz hto) with rfl | ⟨u, hu, -⟩
    · rfl
    · exact absurd hu (hstuck u)

end Net

end FastEcu.Data
