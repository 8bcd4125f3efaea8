import FastEcu.Data.History
import Mathlib.Data.List.Chain
import Mathlib.Data.List.Nodup
import Mathlib.Logic.Relation

/-!
# Lists in dependency order

A list of entries, each with a key and the keys it depends on, where an entry comes after all it
depends on.  Such a list is the trace of a depth-first walk that got to its end, and the dependencies
of its entries have no cycle.

* `DependencyOrder` : every entry comes after its dependencies.
* `DependsOn` : the dependencies of the entries of a list, as a relation between keys.
* `DependencyOrder.acyclic` : they have no cycle.
* `EndsWithin` : the chains of a relation from some point have a number of members at most.
-/

namespace FastEcu.Data

variable {α κ : Type*} {key : α → κ} {needs : α → List κ} {l : List α}

/-- Every entry of the list comes after the entries it depends on. -/
def DependencyOrder (key : α → κ) (needs : α → List κ) (l : List α) : Prop :=
  Each (fun before a => ∀ k ∈ needs a, k ∈ before.map key) l

/-- The entry of the first key depends on the second. -/
def DependsOn (key : α → κ) (needs : α → List κ) (l : List α) (x y : κ) : Prop :=
  ∃ a ∈ l, key a = x ∧ y ∈ needs a

theorem DependencyOrder.idxOf_lt [DecidableEq κ] (h : DependencyOrder key needs l)
    (hn : (l.map key).Nodup) {x y : κ} (hxy : DependsOn key needs l x y) :
    (l.map key).idxOf y < (l.map key).idxOf x := by
  obtain ⟨a, ha, rfl, hy⟩ := hxy
  obtain ⟨before, after, rfl⟩ := List.append_of_mem ha
  have hy := h before a after rfl y hy
  rw [List.map_append, List.map_cons] at hn ⊢
  have ha : key a ∉ before.map key := fun hmem =>
    List.disjoint_of_nodup_append hn hmem (List.mem_cons_self ..)
  rw [List.idxOf_append_of_mem hy, List.idxOf_append_of_notMem ha]
  have := List.idxOf_lt_length_of_mem hy
  omega

theorem DependencyOrder.mem_of_dependsOn (h : DependencyOrder key needs l) {x y : κ}
    (hxy : DependsOn key needs l x y) : y ∈ l.map key := by
  obtain ⟨a, ha, rfl, hy⟩ := hxy
  obtain ⟨before, after, rfl⟩ := List.append_of_mem ha
  rw [List.map_append]
  exact List.mem_append_left _ (h before a after rfl y hy)

/-- Nothing depends on the last entry. -/
theorem DependencyOrder.not_dependsOn_last {a : α} (h : DependencyOrder key needs (l ++ [a]))
    (hn : ((l ++ [a]).map key).Nodup) (x : κ) : ¬ DependsOn key needs (l ++ [a]) x (key a) := by
  classical
  intro hx
  have hlt := h.idxOf_lt hn hx
  obtain ⟨b, hb, rfl, -⟩ := hx
  have hle : ((l ++ [a]).map key).idxOf (key b) < ((l ++ [a]).map key).length :=
    List.idxOf_lt_length_of_mem (List.mem_map_of_mem hb)
  have ha : key a ∉ l.map key := by
    rw [List.map_append] at hn
    exact fun hmem => List.disjoint_of_nodup_append hn hmem (List.mem_cons_self ..)
  rw [List.map_append, List.idxOf_append_of_notMem ha] at hlt
  simp at hlt hle
  omega

/-- **Dependencies that can be put in order have no cycle.** -/
theorem DependencyOrder.acyclic (h : DependencyOrder key needs l) (hn : (l.map key).Nodup) (x : κ) :
    ¬ Relation.TransGen (DependsOn key needs l) x x := by
  classical
  have hlt : ∀ {x y}, Relation.TransGen (DependsOn key needs l) x y →
      (l.map key).idxOf y < (l.map key).idxOf x := by
    intro x y hxy
    induction hxy with
    | single hxy => exact h.idxOf_lt hn hxy
    | tail _ hxy ih => exact Nat.lt_trans (h.idxOf_lt hn hxy) ih
  intro hx
  exact Nat.lt_irrefl _ (hlt hx)

/-! ### Chains of a bounded length -/

/-- The chains of the relation from the first member have at most `n` members. -/
def EndsWithin (r : α → α → Prop) : ℕ → α → Prop
  | 0, _ => False
  | n + 1, a => ∀ b, r a b → EndsWithin r n b

theorem endsWithin_of_isChain {r : α → α → Prop} {n : ℕ} {a : α}
    (h : ∀ l, List.IsChain r (a :: l) → (a :: l).length ≤ n) : EndsWithin r n a := by
  induction n generalizing a with
  | zero => exact absurd (h [] (List.isChain_singleton a)) (by simp)
  | succ n ih =>
    intro b hb
    refine ih fun l hl => ?_
    have hlength := h (b :: l) (List.isChain_cons_cons.2 ⟨hb, hl⟩)
    rw [List.length_cons] at hlength
    exact Nat.le_of_succ_le_succ hlength

/-- Chains that end do not come back. -/
theorem EndsWithin.not_cycle {r : α → α → Prop} {n : ℕ} {a : α} (h : EndsWithin r n a) :
    ¬ Relation.TransGen r a a := by
  induction n generalizing a with
  | zero => exact h.elim
  | succ n ih =>
    intro hcycle
    obtain ⟨b, hab, hba⟩ := Relation.TransGen.head'_iff.1 hcycle
    exact ih (h b hab) (Relation.TransGen.tail' hba hab)

end FastEcu.Data
