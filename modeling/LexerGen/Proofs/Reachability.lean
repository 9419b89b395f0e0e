import LexerGen.Graph
import Mathlib.Algebra.BigOperators.Group.Finset.Basic
import Mathlib.Algebra.BigOperators.Intervals
import Mathlib.Algebra.Order.BigOperators.Group.Finset
import Mathlib.Logic.Relation

/-! The walk through a graph finds exactly the nodes that its seeds lead to. Its fuel is enough
because every step either takes a node off the list of pending ones, or pays for the edges that it
puts there with the edges of a node that was not seen before. -/

namespace LexerGen.Graph

/-- `b` can be reached from `a`. -/
abbrev Leads (next : Nat → List Nat) : Nat → Nat → Prop :=
  Relation.ReflTransGen fun a b => b ∈ next a

/-- The number of edges out of the nodes below `size` that are not in `seen`. -/
def unseenEdges (next : Nat → List Nat) (size : Nat) (seen : Std.TreeSet Nat) : Nat :=
  ∑ n ∈ (Finset.range size).filter (· ∉ seen), (next n).length

section

variable {next : Nat → List Nat} {size : Nat}

theorem mem_insert_iff {seen : Std.TreeSet Nat} {n m : Nat} :
    m ∈ seen.insert n ↔ m = n ∨ m ∈ seen := by
  rw [Std.TreeSet.mem_insert, Nat.compare_eq_eq, eq_comm]

/-- Seeing a node uses up its edges. -/
theorem unseenEdges_insert (hsize : ∀ n, size ≤ n → next n = []) {seen : Std.TreeSet Nat} {n : Nat}
    (hn : n ∉ seen) :
    (next n).length + unseenEdges next size (seen.insert n) = unseenEdges next size seen := by
  have herase : (Finset.range size).filter (· ∉ seen.insert n) =
      ((Finset.range size).filter (· ∉ seen)).erase n := by
    ext m
    simp only [Finset.mem_filter, Finset.mem_erase, mem_insert_iff]
    tauto
  rw [unseenEdges, unseenEdges, herase]
  by_cases hlt : n < size
  · exact Finset.add_sum_erase _ (fun n => (next n).length) (by simp [hlt, hn])
  · rw [hsize n (by omega), Finset.erase_eq_of_notMem (by simp [hlt])]
    simp

/-- What the walk finds was seen before or is reachable from a pending node. -/
theorem leads_of_mem_visit {fuel : Nat} {pending : List Nat} {seen : Std.TreeSet Nat} {m : Nat}
    (h : m ∈ visit next fuel pending seen) : m ∈ seen ∨ ∃ s ∈ pending, Leads next s m := by
  induction fuel generalizing pending seen with
  | zero => exact .inl h
  | succ fuel ih =>
    cases pending with
    | nil => exact .inl h
    | cons n pending =>
      rw [visit] at h
      split at h
      · rcases ih h with h | ⟨s, hs, hl⟩
        · exact .inl h
        · exact .inr ⟨s, List.mem_cons_of_mem _ hs, hl⟩
      · rcases ih h with h | ⟨s, hs, hl⟩
        · rcases mem_insert_iff.1 h with rfl | h
          · exact .inr ⟨m, List.mem_cons_self, .refl⟩
          · exact .inl h
        · rcases List.mem_append.1 hs with hs | hs
          · exact .inr ⟨n, List.mem_cons_self, .head hs hl⟩
          · exact .inr ⟨s, List.mem_cons_of_mem _ hs, hl⟩

/-- The edges out of `seen` stay inside `seen` or lead to a pending node. -/
def Explored (next : Nat → List Nat) (pending : List Nat) (seen : Std.TreeSet Nat) : Prop :=
  ∀ n ∈ seen, ∀ m ∈ next n, m ∈ seen ∨ m ∈ pending

theorem mem_or_mem_of_cons {n m : Nat} {pending : List Nat} {seen : Std.TreeSet Nat}
    (hn : n ∈ seen) (h : m ∈ seen ∨ m ∈ n :: pending) : m ∈ seen ∨ m ∈ pending := by
  rcases h with h | h
  · exact .inl h
  · rcases List.mem_cons.1 h with rfl | h
    · exact .inl hn
    · exact .inr h

theorem mem_insert_or_mem_of_cons {n m : Nat} {pending : List Nat} {seen : Std.TreeSet Nat}
    (more : List Nat) (h : m ∈ seen ∨ m ∈ n :: pending) :
    m ∈ seen.insert n ∨ m ∈ more ++ pending := by
  rcases h with h | h
  · exact .inl (mem_insert_iff.2 (.inr h))
  · rcases List.mem_cons.1 h with rfl | h
    · exact .inl (mem_insert_iff.2 (.inl rfl))
    · exact .inr (List.mem_append_right _ h)

theorem Explored.drop {n : Nat} {pending : List Nat} {seen : Std.TreeSet Nat}
    (h : Explored next (n :: pending) seen) (hn : n ∈ seen) : Explored next pending seen :=
  fun k hk m hm => mem_or_mem_of_cons hn (h k hk m hm)

theorem Explored.insert {n : Nat} {pending : List Nat} {seen : Std.TreeSet Nat}
    (h : Explored next (n :: pending) seen) :
    Explored next (next n ++ pending) (seen.insert n) := by
  intro k hk m hm
  rcases mem_insert_iff.1 hk with rfl | hk
  · exact .inr (List.mem_append_left _ hm)
  · exact mem_insert_or_mem_of_cons (next n) (h k hk m hm)

/-- With enough fuel the walk keeps everything seen or pending, and no edge leads out of what it
found. -/
theorem visit_closed (hsize : ∀ n, size ≤ n → next n = []) {fuel : Nat} {pending : List Nat}
    {seen : Std.TreeSet Nat} (hfuel : pending.length + unseenEdges next size seen ≤ fuel)
    (hseen : Explored next pending seen) :
    (∀ m, m ∈ seen ∨ m ∈ pending → m ∈ visit next fuel pending seen) ∧
      Explored next [] (visit next fuel pending seen) := by
  have stop : ∀ seen, Explored next [] seen →
      (∀ m, m ∈ seen ∨ m ∈ ([] : List Nat) → m ∈ seen) ∧ Explored next [] seen := fun seen h =>
    ⟨fun m hm => hm.resolve_right (by simp), h⟩
  induction fuel generalizing pending seen with
  | zero =>
    obtain rfl := List.length_eq_zero_iff.1 (show pending.length = 0 by omega)
    exact stop seen hseen
  | succ fuel ih =>
    cases pending with
    | nil => exact stop seen hseen
    | cons n pending =>
      rw [List.length_cons] at hfuel
      rw [visit]
      split
      · rename_i hn
        rw [Std.TreeSet.contains_iff_mem] at hn
        obtain ⟨hkept, hclosed⟩ := ih (by omega) (hseen.drop hn)
        exact ⟨fun m hm => hkept m (mem_or_mem_of_cons hn hm), hclosed⟩
      · rename_i hn
        rw [Std.TreeSet.contains_iff_mem] at hn
        have hpaid := unseenEdges_insert hsize hn
        have hfuel' :
            (next n ++ pending).length + unseenEdges next size (seen.insert n) ≤ fuel := by
          rw [List.length_append]
          omega
        obtain ⟨hkept, hclosed⟩ := ih hfuel' hseen.insert
        exact ⟨fun m hm => hkept m (mem_insert_or_mem_of_cons (next n) hm), hclosed⟩

/-- The reachable nodes are those that a seed leads to, if all edges are counted. -/
theorem mem_reachable (size : Nat) (hsize : ∀ n, size ≤ n → next n = []) {edges : Nat}
    (hedges : ∑ n ∈ Finset.range size, (next n).length ≤ edges) {seeds : List Nat} {m : Nat} :
    m ∈ reachable next edges seeds ↔ ∃ s ∈ seeds, Leads next s m := by
  have hfuel : seeds.length + unseenEdges next size ∅ ≤ seeds.length + edges := by
    simpa [unseenEdges] using hedges
  obtain ⟨hstart, hclosed⟩ := visit_closed hsize hfuel
    (show Explored next seeds ∅ by simp [Explored])
  constructor
  · intro h
    exact (leads_of_mem_visit h).resolve_left (by simp)
  · rintro ⟨s, hs, hl⟩
    induction hl with
    | refl => exact hstart s (.inr hs)
    | tail _ hstep ih => exact (hclosed _ ih _ hstep).resolve_right (by simp)

end

end LexerGen.Graph
