import LexerGen.Nfa.Subset
import LexerGen.Nfa.Thompson
import LexerGen.Proofs.Reachability
import Mathlib.Algebra.BigOperators.Fin

/-! Paths through a fragment. A text resolves to the tag of the strongest accepting state that it
leads to: the one with the lowest priority, and among those the one with the lowest number. -/

namespace LexerGen.Nfa

/-- The state numbered `n`; a number without a state has one without edges. -/
def States.state (states : States) (n : Nat) : State := states.getD n {}

/-- `w` is the text along some way from one state to another. -/
inductive Path (states : States) : Nat → List Char → Nat → Prop
  | refl (n : Nat) : Path states n [] n
  | epsilon {n m k : Nat} {w : List Char} (h : m ∈ (states.state n).epsilons)
      (rest : Path states m w k) : Path states n w k
  | char {n k : Nat} {c : Char} {w : List Char} {e : Edge} (he : e ∈ (states.state n).edges)
      (hc : e.contains c = true) (rest : Path states e.target w k) : Path states n (c :: w) k

namespace Path

variable {states : States} {n m k : Nat} {v w : List Char} {c : Char}

theorem trans (h : Path states n v m) (h' : Path states m w k) : Path states n (v ++ w) k := by
  induction h with
  | refl => exact h'
  | epsilon he _ ih => exact .epsilon he (ih h')
  | char he hc _ ih => exact .char he hc (ih h')

/-- Without reading anything, only the edges that read nothing can be taken. -/
theorem nil_iff : Path states n [] k ↔ Graph.Leads (fun n => (states.state n).epsilons) n k := by
  constructor
  · intro h
    generalize hw : ([] : List Char) = w at h
    induction h with
    | refl => exact .refl
    | epsilon he _ ih => exact .head he (ih hw)
    | char => cases hw
  · intro h
    induction h using Relation.ReflTransGen.head_induction_on with
    | refl => exact .refl k
    | head he _ ih => exact .epsilon he ih

/-- The first character of a text is read behind some edges that read nothing. -/
theorem cons_iff : Path states n (c :: w) k ↔
    ∃ m, Path states n [] m ∧ ∃ e ∈ (states.state m).edges, e.contains c = true ∧
      Path states e.target w k := by
  constructor
  · intro h
    generalize hv : c :: w = v at h
    induction h with
    | refl => cases hv
    | epsilon he _ ih =>
      obtain ⟨m, hm, h⟩ := ih hv
      exact ⟨m, .epsilon he hm, h⟩
    | char he hc rest =>
      obtain ⟨rfl, rfl⟩ := List.cons.inj hv
      exact ⟨_, .refl _, _, he, hc, rest⟩
  · rintro ⟨m, hm, e, he, hc, rest⟩
    exact hm.trans (.char he hc rest)

end Path

/-- Every edge of `states` leads to one of them. -/
structure Closed (states : States) : Prop where
  edge_lt : ∀ n, ∀ e ∈ (states.state n).edges, e.target < states.size
  epsilon_lt : ∀ n, ∀ m ∈ (states.state n).epsilons, m < states.size

theorem Path.target_lt {states : States} (h : Closed states) {n k : Nat} {w : List Char}
    (hp : Path states n w k) (hn : n < states.size) : k < states.size := by
  induction hp with
  | refl => exact hn
  | epsilon he _ ih => exact ih (h.epsilon_lt _ _ he)
  | char he _ _ ih => exact ih (h.edge_lt _ _ he)

namespace Fragment

variable (f : Fragment)

/-- `w` leads from the start to `n`. -/
def Reaches (w : List Char) (n : Nat) : Prop := Path f.states f.start w n

/-- `w` leads to an accepting state with the mark `a`. -/
def Accepts (w : List Char) (a : Accept) : Prop :=
  ∃ n, f.Reaches w n ∧ (f.state n).accept = some a

/-- `tag` belongs to the accepting state with the lowest priority that `w` leads to, and among
several such states to the one with the lowest number. -/
def Resolves (w : List Char) (tag : String) : Prop :=
  ∃ n a, f.Reaches w n ∧ (f.state n).accept = some a ∧ a.tag = tag ∧
    ∀ m b, f.Reaches w m → (f.state m).accept = some b →
      a.priority < b.priority ∨ (a.priority = b.priority ∧ n ≤ m)

/-- The fragments that patterns, stamping and joining make. -/
inductive Built : Fragment → Prop
  | compile {cs : List Char} {f : Fragment} (h : Fragment.compile cs = .ok f) : Built f
  | stamp {f : Fragment} (h : Built f) (tag : String) (priority : Nat) :
      Built (f.stamp tag priority)
  | union {f g : Fragment} (hf : Built f) (hg : Built g) : Built (f.union g)

variable {f}

theorem state_eq_default {n : Nat} (h : f.size ≤ n) : f.state n = {} := by
  rw [state, Array.getD_eq_getD_getElem?, Array.getElem?_eq_none h]
  rfl

/-- The edges that read nothing are counted over all states. -/
theorem sum_epsilons (f : Fragment) :
    ∑ n ∈ Finset.range f.size, ((f.state n).epsilons).length = f.epsilonCount := by
  have hsum : f.epsilonCount = (f.states.toList.map fun s => s.epsilons.length).sum := by
    rw [epsilonCount, List.sum_eq_foldr, List.foldr_map]
  rw [hsum, Finset.sum_range, ← List.sum_ofFn]
  congr 1
  refine List.ext_getElem (by simp [size]) fun i h₁ h₂ => ?_
  simp only [List.length_ofFn] at h₁
  simp [state, Array.getD_eq_getD_getElem?, show i < f.states.size from h₁]

theorem mem_closure {seeds : List Nat} {k : Nat} :
    k ∈ f.closure f.epsilonCount seeds ↔ ∃ s ∈ seeds, Path f.states s [] k := by
  rw [closure, Std.TreeSet.mem_toList, Graph.mem_reachable f.size
    (fun n hn => by rw [state_eq_default hn]) (Nat.le_of_eq (sum_epsilons f))]
  exact exists_congr fun s => and_congr_right fun _ => Path.nil_iff.symm

theorem pairwise_closure (f : Fragment) (epsilons : Nat) (seeds : List Nat) :
    (f.closure epsilons seeds).Pairwise (· < ·) :=
  Std.TreeSet.ordered_toList.imp fun h => Nat.compare_eq_lt.1 h

end Fragment

end LexerGen.Nfa
