import LexerGen.Proofs.Nfa.Path
import Mathlib.Computability.Language
import Mathlib.Order.CompletePartialOrder

/-! The texts between two states. A new way from one state to another adds the texts that go that
way once or more; where it ends in a state that nothing leaves, they can only go there last. -/

namespace LexerGen.Nfa

open scoped Computability

/-- The texts along the ways from one state to another. -/
def between (states : States) (n k : Nat) : Language Char := {w | Path states n w k}

theorem mem_between {states : States} {n k : Nat} {w : List Char} :
    w ∈ between states n k ↔ Path states n w k := Iff.rfl

/-- `u` is read on a single edge. -/
def Step (states : States) (n : Nat) (u : List Char) (m : Nat) : Prop :=
  (u = [] ∧ m ∈ (states.state n).epsilons) ∨
    ∃ c, u = [c] ∧ ∃ e ∈ (states.state n).edges, e.contains c = true ∧ e.target = m

theorem Step.path {states : States} {n m k : Nat} {u w : List Char} (h : Step states n u m)
    (hp : Path states m w k) : Path states n (u ++ w) k := by
  rcases h with ⟨rfl, h⟩ | ⟨c, rfl, e, he, hc, rfl⟩
  · exact .epsilon h hp
  · exact .char he hc hp

/-- Induction on the number of edges, whether they read something or not. -/
@[elab_as_elim]
theorem Path.step_induction {states : States} {k : Nat} {motive : Nat → List Char → Prop}
    {n : Nat} {w : List Char} (h : Path states n w k) (refl : motive k [])
    (step : ∀ n u m w, Step states n u m → motive m w → motive n (u ++ w)) : motive n w := by
  induction h with
  | refl => exact refl
  | epsilon he _ ih => exact step _ [] _ _ (.inl ⟨rfl, he⟩) (ih refl)
  | @char n k c w e he hc _ ih => exact step _ [c] _ _ (.inr ⟨c, rfl, e, he, hc, rfl⟩) (ih refl)

theorem between_mul_le (states : States) (n m k : Nat) :
    between states n m * between states m k ≤ between states n k := by
  rintro w ⟨u, hu, v, hv, rfl⟩
  exact Path.trans hu hv

theorem nil_mem_between (states : States) (n : Nat) : [] ∈ between states n n := Path.refl n

theorem between_mono {states states' : States}
    (h : ∀ n u m, Step states n u m → Step states' n u m) (n k : Nat) :
    between states n k ≤ between states' n k := by
  intro w hp
  refine Path.step_induction hp (Path.refl k) ?_
  intro n u m w hs ih
  exact (h n u m hs).path ih

/-- Marks of accepting states play no part in the texts between states. -/
theorem between_congr {states states' : States}
    (hedges : ∀ n, (states'.state n).edges = (states.state n).edges)
    (hepsilons : ∀ n, (states'.state n).epsilons = (states.state n).epsilons) :
    between states' = between states := by
  have hstep : ∀ n u m, Step states' n u m ↔ Step states n u m := by
    intro n u m
    rw [Step, Step, hedges, hepsilons]
  funext n k
  exact le_antisymm (between_mono (fun n u m => (hstep n u m).1) n k)
    (between_mono (fun n u m => (hstep n u m).2) n k)

theorem Closed.congr {states states' : States} (h : Closed states)
    (hsize : states.size ≤ states'.size)
    (hedges : ∀ n, (states'.state n).edges = (states.state n).edges)
    (hepsilons : ∀ n, (states'.state n).epsilons = (states.state n).epsilons) :
    Closed states' := by
  constructor
  · intro n e he
    rw [hedges] at he
    exact Nat.lt_of_lt_of_le (h.edge_lt n e he) hsize
  · intro n m hm
    rw [hepsilons] at hm
    exact Nat.lt_of_lt_of_le (h.epsilon_lt n m hm) hsize

/-- `states'` has the edges of `states` and a way from `a` to `b` over each text of `T`. -/
def Adds (states states' : States) (a : Nat) (T : Language Char) (b : Nat) : Prop :=
  ∀ n u m, Step states' n u m ↔ Step states n u m ∨ (n = a ∧ u ∈ T ∧ m = b)

section

variable {states states' : States} {a b : Nat} {T : Language Char} (h : Adds states states' a T b)
include h

theorem Adds.between_le (n k : Nat) : between states n k ≤ between states' n k :=
  between_mono (fun n u m hs => (h n u m).2 (.inl hs)) n k

theorem Adds.le_between : T ≤ between states' a b := by
  intro u hu
  have hp := ((h a u b).2 (.inr ⟨rfl, hu, rfl⟩)).path (Path.refl b)
  rwa [List.append_nil] at hp

/-- The texts between two states go the new way never, or once and then again and again. -/
theorem Adds.between_eq (n k : Nat) : between states' n k =
    between states n k +
      between states n a * T * (between states b a * T)∗ * between states b k := by
  apply le_antisymm
  · intro w hp
    refine Path.step_induction hp (.inl (Path.refl k)) ?_
    · intro n u m w hs ih
      rcases (h n u m).1 hs with hs | ⟨rfl, hu, rfl⟩
      · rcases ih with ih | ⟨_, ⟨_, ⟨x, hx, y, hy, rfl⟩, z, hz, rfl⟩, v, hv, rfl⟩
        · exact .inl (hs.path ih)
        · refine .inr ⟨_, ⟨_, ⟨u ++ x, hs.path hx, y, hy, rfl⟩, z, hz, rfl⟩, v, hv, ?_⟩
          simp
      · -- The rest goes from `b` on, and `u` is the new way itself.
        have hrest : w ∈ (between states m n * T)∗ * between states m k := by
          rcases ih with ih | ⟨_, ⟨_, hxy, z, hz, rfl⟩, v, hv, rfl⟩
          · exact ⟨[], Language.nil_mem_kstar _, w, ih, rfl⟩
          · have hle : between states m n * T * (between states m n * T)∗ ≤
                (between states m n * T)∗ := mul_kstar_le_kstar
            exact ⟨_, hle ⟨_, hxy, z, hz, rfl⟩, v, hv, rfl⟩
        obtain ⟨z, hz, v, hv, rfl⟩ := hrest
        refine .inr ⟨_, ⟨u, ⟨[], nil_mem_between states n, u, hu, rfl⟩, z, hz, rfl⟩, v, hv, ?_⟩
        simp
  · have hloop : between states' b a * between states' a b ≤ between states' b b :=
      between_mul_le states' b a b
    have hstar : between states' n b * (between states' b b)∗ ≤ between states' n b :=
      mul_kstar_le_self (between_mul_le states' n b b)
    apply sup_le (h.between_le n k)
    calc between states n a * T * (between states b a * T)∗ * between states b k
        ≤ between states' n a * between states' a b *
            (between states' b a * between states' a b)∗ * between states' b k := by
          gcongr
          · exact h.between_le n a
          · exact h.le_between
          · exact h.between_le b a
          · exact h.le_between
          · exact h.between_le b k
      _ ≤ between states' n b * (between states' b b)∗ * between states' b k := by
          gcongr
          exact between_mul_le states' n a b
      _ ≤ between states' n b * between states' b k := by
          gcongr
      _ ≤ between states' n k := between_mul_le states' n b k

end

/-! ### Sinks -/

theorem between_of_sink {states : States} {b : Nat} (hb : states.state b = {}) (k : Nat) :
    between states b k = if b = k then 1 else 0 := by
  apply Language.ext
  intro w
  have hpath : Path states b w k ↔ w = [] ∧ b = k := by
    constructor
    · intro hp
      cases hp with
      | refl => exact ⟨rfl, rfl⟩
      | epsilon he => simp [hb] at he
      | char he => simp [hb] at he
    · rintro ⟨rfl, rfl⟩
      exact .refl b
  rw [mem_between, hpath]
  split
  · rename_i heq
    simp [heq]
  · rename_i hne
    simp [hne]

section

variable {states states' : States} {a b : Nat} {T : Language Char} (h : Adds states states' a T b)
  (hb : states.state b = {})
include h hb

/-- A new way into a sink leads nowhere else. -/
theorem Adds.between_of_ne_sink (n : Nat) {k : Nat} (hk : b ≠ k) :
    between states' n k = between states n k := by
  rw [h.between_eq, between_of_sink hb k, if_neg hk, mul_zero, add_zero]

theorem Adds.between_sink (hab : b ≠ a) (n : Nat) :
    between states' n b = between states n b + between states n a * T := by
  rw [h.between_eq, between_of_sink hb b, if_pos rfl, between_of_sink hb a, if_neg hab, zero_mul,
    kstar_zero, mul_one, mul_one]

end

/-! ### Adding states and edges -/

theorem Closed.between_eq_zero {states : States} (h : Closed states) {n k : Nat}
    (hn : n < states.size) (hk : states.size ≤ k) : between states n k = 0 := by
  apply Language.ext
  intro w
  refine iff_of_false (fun hp => ?_) (Language.notMem_zero w)
  have := Path.target_lt h hp hn
  omega

theorem States.state_of_le {states : States} {n : Nat} (h : states.size ≤ n) :
    states.state n = {} := by
  rw [state, Array.getD_eq_getD_getElem?, Array.getElem?_eq_none h]
  rfl

@[simp] theorem States.size_addState (states : States) :
    states.addState.size = states.size + 1 := by
  simp [addState]

@[simp] theorem States.state_addState (states : States) (n : Nat) :
    states.addState.state n = states.state n := by
  by_cases hn : n < states.size
  · simp [state, addState, Array.getD_eq_getD_getElem?, Array.getElem?_push, Nat.ne_of_lt hn]
  · rw [state_of_le (Nat.not_lt.1 hn)]
    by_cases heq : n = states.size
    · simp [state, addState, Array.getD_eq_getD_getElem?, heq]
    · exact state_of_le (by rw [size_addState]; omega)

theorem between_addState (states : States) : between states.addState = between states :=
  between_congr (fun n => by rw [States.state_addState]) fun n => by rw [States.state_addState]

theorem Closed.addState {states : States} (h : Closed states) : Closed states.addState :=
  h.congr (by rw [States.size_addState]; omega) (fun n => by rw [States.state_addState])
    fun n => by rw [States.state_addState]

theorem States.state_modify (states : States) {n : Nat} (hn : n < states.size) (g : State → State)
    (m : Nat) :
    States.state (states.modify n g) m = if n = m then g (states.state m) else states.state m := by
  rw [state, state, Array.getD_eq_getD_getElem?, Array.getD_eq_getD_getElem?, Array.getElem?_modify]
  split
  · rename_i heq
    subst heq
    simp [hn]
  · rfl

@[simp] theorem States.size_addEpsilon (states : States) (a b : Nat) :
    (states.addEpsilon a b).size = states.size := Array.size_modify

@[simp] theorem States.size_addSet (states : States) (a : Nat) (chars : CharSet) (b : Nat) :
    (states.addSet a chars b).size = states.size := Array.size_modify

section

variable {states : States} {a : Nat} (ha : a < states.size) (b : Nat)
include ha

theorem States.state_addEpsilon_of_ne {n : Nat} (hn : n ≠ a) :
    (states.addEpsilon a b).state n = states.state n := by
  rw [addEpsilon, state_modify states ha, if_neg hn.symm]

theorem States.accept_addEpsilon (n : Nat) :
    ((states.addEpsilon a b).state n).accept = (states.state n).accept := by
  rw [addEpsilon, state_modify states ha]
  split <;> rfl

theorem adds_addEpsilon : Adds states (states.addEpsilon a b) a 1 b := by
  intro n u m
  rw [Step, Step, States.addEpsilon, States.state_modify states ha, Language.mem_one]
  by_cases hn : a = n
  · subst hn
    simp only [if_true, List.mem_append, List.mem_singleton, true_and, and_or_left]
    exact or_right_comm
  · simp only [if_neg hn, Ne.symm hn, false_and, or_false]

theorem Closed.addEpsilon (h : Closed states) (hb : b < states.size) :
    Closed (states.addEpsilon a b) := by
  constructor
  · intro n e he
    rw [States.addEpsilon, States.state_modify states ha] at he
    rw [States.size_addEpsilon]
    apply h.edge_lt n e
    split at he
    · exact he
    · exact he
  · intro n m hm
    rw [States.addEpsilon, States.state_modify states ha] at hm
    rw [States.size_addEpsilon]
    split at hm
    · rcases List.mem_append.1 hm with hm | hm
      · exact h.epsilon_lt n m hm
      · rwa [List.mem_singleton.1 hm]
    · exact h.epsilon_lt n m hm

theorem States.state_addSet_of_ne (chars : CharSet) {n : Nat} (hn : n ≠ a) :
    (states.addSet a chars b).state n = states.state n := by
  rw [addSet, state_modify states ha, if_neg hn.symm]

theorem States.accept_addSet (chars : CharSet) (n : Nat) :
    ((states.addSet a chars b).state n).accept = (states.state n).accept := by
  rw [addSet, state_modify states ha]
  split <;> rfl

theorem adds_addSet (chars : CharSet) :
    Adds states (states.addSet a chars b) a {w | ∃ c, chars.contains c = true ∧ w = [c]} b := by
  intro n u m
  rw [Step, Step, States.addSet, States.state_modify states ha]
  by_cases hn : a = n
  · subst hn
    simp only [if_true, List.mem_append, List.mem_map, CharSet.contains, List.any_eq_true]
    constructor
    · rintro (h | ⟨c, rfl, e, he | ⟨r, hr, rfl⟩, hc, rfl⟩)
      · exact .inl (.inl h)
      · exact .inl (.inr ⟨c, rfl, e, he, hc, rfl⟩)
      · exact .inr ⟨trivial, ⟨c, ⟨r, hr, hc⟩, rfl⟩, rfl⟩
    · rintro ((h | ⟨c, rfl, e, he, hc, rfl⟩) | ⟨-, ⟨c, ⟨r, hr, hc⟩, rfl⟩, rfl⟩)
      · exact .inl h
      · exact .inr ⟨c, rfl, e, .inl he, hc, rfl⟩
      · exact .inr ⟨c, rfl, _, .inr ⟨r, hr, rfl⟩, hc, rfl⟩
  · simp only [if_neg hn, Ne.symm hn, false_and, or_false]

theorem Closed.addSet (h : Closed states) (chars : CharSet) (hb : b < states.size) :
    Closed (states.addSet a chars b) := by
  constructor
  · intro n e he
    rw [States.addSet, States.state_modify states ha] at he
    rw [States.size_addSet]
    split at he
    · rcases List.mem_append.1 he with he | he
      · exact h.edge_lt n e he
      · obtain ⟨r, -, rfl⟩ := List.mem_map.1 he
        exact hb
    · exact h.edge_lt n e he
  · intro n m hm
    rw [States.addSet, States.state_modify states ha] at hm
    rw [States.size_addSet]
    apply h.epsilon_lt n m
    split at hm
    · exact hm
    · exact hm

end

end LexerGen.Nfa
