import LexerGen.Nfa.Compile
import LexerGen.Proofs.Nfa.Determinise
import Mathlib.Data.List.Sort

/-! Fragments that the deterministic automaton does not tell apart. The sets of states that texts
lead to are named by the texts, so two fragments have the same automaton if they identify the same
texts, offer the same ranges behind every text and resolve every text alike. How their states are
numbered does not matter. -/

namespace LexerGen.Nfa.Fragment

open Text Exploration

variable {f g : Fragment} {v w : List Char} {S T : List Nat}

/-- `v` and `w` lead to the same states. -/
def Identifies (f : Fragment) (v w : List Char) : Prop := ∀ n, f.Reaches v n ↔ f.Reaches w n

/-- Some state that `w` leads to has an edge over `r`. -/
def Offers (f : Fragment) (w : List Char) (r : CharRange) : Prop :=
  ∃ n, f.Reaches w n ∧ ∃ e ∈ (f.state n).edges, e.range = r

/-- The fragments agree on all that matters for the deterministic automaton. -/
structure Alike (f g : Fragment) : Prop where
  identifies : ∀ v w, f.Identifies v w ↔ g.Identifies v w
  offers : ∀ w r, f.Offers w r ↔ g.Offers w r
  resolves : ∀ w tag, f.Resolves w tag ↔ g.Resolves w tag

/-! ### The set behind a text -/

/-- The set of states that `w` leads to, if there are any. -/
def after? (f : Fragment) (w : List Char) : Option (List Nat) :=
  follow? (f.successors f.epsilonCount) (f.closure f.epsilonCount [f.start]) w

theorem mem_after? (h : f.after? w = some S) {n : Nat} : n ∈ S ↔ f.Reaches w n := by
  rw [← mem_follow?_start f w, ← after?, h, Option.getD_some]

theorem pairwise_after? (h : f.after? w = some S) : S.Pairwise (· < ·) := by
  have hpairwise := pairwise_follow? f (pairwise_closure f f.epsilonCount [f.start]) w
  rwa [← after?, h, Option.getD_some] at hpairwise

theorem tagOf?_after? (h : f.after? w = some S) (tag : String) :
    f.tagOf? S = some tag ↔ f.Resolves w tag := by
  rw [← tagAfter?_eq_some_iff, tagAfter?, ← after?, h, Option.getD_some]

/-- Texts that are identified lead to the same set, and no others do. -/
theorem after?_eq_iff (hS : f.after? v = some S) (hT : f.after? w = some T) :
    S = T ↔ f.Identifies v w := by
  constructor
  · rintro rfl n
    rw [← mem_after? hS, mem_after? hT]
  · intro h
    refine (pairwise_after? hS).eq_of_mem_iff (pairwise_after? hT) fun n => ?_
    rw [mem_after? hS, mem_after? hT, h n]

/-- A successor of the set behind `w` is the set behind one more character. -/
theorem after?_concat (h : f.after? w = some S) {r : CharRange} {S' : List Nat}
    (hr : (r, S') ∈ f.successors f.epsilonCount S) : f.after? (w ++ [r.lo]) = some S' := by
  have hsorted := sorted_successors f S
  have hproper : r.lo ≤ r.hi := hsorted.proper r (List.mem_map_of_mem hr)
  have hlo : r.contains r.lo = true := by simpa [CharRange.contains] using hproper
  rw [after?, follow?_append, ← after?, h, Option.bind_some, follow?,
    successor?_of_mem hsorted hr hlo]
  rfl

theorem offers_iff (h : f.after? w = some S) (r : CharRange) :
    f.Offers w r ↔ r ∈ (f.edgesOf S).map Edge.range := by
  simp only [Offers, List.mem_map, edgesOf, List.mem_flatMap, mem_after? h]
  constructor
  · rintro ⟨n, hn, e, he, hr⟩
    exact ⟨e, ⟨n, hn, he⟩, hr⟩
  · rintro ⟨e, ⟨n, hn, he⟩, hr⟩
    exact ⟨n, hn, e, he, hr⟩

/-! ### The same text in both fragments -/

/-- Some text leads to `S` in the one fragment and to `T` in the other. -/
def SameText (f g : Fragment) (S T : List Nat) : Prop :=
  ∃ w, f.after? w = some S ∧ g.after? w = some T

/-- Where lists of edges have the same ranges, the same intervals are cut out. -/
theorem intervals_congr {es es' : List Edge}
    (h : ∀ r, r ∈ es.map Edge.range ↔ r ∈ es'.map Edge.range) : intervals es = intervals es' := by
  have hcuts : cuts es = cuts es' := by
    refine (pairwise_sortedDistinct _).eq_of_mem_iff (pairwise_sortedDistinct _) fun n => ?_
    have hmem : ∀ es : List Edge, n ∈ cuts es ↔
        ∃ r ∈ es.map Edge.range, n = index r.lo ∨ n = index r.hi + 1 := by
      intro es
      simp [mem_cuts]
    exact (hmem es).trans (Iff.trans (by simp only [h]) (hmem es').symm)
  rw [intervals, intervals, hcuts]

theorem targetsOn_eq_nil_iff {es : List Edge} {r : CharRange} :
    targetsOn es r = [] ↔ ∀ s ∈ es.map Edge.range, ¬(s.lo ≤ r.lo ∧ r.hi ≤ s.hi) := by
  simp [targetsOn]

namespace Alike

theorem biUnique_sameText (h : Alike f g) : Relator.BiUnique (SameText f g) := by
  constructor
  · rintro S T S' ⟨v, hS, hv⟩ ⟨w, hT, hw⟩
    exact (after?_eq_iff hS hT).2 ((h.identifies v w).2 ((after?_eq_iff hv hw).1 rfl))
  · rintro S T T' ⟨v, hv, hT⟩ ⟨w, hw, hT'⟩
    exact (after?_eq_iff hT hT').2 ((h.identifies v w).1 ((after?_eq_iff hv hw).1 rfl))

/-- The sets behind the same text have successors over the same ranges, which again lie behind the
same texts. -/
theorem forall₂_successors (h : Alike f g) (hST : SameText f g S T) :
    List.Forall₂ (fun x y => x.1 = y.1 ∧ SameText f g x.2 y.2)
      (f.successors f.epsilonCount S) (g.successors g.epsilonCount T) := by
  obtain ⟨w, hS, hT⟩ := hST
  have hranges : ∀ r, r ∈ (f.edgesOf S).map Edge.range ↔ r ∈ (g.edgesOf T).map Edge.range := by
    intro r
    rw [← offers_iff hS, ← offers_iff hT]
    exact h.offers w r
  have hnil : ∀ r, targetsOn (f.edgesOf S) r = [] ↔ targetsOn (g.edgesOf T) r = [] := by
    intro r
    simp only [targetsOn_eq_nil_iff, hranges]
  have hsame : List.Forall₂ (fun r s => r = s ∧ r ∈ intervals (f.edgesOf S))
      (intervals (f.edgesOf S)) (intervals (f.edgesOf S)) :=
    List.forall₂_same.2 fun r hr => ⟨rfl, hr⟩
  rw [successors, successors, ← intervals_congr hranges]
  refine List.rel_filterMap (R := fun r s => r = s ∧ r ∈ intervals (f.edgesOf S)) ?_ hsame
  rintro r _ ⟨rfl, hr⟩
  have hr' : r ∈ intervals (g.edgesOf T) := intervals_congr hranges ▸ hr
  by_cases hempty : targetsOn (f.edgesOf S) r = []
  · simp only [hempty, (hnil r).1 hempty]
    exact .none
  · have hempty' : targetsOn (g.edgesOf T) r ≠ [] := fun h => hempty ((hnil r).2 h)
    have hf := after?_concat hS (successors_of_interval hr hempty)
    have hg := after?_concat hT (successors_of_interval hr' hempty')
    beta_reduce
    split
    · rename_i hcontra
      exact absurd hcontra hempty
    · exact .some ⟨rfl, w ++ [r.lo], hf, hg⟩

theorem tagOf?_eq (h : Alike f g) (hST : SameText f g S T) : f.tagOf? S = g.tagOf? T := by
  obtain ⟨w, hS, hT⟩ := hST
  refine Option.ext fun tag => ?_
  rw [tagOf?_after? hS, tagOf?_after? hT]
  exact h.resolves w tag

/-- Fragments that agree have the same deterministic automaton, or are both too large. -/
theorem determinise_eq (h : Alike f g) : f.determinise = g.determinise := by
  have hrun : (run (f.successors f.epsilonCount) Limits.maxDfaStates
      (f.closure f.epsilonCount [f.start])).map (table · f.tagOf?) =
      (run (g.successors g.epsilonCount) Limits.maxDfaStates
        (g.closure g.epsilonCount [g.start])).map (table · g.tagOf?) :=
    map_table_run_of_related h.biUnique_sameText (fun _ _ => h.forall₂_successors) ⟨[], rfl, rfl⟩
      fun _ _ => h.tagOf?_eq
  unfold determinise
  simp only
  generalize run (f.successors f.epsilonCount) Limits.maxDfaStates
    (f.closure f.epsilonCount [f.start]) = o at hrun ⊢
  generalize run (g.successors g.epsilonCount) Limits.maxDfaStates
    (g.closure g.epsilonCount [g.start]) = o' at hrun ⊢
  cases o with
  | none =>
    cases o' with
    | none => rfl
    | some x' => cases hrun
  | some x =>
    cases o' with
    | none => cases hrun
    | some x' => exact congrArg Except.ok (Option.some.inj hrun)

theorem toTable_eq (h : Alike f g) : f.toTable = g.toTable := by
  rw [toTable, toTable, h.determinise_eq]

end Alike

end LexerGen.Nfa.Fragment
