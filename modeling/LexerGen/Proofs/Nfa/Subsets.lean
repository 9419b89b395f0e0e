import LexerGen.Proofs.Nfa.Union
import Mathlib.Data.Set.Card

/-! The sets of states that the deterministic automaton is made of. They are the sets that texts
lead to, and each of them is found once however the characters are cut into intervals, so a fragment
is too large exactly if there are more such sets than the automaton may have states. -/

namespace LexerGen.Exploration

variable {σ : Type} [BEq σ] [Hashable σ] {next : σ → List (CharRange × σ)} {limit : Nat} {start : σ}

/-- An exploration has a number for each of the reachable states. -/
theorem Complete.encard_follows {x : Exploration σ} (h : Complete next limit start x) :
    {s | Follows next start s}.encard = x.numbering.states.size := by
  classical
  have heq : {s | Follows next start s} = (x.numbering.states.toList.toFinset : Set σ) := by
    ext s
    rw [Finset.mem_coe, List.mem_toFinset]
    exact ⟨h.mem_of_follows, h.reached s⟩
  rw [heq, Set.encard_coe_eq_coe_finsetCard, List.toFinset_card_of_nodup h.valid.nodup,
    Array.length_toList]

/-- An exploration succeeds exactly if there are no more reachable states than its limit. -/
theorem exists_run_iff [LawfulBEq σ] :
    (∃ x, run next limit start = some x) ↔ {s | Follows next start s}.encard ≤ limit := by
  classical
  constructor
  · intro h
    obtain ⟨x, hx⟩ := h
    have hcomplete := run_eq_some hx
    rw [hcomplete.encard_follows]
    exact Nat.cast_le.2 hcomplete.size_le
  · intro hle
    cases hx : run next limit start with
    | some x => exact ⟨x, rfl⟩
    | none =>
      obtain ⟨l, hnodup, hlength, hl⟩ := run_eq_none hx
      have hsubset : (l.toFinset : Set σ) ⊆ {s | Follows next start s} := by
        intro s hs
        rw [Finset.mem_coe, List.mem_toFinset] at hs
        exact hl s hs
      have hcard := (Set.encard_le_encard hsubset).trans hle
      rw [Set.encard_coe_eq_coe_finsetCard, List.toFinset_card_of_nodup hnodup,
        Nat.cast_le] at hcard
      omega

omit [BEq σ] [Hashable σ] in
theorem follows_of_follow? {s : σ} {w : List Char} (h : follow? next start w = some s) :
    Follows next start s := by
  induction w generalizing start with
  | nil =>
    obtain rfl := Option.some.inj h
    exact .refl
  | cons c w ih =>
    rw [follow?, Option.bind_eq_some_iff] at h
    obtain ⟨m, hm, hrest⟩ := h
    obtain ⟨r, hr, -⟩ := exists_of_successor? hm
    exact .head (List.mem_map_of_mem hr) (ih hrest)

end LexerGen.Exploration

namespace LexerGen.Nfa.Fragment

open Exploration

variable {f : Fragment} {S : List Nat}

/-- Determinisation meets `S`. -/
def Meets (f : Fragment) (S : List Nat) : Prop :=
  Follows (f.successors f.epsilonCount) (f.closure f.epsilonCount [f.start]) S

theorem Meets.exists_after? (h : f.Meets S) : ∃ w, f.after? w = some S :=
  exists_follow? (fun s _ => sorted_successors f s) h

/-- A set that is met holds what can be reached from some states without reading anything. -/
theorem Meets.exists_closure (h : f.Meets S) :
    ∃ seeds ≠ [], S = f.closure f.epsilonCount seeds := by
  cases h with
  | refl => exact ⟨[f.start], List.cons_ne_nil _ _, rfl⟩
  | @tail a b _ hab =>
    obtain ⟨⟨r, S⟩, hS, rfl⟩ := List.mem_map.1 hab
    obtain ⟨-, hne, rfl⟩ := mem_successors hS
    exact ⟨_, hne, rfl⟩

theorem Meets.epsilonClosed (h : f.Meets S) : f.EpsilonClosed S := by
  obtain ⟨seeds, -, rfl⟩ := h.exists_closure
  exact epsilonClosed_closure f seeds

theorem Meets.pairwise (h : f.Meets S) : S.Pairwise (· < ·) := by
  obtain ⟨seeds, -, rfl⟩ := h.exists_closure
  exact pairwise_closure f f.epsilonCount seeds

theorem Meets.exists_mem (h : f.Meets S) : ∃ n, n ∈ S := by
  obtain ⟨seeds, hne, rfl⟩ := h.exists_closure
  obtain ⟨s, hs⟩ := List.exists_mem_of_ne_nil seeds hne
  exact ⟨s, mem_closure.2 ⟨s, hs, .refl s⟩⟩

theorem Meets.lt_size {f : Fragment} (hf : f.WellFormed) {S : List Nat} (h : f.Meets S) {n : Nat}
    (hn : n ∈ S) : n < f.size :=
  List.mem_range.1 ((sublist_range_of_follows hf h).subset hn)

/-! ### Counting the sets -/

/-- The non-empty sets of states that texts lead to from the start. A state that is reached without
reading anything more belongs to them too. -/
def reachedSets (f : Fragment) : Set (Set Nat) := {S | S.Nonempty ∧ ∃ w, S = {n | f.Reaches w n}}

theorem epsilonClosed_of_mem_reachedSets {S : Set Nat} (hS : S ∈ f.reachedSets) {n k : Nat}
    (hn : n ∈ S) (hk : Path f.states n [] k) : k ∈ S := by
  obtain ⟨-, w, rfl⟩ := hS
  have hp := Path.trans hn hk
  rwa [List.append_nil] at hp

/-- The sets that texts lead to are those that determinisation meets. -/
theorem reachedSets_eq_image :
    f.reachedSets = Set.image (fun S : List Nat => {n | n ∈ S}) {S | f.Meets S} := by
  ext S
  constructor
  · intro hS
    obtain ⟨⟨n, hn⟩, w, rfl⟩ := hS
    cases hT : f.after? w with
    | none =>
      have hmem := (mem_follow?_start f w n).2 hn
      rw [← after?, hT] at hmem
      cases hmem
    | some T =>
      refine ⟨T, follows_of_follow? hT, ?_⟩
      ext k
      exact mem_after? hT
  · intro hS
    obtain ⟨T, hT, rfl⟩ := hS
    obtain ⟨w, hw⟩ := Meets.exists_after? hT
    refine ⟨Meets.exists_mem hT, w, ?_⟩
    ext k
    exact mem_after? hw

theorem encard_reachedSets : f.reachedSets.encard = {S | f.Meets S}.encard := by
  rw [reachedSets_eq_image]
  apply Set.InjOn.encard_image
  intro S hS T hT heq
  apply (Meets.pairwise hS).eq_of_mem_iff (Meets.pairwise hT)
  intro n
  exact Set.ext_iff.1 heq n

theorem finite_reachedSets (hf : f.WellFormed) : f.reachedSets.Finite := by
  apply (Set.finite_lt_nat f.size).powerset.subset
  intro S hS n hn
  obtain ⟨-, w, rfl⟩ := hS
  have hreaches : f.Reaches w n := hn
  exact hreaches.lt_size hf

theorem cast_ncard_reachedSets (hf : f.WellFormed) :
    (f.reachedSets.ncard : ℕ∞) = {S | f.Meets S}.encard := by
  rw [(finite_reachedSets hf).cast_ncard_eq, encard_reachedSets]

/-! ### The limit -/

theorem exists_determinise_iff (hf : f.WellFormed) :
    (∃ t, f.determinise = .ok t) ↔ f.reachedSets.ncard ≤ Limits.maxDfaStates := by
  rw [← Nat.cast_le (α := ℕ∞), cast_ncard_reachedSets hf]
  refine Iff.trans ?_ exists_run_iff
  unfold determinise
  simp only
  split
  · rename_i hnone
    rw [hnone]
    simp
  · rename_i x hsome
    rw [hsome]
    simp

theorem size_determinise (hf : f.WellFormed) {t : StateTable} (h : f.determinise = .ok t) :
    t.size = f.reachedSets.ncard := by
  obtain ⟨x, hx, rfl⟩ := determinise_eq_ok h
  have hcard := cast_ncard_reachedSets hf
  rw [show {S | f.Meets S}.encard = _ from hx.encard_follows, Nat.cast_inj] at hcard
  rw [size_table _ hx, hcard]

/-- The table of a built fragment is refused exactly if more non-empty sets of states are reached by
texts than the deterministic automaton may have states; there is no other reason, and no table has
more states than there are such sets. -/
theorem toTable_ok_iff_ncard_le (hf : f.Built) :
    (∀ S ∈ f.reachedSets, ∀ n ∈ S, ∀ k, Path f.states n [] k → k ∈ S) ∧
    f.reachedSets.Finite ∧
    ((∃ t, f.toTable = .ok t) ↔ f.reachedSets.ncard ≤ Limits.maxDfaStates) ∧
    (∀ e, f.toTable = .error e → e = ⟨.exceedsLimits, 0⟩) ∧
    ∀ t, f.toTable = .ok t → t.size ≤ f.reachedSets.ncard := by
  have hw := hf.wellFormed
  refine ⟨fun S hS n hn k => epsilonClosed_of_mem_reachedSets hS hn, finite_reachedSets hw, ?_,
    fun e => toTable_eq_error, fun t ht => ?_⟩
  · rw [← exists_determinise_iff hw]
    constructor
    · intro h
      obtain ⟨t, ht⟩ := h
      obtain ⟨t₁, h₁, -⟩ := toTable_eq_ok ht
      exact ⟨t₁, h₁⟩
    · intro h
      obtain ⟨t, ht⟩ := h
      exact ⟨t.trim.minimise, by rw [toTable, ht]; rfl⟩
  · obtain ⟨t₁, h₁, rfl⟩ := toTable_eq_ok ht
    have hw₁ := wellFormed_determinise h₁
    have hle := StateTable.size_minimise_le (StateTable.wellFormed_trim hw₁)
      (StateTable.live_trim hw₁)
    rwa [StateTable.size_trim, size_determinise hw h₁] at hle

/-- A loop, which the empty text and longer ones reach by different sets. -/
theorem toTable_ok_iff_ncard_le_star : ∃ f t, compile ['a', '*'] = .ok f ∧ f.toTable = .ok t ∧
    f.reachedSets.ncard ≤ Limits.maxDfaStates ∧ t.size ≤ f.reachedSets.ncard := by
  have hcompile : compile ['a', '*'] = .ok ⟨#[{ epsilons := [1] },
      { edges := [⟨⟨'a', 'a'⟩, 2⟩], accept := some .untagged }, { epsilons := [1] }], 0⟩ := by
    decide +kernel
  have hbuilt := Built.compile hcompile
  obtain ⟨t, ht⟩ := exists_toTable hbuilt.wellFormed (by decide)
  obtain ⟨-, -, hiff, -, hsize⟩ := toTable_ok_iff_ncard_le hbuilt
  exact ⟨_, t, hcompile, ht, hiff.1 ⟨t, ht⟩, hsize t ht⟩

end LexerGen.Nfa.Fragment
