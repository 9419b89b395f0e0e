import LexerGen.Proofs.Blocks
import LexerGen.Proofs.ExploredTable
import Mathlib.Data.List.Perm.Subperm

/-! Minimal tables. The leaders of the blocks follow each other as their states do, so the minimal
table gives every text the tag that the table gives it. The walk over the leaders sees nothing but
texts and tags, so tables that give the same tags have the same minimal table. -/

namespace LexerGen.StateTable

open Edge Exploration LexerGen.Numbering

/-- The leaders that a leader goes to, with the ranges that lead there. -/
def leaderEdges (t : StateTable) (leader : Nat) : List (CharRange × Nat) :=
  (t.blockEdges t.blocks leader).map fun e => (e.range, e.target)

theorem successor?_edges (es : List Edge) (c : Char) :
    successor? (es.map fun e => (e.range, e.target)) c = lookup es c := by
  induction es with
  | nil => rfl
  | cons e es ih =>
    rw [List.map_cons, successor?_cons, lookup_cons, ih]
    rfl

section

variable {t : StateTable} (ht : t.WellFormed)
include ht

theorem sorted_leaderEdges (leader : Nat) :
    CharRange.Sorted ((t.leaderEdges leader).map Prod.fst) := by
  have := sorted_iff.1 (normal_blockEdges ht t.blocks leader).toSorted
  rwa [leaderEdges, List.map_map]

theorem successor?_leaderEdges (leader : Nat) (c : Char) :
    successor? (t.leaderEdges leader) c = (t.next? leader c).map t.blocks.of := by
  rw [leaderEdges, successor?_edges, lookup_blockEdges ht]

/-- The states that are leaders of their blocks. -/
def IsLeader (t : StateTable) (s : Nat) : Prop := s < t.size ∧ t.blocks.of s = s

variable (hl : t.Live)
include hl

theorem isLeader_of {s : Nat} (hs : s < t.size) : t.IsLeader (t.blocks.of s) :=
  have hsound := (blocks_sound ht hl).1
  ⟨hsound.of_lt hs, hsound.of_of hs⟩

theorem tagFrom?_of {s : Nat} (hs : s < t.size) (w : List Char) :
    t.tagFrom? (t.blocks.of s) w = t.tagFrom? s w :=
  have hleader := isLeader_of ht hl hs
  (of_blocks_eq_iff ht hl hleader.1 hs).1 hleader.2 w

theorem IsLeader.eq {s s' : Nat} (hs : t.IsLeader s) (hs' : t.IsLeader s')
    (h : ∀ w, t.tagFrom? s w = t.tagFrom? s' w) : s = s' := by
  rw [← hs.2, ← hs'.2]
  exact (of_blocks_eq_iff ht hl hs.1 hs'.1).2 h

theorem isLeader_of_follows {s : Nat} (h : Follows t.leaderEdges (t.blocks.of t.entry) s) :
    t.IsLeader s := by
  induction h with
  | refl => exact isLeader_of ht hl ht.entry_lt
  | @tail a b _ hab _ =>
    obtain ⟨x, hx, rfl⟩ := List.mem_map.1 hab
    obtain ⟨e, he, rfl⟩ := List.mem_map.1 hx
    obtain ⟨f, hf, -, htarget⟩ := exists_lo_of_mem_coalesce he
    obtain ⟨g, hg, rfl⟩ := List.mem_map.1 hf
    rw [← htarget]
    exact isLeader_of ht hl (ht.target_lt a g hg)

/-- There are no more leaders than states. -/
theorem length_le_of_follows {l : List Nat} (hnodup : l.Nodup)
    (h : ∀ s ∈ l, Follows t.leaderEdges (t.blocks.of t.entry) s) : l.length ≤ t.size := by
  have hsubset : l ⊆ List.range t.size := fun s hs =>
    List.mem_range.2 (isLeader_of_follows ht hl (h s hs)).1
  simpa using (hnodup.subperm hsubset).length_le

theorem exists_minimise : ∃ x, Complete t.leaderEdges (t.size + 1) (t.blocks.of t.entry) x ∧
    Exploration.run t.leaderEdges (t.size + 1) (t.blocks.of t.entry) = some x ∧
    t.minimise = x.table t.tag? := by
  cases hrun : Exploration.run t.leaderEdges (t.size + 1) (t.blocks.of t.entry) with
  | none =>
    obtain ⟨l, hnodup, hlength, hfollows⟩ := run_eq_none hrun
    have := length_le_of_follows ht hl hnodup hfollows
    omega
  | some x =>
    refine ⟨x, run_eq_some hrun, rfl, ?_⟩
    have hrun' : Exploration.run (fun leader => (t.blockEdges t.blocks leader).map fun e =>
      (e.range, e.target)) (t.size + 1) (t.blocks.of t.entry) = some x := hrun
    rw [minimise]
    simp only [hrun', table]

theorem follow?_leaderEdges {s : Nat} (hs : s < t.size) (w : List Char) :
    follow? t.leaderEdges (t.blocks.of s) w = (t.runFrom? s w).map t.blocks.of := by
  induction w generalizing s with
  | nil => rfl
  | cons c w ih =>
    obtain ⟨hlt, hof⟩ := isLeader_of ht hl hs
    rw [follow?, runFrom?_cons, successor?_leaderEdges ht,
      map_next?_of_stable ht (blocks_sound ht hl).2 hlt hs hof]
    cases hm : t.next? s c with
    | none => rfl
    | some m => exact ih (ht.next?_lt hm)

omit hl in
theorem runFrom?_lt {s n : Nat} (hs : s < t.size) {w : List Char} (h : t.runFrom? s w = some n) :
    n < t.size := by
  induction w generalizing s with
  | nil => exact Option.some.inj h ▸ hs
  | cons c w ih =>
    rw [runFrom?_cons, Option.bind_eq_some_iff] at h
    obtain ⟨m, hm, h⟩ := h
    exact ih (ht.next?_lt hm) h

/-- Where some text is accepted, some text is accepted behind every text that can be followed. -/
theorem exists_accepted_of_runFrom? {s n : Nat} (hs : ∃ w tag, t.tagFrom? s w = some tag)
    {w : List Char} (h : t.runFrom? s w = some n) : ∃ w tag, t.tagFrom? n w = some tag := by
  induction w generalizing s with
  | nil => exact Option.some.inj h ▸ hs
  | cons c w ih =>
    rw [runFrom?_cons, Option.bind_eq_some_iff] at h
    obtain ⟨m, hm, h⟩ := h
    exact ih (hl.next? ht hm) h

section

variable {x : Exploration Nat}
  (hx : Complete t.leaderEdges (t.size + 1) (t.blocks.of t.entry) x)
include hx

omit hl in
theorem tagFrom?_table_leader {i s : Nat} (hs : x.numbering.states[i]? = some s) (w : List Char) :
    (x.table t.tag?).tagFrom? i w = (follow? t.leaderEdges s w).bind t.tag? :=
  hx.tagFrom?_table t.tag? (fun s _ => sorted_leaderEdges ht s) hs w

/-- A state of the minimal table gives every text the tag that its leader gives it. -/
theorem tagFrom?_of_leader {i s : Nat} (hs : x.numbering.states[i]? = some s) (w : List Char) :
    (x.table t.tag?).tagFrom? i w = t.tagFrom? s w := by
  obtain ⟨hlt, hof⟩ := isLeader_of_follows ht hl (hx.reached s (mem_of_getElem? hs))
  have hfollow := follow?_leaderEdges ht hl hlt w
  rw [hof] at hfollow
  rw [tagFrom?_table_leader ht hx hs, hfollow, tagFrom?]
  cases hm : t.runFrom? s w with
  | none => rfl
  | some m => exact tagFrom?_of ht hl (runFrom?_lt ht hlt hm) []

end

/-- The minimal table gives every text the tag that the table gives it. -/
theorem tagFrom?_minimise (w : List Char) :
    t.minimise.tagFrom? t.minimise.entry w = t.tagFrom? t.entry w := by
  obtain ⟨x, hx, -, heq⟩ := exists_minimise ht hl
  have hentry : (x.table t.tag?).entry = 0 := rfl
  rw [heq, hentry, tagFrom?_of_leader ht hl hx hx.entry, tagFrom?_of ht hl ht.entry_lt]

theorem wellFormed_minimise : t.minimise.WellFormed := by
  obtain ⟨x, hx, -, heq⟩ := exists_minimise ht hl
  rw [heq]
  exact hx.wellFormed_table t.tag? fun s _ => sorted_leaderEdges ht s

theorem entry_minimise : t.minimise.entry = 0 := by
  obtain ⟨x, -, -, heq⟩ := exists_minimise ht hl
  rw [heq]
  rfl

theorem size_minimise_le : t.minimise.size ≤ t.size := by
  obtain ⟨x, hx, -, heq⟩ := exists_minimise ht hl
  rw [heq, size_table t.tag? hx]
  simpa using length_le_of_follows ht hl hx.valid.nodup hx.reached

end

/-! ### Minimality -/

/-- No state and no edge can be left out: every state lies on the way to acceptance, no two states
do the same, and no two edges of a state can be joined. -/
structure Minimal (t : StateTable) : Prop where
  entry_eq : t.entry = 0
  reachable : ∀ s < t.size, ∃ w, t.runFrom? t.entry w = some s
  live : ∀ s < t.size, ∃ w tag, t.tagFrom? s w = some tag
  told_apart : ∀ s < t.size, ∀ s' < t.size, s ≠ s' → ∃ w, t.tagFrom? s w ≠ t.tagFrom? s' w
  apart : ∀ s < t.size, (t.edges s).toList.IsChain fun e f => e.meets f = false

theorem minimal_minimise {t : StateTable} (ht : t.WellFormed) (hl : t.Live)
    (hentry : ∃ w tag, t.tagFrom? t.entry w = some tag) : t.minimise.Minimal := by
  obtain ⟨x, hx, -, heq⟩ := exists_minimise ht hl
  have hsorted : ∀ s, Follows t.leaderEdges (t.blocks.of t.entry) s →
      CharRange.Sorted ((t.leaderEdges s).map Prod.fst) := fun s _ => sorted_leaderEdges ht s
  have hstate : ∀ i < (x.table t.tag?).size, ∃ s, x.numbering.states[i]? = some s := by
    intro i hi
    rw [size_table t.tag? hx] at hi
    exact ⟨_, Array.getElem?_eq_getElem hi⟩
  rw [heq]
  refine ⟨rfl, fun i hi => hx.exists_runFrom? t.tag? hsorted hi, fun i hi => ?_,
    fun i hi j hj hij => ?_, fun i hi => ?_⟩
  · obtain ⟨s, hs⟩ := hstate i hi
    obtain ⟨v, hv⟩ := exists_follow? hsorted (hx.reached s (mem_of_getElem? hs))
    rw [follow?_leaderEdges ht hl ht.entry_lt, Option.map_eq_some_iff] at hv
    obtain ⟨n, hn, rfl⟩ := hv
    obtain ⟨w, tag, hw⟩ := exists_accepted_of_runFrom? ht hl hentry hn
    refine ⟨w, tag, ?_⟩
    rw [tagFrom?_of_leader ht hl hx hs, tagFrom?_of ht hl (runFrom?_lt ht ht.entry_lt hn), hw]
  · obtain ⟨s, hs⟩ := hstate i hi
    obtain ⟨s', hs'⟩ := hstate j hj
    by_contra hall
    push Not at hall
    have hsame : s = s' := by
      refine (isLeader_of_follows ht hl (hx.reached s (mem_of_getElem? hs))).eq ht hl
        (isLeader_of_follows ht hl (hx.reached s' (mem_of_getElem? hs'))) fun w => ?_
      rw [← tagFrom?_of_leader ht hl hx hs, hall w, tagFrom?_of_leader ht hl hx hs']
    exact hij (hx.valid.unique hs (hsame ▸ hs'))
  · obtain ⟨s, hs⟩ := hstate i hi
    obtain ⟨es, -, hrow⟩ := hx.row_table t.tag? hs
    rw [edges, hrow]
    exact isChain_coalesce es

/-! ### Uniqueness -/

/-- Leaders of two tables that give every text the same tag. -/
def SameLeader (t t' : StateTable) (s s' : Nat) : Prop :=
  t.IsLeader s ∧ t'.IsLeader s' ∧ ∀ w, t.tagFrom? s w = t'.tagFrom? s' w

section

variable {t t' : StateTable} (ht : t.WellFormed) (hl : t.Live) (ht' : t'.WellFormed)
  (hl' : t'.Live)
include ht hl ht' hl'

theorem biUnique_sameLeader : Relator.BiUnique (SameLeader t t') := by
  refine ⟨fun a b c hac hbc => ?_, fun a b c hab hac => ?_⟩
  · exact hac.1.eq ht hl hbc.1 fun w => (hac.2.2 w).trans (hbc.2.2 w).symm
  · exact hab.2.1.eq ht' hl' hac.2.1 fun w => (hab.2.2 w).symm.trans (hac.2.2 w)

theorem SameLeader.next {s s' : Nat} (h : SameLeader t t' s s') (c : Char) :
    Option.Rel (SameLeader t t') ((t.next? s c).map t.blocks.of)
      ((t'.next? s' c).map t'.blocks.of) := by
  have hcons : ∀ w, (t.next? s c).bind (fun m => t.tagFrom? m w) =
      (t'.next? s' c).bind fun m => t'.tagFrom? m w := by
    intro w
    rw [← tagFrom?_cons, ← tagFrom?_cons]
    exact h.2.2 (c :: w)
  cases hm : t.next? s c with
  | none =>
    cases hm' : t'.next? s' c with
    | none => exact .none
    | some m' =>
      obtain ⟨w, tag, hw⟩ := hl'.next? ht' hm'
      have := hcons w
      simp [hm, hm', hw] at this
  | some m =>
    cases hm' : t'.next? s' c with
    | none =>
      obtain ⟨w, tag, hw⟩ := hl.next? ht hm
      have := hcons w
      simp [hm, hm', hw] at this
    | some m' =>
      refine .some ⟨isLeader_of ht hl (ht.next?_lt hm), isLeader_of ht' hl' (ht'.next?_lt hm'),
        fun w => ?_⟩
      rw [tagFrom?_of ht hl (ht.next?_lt hm), tagFrom?_of ht' hl' (ht'.next?_lt hm')]
      simpa [hm, hm'] using hcons w

theorem SameLeader.leaderEdges {s s' : Nat} (h : SameLeader t t' s s') :
    List.Forall₂ (fun x y => x.1 = y.1 ∧ SameLeader t t' x.2 y.2) (t.leaderEdges s)
      (t'.leaderEdges s') := by
  have hedges := forall₂_of_related (biUnique_sameLeader ht hl ht' hl')
    (normal_blockEdges ht t.blocks s) (normal_blockEdges ht' t'.blocks s') fun c => by
      rw [lookup_blockEdges ht, lookup_blockEdges ht']
      exact h.next ht hl ht' hl' c
  rw [StateTable.leaderEdges, StateTable.leaderEdges, List.forall₂_map_left_iff,
    List.forall₂_map_right_iff]
  exact hedges

/-- Tables that give every text the same tag have the same minimal table. -/
theorem minimise_eq (h : ∀ w, t.tagFrom? t.entry w = t'.tagFrom? t'.entry w) :
    t.minimise = t'.minimise := by
  obtain ⟨x, -, hrun, heq⟩ := exists_minimise ht hl
  obtain ⟨x', -, hrun', heq'⟩ := exists_minimise ht' hl'
  have hstart : SameLeader t t' (t.blocks.of t.entry) (t'.blocks.of t'.entry) :=
    ⟨isLeader_of ht hl ht.entry_lt, isLeader_of ht' hl' ht'.entry_lt, fun w => by
      rw [tagFrom?_of ht hl ht.entry_lt, tagFrom?_of ht' hl' ht'.entry_lt, h w]⟩
  obtain ⟨hstates, hedges⟩ := run_related (biUnique_sameLeader ht hl ht' hl')
    (fun s s' hs => hs.leaderEdges ht hl ht' hl') hstart hrun hrun'
  rw [heq, heq']
  refine table_eq_of_related (hstates.imp fun s s' hs => ?_) hedges
  exact hs.2.2 []

end

end LexerGen.StateTable
