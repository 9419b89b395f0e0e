import LexerGen.Proofs.Edges
import LexerGen.Table.Basic

/-! Runs of a state table over a text. In a well-formed table a transition goes to the target of the
one edge with the character, and the tag at the end of a run is what a table means. -/

namespace LexerGen.StateTable

open Edge

/-- The entry and all targets are states, and the edges of every row are sorted. -/
structure WellFormed (t : StateTable) : Prop where
  entry_lt : t.entry < t.size
  sorted : ∀ state, Sorted (t.edges state).toList
  target_lt : ∀ state, ∀ e ∈ (t.edges state).toList, e.target < t.size

/-! ### Rows -/

theorem row_of_lt {t : StateTable} {n : Nat} (h : n < t.size) : t.rows[n]? = some (t.row n) := by
  have h : n < t.rows.size := h
  simp [row, Array.getD_eq_getD_getElem?, h]

theorem row_of_le {t : StateTable} {n : Nat} (h : t.size ≤ n) : t.row n = {} := by
  have h : t.rows.size ≤ n := h
  simp [row, Array.getD_eq_getD_getElem?, h]

theorem lt_size_of_mem_edges {t : StateTable} {n : Nat} {e : Edge}
    (h : e ∈ (t.edges n).toList) : n < t.size := by
  by_contra hn
  simp [edges, row_of_le (Nat.not_lt.1 hn)] at h

theorem lt_size_of_tag? {t : StateTable} {n : Nat} {tag : String} (h : t.tag? n = some tag) :
    n < t.size := by
  by_contra hn
  simp [tag?, row_of_le (Nat.not_lt.1 hn)] at h

theorem mem_accepting {t : StateTable} {n : Nat} {tag : String} :
    (n, tag) ∈ t.accepting ↔ t.tag? n = some tag := by
  simp only [accepting, List.mem_filterMap, Prod.exists, List.mem_zipIdx_iff_getElem?,
    Array.getElem?_toList, Option.map_eq_some_iff, Prod.mk.injEq]
  constructor
  · rintro ⟨row, i, hrow, tag', htag, rfl, rfl⟩
    have hlt : i < t.size := (Array.getElem?_eq_some_iff.1 hrow).1
    obtain rfl := Option.some.inj (hrow.symm.trans (row_of_lt hlt))
    exact htag
  · intro h
    exact ⟨t.row n, n, row_of_lt (lt_size_of_tag? h), tag, h, rfl, rfl⟩

/-! ### Runs -/

/-- The state that `w` leads to from `state`, if the table can follow it. -/
def runFrom? (t : StateTable) (state : Nat) : List Char → Option Nat
  | [] => some state
  | c :: w => (t.next? state c).bind fun next => t.runFrom? next w

/-- The tag of the state that `w` leads to from `state`, if there is one and it accepts. -/
def tagFrom? (t : StateTable) (state : Nat) (w : List Char) : Option String :=
  (t.runFrom? state w).bind t.tag?

@[simp] theorem runFrom?_nil (t : StateTable) (state : Nat) :
    t.runFrom? state [] = some state := rfl

theorem runFrom?_cons (t : StateTable) (state : Nat) (c : Char) (w : List Char) :
    t.runFrom? state (c :: w) = (t.next? state c).bind fun next => t.runFrom? next w := rfl

theorem runFrom?_append (t : StateTable) (state : Nat) (v w : List Char) :
    t.runFrom? state (v ++ w) = (t.runFrom? state v).bind fun next => t.runFrom? next w := by
  induction v generalizing state with
  | nil => rfl
  | cons c v ih =>
    rw [List.cons_append, runFrom?_cons, runFrom?_cons, Option.bind_assoc]
    simp only [ih]

@[simp] theorem tagFrom?_nil (t : StateTable) (state : Nat) :
    t.tagFrom? state [] = t.tag? state := rfl

theorem tagFrom?_cons (t : StateTable) (state : Nat) (c : Char) (w : List Char) :
    t.tagFrom? state (c :: w) = (t.next? state c).bind fun next => t.tagFrom? next w := by
  rw [tagFrom?, runFrom?_cons, Option.bind_assoc]
  rfl

theorem tagFrom?_append (t : StateTable) (state : Nat) (v w : List Char) :
    t.tagFrom? state (v ++ w) = (t.runFrom? state v).bind fun next => t.tagFrom? next w := by
  rw [tagFrom?, runFrom?_append, Option.bind_assoc]
  rfl

/-! ### Binary search -/

section

variable {edges : Array Edge} {c : Char} {e f : Edge} {i m : Nat}

/-- Edges with smaller numbers lie below those with greater ones. -/
theorem hi_lt_lo_of_lt (hs : Sorted edges.toList) (he : edges[i]? = some e)
    (hf : edges[m]? = some f) (him : i < m) : Text.index e.range.hi < Text.index f.range.lo := by
  rw [← Array.getElem?_toList] at he hf
  obtain ⟨hi, rfl⟩ := List.getElem?_eq_some_iff.1 he
  obtain ⟨hm, rfl⟩ := List.getElem?_eq_some_iff.1 hf
  exact Text.index_lt_index.2 (List.pairwise_iff_getElem.1 hs.increasing i m hi hm him)

theorem lo_le_hi_of_getElem? (hs : Sorted edges.toList) (he : edges[i]? = some e) :
    Text.index e.range.lo ≤ Text.index e.range.hi := by
  rw [← Array.getElem?_toList] at he
  exact Text.index_le_index.2 (hs.proper e (List.mem_of_getElem? he))

/-- An edge below `c` has only edges below `c` before it. -/
theorem lt_of_hi_lt (hs : Sorted edges.toList) (hf : edges[m]? = some f)
    (hc : f.range.hi < c) (he : edges[i]? = some e) (hcontains : e.contains c = true) : m < i := by
  by_contra hle
  rw [contains_iff] at hcontains
  have hhi := Text.index_lt_index.2 hc
  rcases Nat.lt_or_eq_of_le (Nat.not_lt.1 hle) with hlt | rfl
  · have := hi_lt_lo_of_lt hs he hf hlt
    have := lo_le_hi_of_getElem? hs hf
    omega
  · obtain rfl := Option.some.inj (hf.symm.trans he)
    omega

/-- An edge above `c` has only edges above `c` behind it. -/
theorem lt_of_lt_lo (hs : Sorted edges.toList) (hf : edges[m]? = some f)
    (hc : c < f.range.lo) (he : edges[i]? = some e) (hcontains : e.contains c = true) : i < m := by
  by_contra hle
  rw [contains_iff] at hcontains
  have hlo := Text.index_lt_index.2 hc
  rcases Nat.lt_or_eq_of_le (Nat.not_lt.1 hle) with hlt | rfl
  · have := hi_lt_lo_of_lt hs hf he hlt
    have := lo_le_hi_of_getElem? hs hf
    omega
  · obtain rfl := Option.some.inj (hf.symm.trans he)
    omega

theorem eq_of_contains (hs : Sorted edges.toList) (he : edges[i]? = some e)
    (hf : edges[m]? = some f) (hec : e.contains c = true) (hfc : f.contains c = true) :
    e = f := by
  rw [contains_iff] at hec hfc
  rcases Nat.lt_trichotomy i m with hlt | rfl | hlt
  · have := hi_lt_lo_of_lt hs he hf hlt
    omega
  · exact Option.some.inj (he.symm.trans hf)
  · have := hi_lt_lo_of_lt hs hf he hlt
    omega

/-- A search finds an edge with `c` exactly if there is one between the bounds. -/
theorem search_eq_some_iff (hs : Sorted edges.toList) {low high : Nat} (hhigh : high ≤ edges.size) :
    search edges c low high = some e ↔
      ∃ i, low ≤ i ∧ i < high ∧ edges[i]? = some e ∧ e.contains c = true := by
  fun_induction search edges c low high with
  | case1 low high hlow middle hnone =>
    have : middle < edges.size := by omega
    simp [this] at hnone
  | case2 low high hlow middle f hf hhi ih =>
    rw [ih hhigh]
    constructor
    · rintro ⟨i, hi, hrest⟩
      exact ⟨i, by omega, hrest⟩
    · rintro ⟨i, -, hi, he, hc⟩
      have := lt_of_hi_lt hs hf hhi he hc
      exact ⟨i, by omega, hi, he, hc⟩
  | case3 low high hlow middle f hf hhi hlo ih =>
    rw [ih (by omega)]
    constructor
    · rintro ⟨i, hi, hmiddle, hrest⟩
      exact ⟨i, hi, by omega, hrest⟩
    · rintro ⟨i, hi, -, he, hc⟩
      exact ⟨i, hi, lt_of_lt_lo hs hf hlo he hc, he, hc⟩
  | case4 low high hlow middle f hf hhi hlo =>
    have hfc : f.contains c = true := by
      rw [contains_iff]
      rw [← Text.index_lt_index] at hhi hlo
      omega
    constructor
    · rintro ⟨⟩
      exact ⟨middle, by omega, by omega, hf, hfc⟩
    · rintro ⟨i, -, -, he, hc⟩
      rw [eq_of_contains hs hf he hfc hc]
  | case5 low high hlow =>
    constructor
    · intro h
      cases h
    · rintro ⟨i, hi, hhigh, -⟩
      omega

end

/-- In a row with sorted edges the next state is the target that a search from the front finds. -/
theorem next?_eq_lookup {t : StateTable} {state : Nat} (hs : Sorted (t.edges state).toList)
    (c : Char) : t.next? state c = lookup (t.edges state).toList c := by
  apply Option.ext
  intro target
  rw [hs.lookup_eq_some_iff, next?, Option.map_eq_some_iff]
  constructor
  · rintro ⟨e, he, rfl⟩
    obtain ⟨i, -, -, hi, hc⟩ := (search_eq_some_iff hs (Nat.le_refl _)).1 he
    exact ⟨e, Array.mem_toList_iff.2 (Array.mem_of_getElem? hi), hc, rfl⟩
  · rintro ⟨e, he, hc, rfl⟩
    obtain ⟨i, hi⟩ := List.mem_iff_getElem?.1 he
    rw [Array.getElem?_toList] at hi
    obtain ⟨hsize, -⟩ := Array.getElem?_eq_some_iff.1 hi
    exact ⟨e, (search_eq_some_iff hs (Nat.le_refl _)).2 ⟨i, Nat.zero_le _, hsize, hi, hc⟩, rfl⟩

end LexerGen.StateTable
