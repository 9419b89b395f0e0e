import LexerGen.Proofs.CharSet
import LexerGen.Proofs.Edges

/-! Sets of characters in their one form. A list of ranges with a character between each two of them
is determined by the characters in it, and every operation on sets gives such a list. -/

namespace LexerGen

open Text

theorem CharRange.contains_iff {r : CharRange} {c : Char} :
    r.contains c = true ↔ index r.lo ≤ index c ∧ index c ≤ index r.hi := by
  simp [contains, index_le_index]

theorem CharRange.apart_iff {r s : CharRange} :
    r.apart s = true ↔ index r.hi + 1 < index s.lo := by
  simp [apart]

namespace CharSet

/-- No range is empty, and a character lies between each two of them. -/
structure Canonical (s : CharSet) : Prop where
  inhabits : s.Inhabits
  apart : s.ranges.Pairwise fun q r => q.apart r = true

theorem canonical_empty : empty.Canonical := ⟨inhabits_empty, .nil⟩

theorem contains_iff {s : CharSet} {c : Char} :
    s.contains c = true ↔ ∃ r ∈ s.ranges, r.contains c = true := by
  simp [contains]

/-! ### Adding ranges -/

theorem index_lesser (c d : Char) : index (if c < d then c else d) = min (index c) (index d) := by
  split
  · rename_i h
    exact (Nat.min_eq_left (Nat.le_of_lt (index_lt_index.2 h))).symm
  · rename_i h
    exact (Nat.min_eq_right (Nat.not_lt.1 (mt index_lt_index.1 h))).symm

theorem index_greater (c d : Char) : index (if c < d then d else c) = max (index c) (index d) := by
  split
  · rename_i h
    exact (Nat.max_eq_right (Nat.le_of_lt (index_lt_index.2 h))).symm
  · rename_i h
    exact (Nat.max_eq_left (Nat.not_lt.1 (mt index_lt_index.1 h))).symm

/-- What a range lies apart from, it lies apart from after an insertion. -/
theorem apart_insertRange {q r : CharRange} {rs : List CharRange} (hr : q.apart r = true)
    (hrs : ∀ s ∈ rs, q.apart s = true) : ∀ s ∈ insertRange r rs, q.apart s = true := by
  fun_induction insertRange r rs with
  | case1 r => simpa using hr
  | case2 r s rest _ => simpa using ⟨hr, by simpa using hrs⟩
  | case3 r s rest _ _ ih =>
    rw [List.forall_mem_cons] at hrs
    exact List.forall_mem_cons.2 ⟨hrs.1, ih hr hrs.2⟩
  | case4 r s rest _ _ ih =>
    rw [List.forall_mem_cons] at hrs
    refine ih ?_ hrs.2
    rw [CharRange.apart_iff] at hr hrs ⊢
    rw [index_lesser]
    omega

theorem pairwise_insertRange {r : CharRange} {rs : List CharRange}
    (hproper : ∀ s ∈ rs, s.lo ≤ s.hi) (hrs : rs.Pairwise fun q s => q.apart s = true) :
    (insertRange r rs).Pairwise fun q s => q.apart s = true := by
  fun_induction insertRange r rs with
  | case1 r => simp
  | case2 r s rest hapart =>
    refine List.pairwise_cons.2 ⟨?_, hrs⟩
    rw [List.pairwise_cons] at hrs
    have hs := index_le_index.2 (hproper s List.mem_cons_self)
    refine List.forall_mem_cons.2 ⟨hapart, fun t ht => ?_⟩
    have ht := hrs.1 t ht
    rw [CharRange.apart_iff] at hapart ht ⊢
    omega
  | case3 r s rest _ hapart ih =>
    rw [List.pairwise_cons] at hrs
    rw [List.forall_mem_cons] at hproper
    exact List.pairwise_cons.2 ⟨apart_insertRange hapart hrs.1, ih hproper.2 hrs.2⟩
  | case4 r s rest _ _ ih =>
    rw [List.forall_mem_cons] at hproper
    exact ih hproper.2 (List.pairwise_cons.1 hrs).2

/-- Two ranges that are not apart cover, when they are joined, just what they cover. -/
theorem contains_insertRange {r : CharRange} {rs : List CharRange} (hr : r.lo ≤ r.hi)
    (hproper : ∀ s ∈ rs, s.lo ≤ s.hi) (c : Char) :
    (∃ s ∈ insertRange r rs, s.contains c = true) ↔
      r.contains c = true ∨ ∃ s ∈ rs, s.contains c = true := by
  fun_induction insertRange r rs with
  | case1 r => simp
  | case2 r s rest _ => simp
  | case3 r s rest _ _ ih =>
    rw [List.forall_mem_cons] at hproper
    simp only [List.mem_cons, exists_eq_or_imp, ih hr hproper.2]
    exact or_left_comm
  | case4 r s rest hrs hsr ih =>
    rw [List.forall_mem_cons] at hproper
    have hlo := index_le_index.2 hr
    have hlo' := index_le_index.2 hproper.1
    rw [CharRange.apart_iff] at hrs hsr
    have hjoin : CharRange.contains ⟨if s.lo < r.lo then s.lo else r.lo,
        if r.hi < s.hi then s.hi else r.hi⟩ c = true ↔
        r.contains c = true ∨ s.contains c = true := by
      simp only [CharRange.contains_iff, index_lesser, index_greater]
      omega
    have hle : (if s.lo < r.lo then s.lo else r.lo) ≤ if r.hi < s.hi then s.hi else r.hi := by
      rw [← index_le_index, index_lesser, index_greater]
      omega
    simp only [List.mem_cons, exists_eq_or_imp, ih hle hproper.2, hjoin, or_assoc]

theorem Canonical.addRange {s : CharSet} (h : s.Canonical) (lo hi : Char) :
    (s.addRange lo hi).Canonical := by
  refine ⟨h.inhabits.addRange lo hi, ?_⟩
  unfold CharSet.addRange
  split
  · exact pairwise_insertRange h.inhabits h.apart
  · exact h.apart

theorem contains_addRange {s : CharSet} (h : s.Inhabits) (lo hi c : Char) :
    (s.addRange lo hi).contains c = true ↔
      CharRange.contains ⟨lo, hi⟩ c = true ∨ s.contains c = true := by
  unfold CharSet.addRange
  split
  · rename_i hle
    simp only [contains_iff]
    exact contains_insertRange hle h c
  · rename_i hlt
    have hnone : ¬CharRange.contains ⟨lo, hi⟩ c = true := by
      simp only [CharRange.contains_iff]
      rw [← index_le_index] at hlt
      omega
    simp [hnone]

theorem Canonical.union {s : CharSet} (h : s.Canonical) (t : CharSet) : (s.union t).Canonical := by
  unfold CharSet.union
  generalize t.ranges = rs
  induction rs generalizing s with
  | nil => exact h
  | cons r rs ih => exact ih (h.addRange r.lo r.hi)

theorem contains_union {s : CharSet} (h : s.Inhabits) (t : CharSet) (c : Char) :
    (s.union t).contains c = true ↔ s.contains c = true ∨ t.contains c = true := by
  rw [contains_iff (s := t), CharSet.union]
  generalize t.ranges = rs
  induction rs generalizing s with
  | nil => simp
  | cons r rs ih =>
    rw [List.foldl_cons, ih (h.addRange r.lo r.hi), contains_addRange h]
    simp only [List.mem_cons, exists_eq_or_imp]
    exact or_right_comm.trans (by rw [or_comm (a := s.contains c = true), or_assoc])

/-! ### Complements -/

theorem contains_ofIndices? {a b : Nat} (hb : b ≤ Char.numCodePoints) (c : Char) :
    (∃ r ∈ (CharRange.ofIndices? a b).toList, r.contains c = true) ↔ a ≤ index c ∧ index c < b := by
  cases h : CharRange.ofIndices? a b with
  | none =>
    have hle : ¬a < b := by
      intro hlt
      simp [CharRange.ofIndices?, hlt, hb] at h
    simp only [Option.toList_none, List.not_mem_nil, false_and, exists_false, false_iff]
    omega
  | some r =>
    have hr := CharRange.index_of_ofIndices? h
    simp only [Option.toList_some, List.mem_singleton, exists_eq_left, CharRange.contains_iff]
    omega

section

variable {rs : List CharRange} {start : Nat}

theorem contains_gapsFrom (hstart : ∀ r ∈ rs, start ≤ index r.lo)
    (hproper : ∀ r ∈ rs, r.lo ≤ r.hi) (hrs : rs.Pairwise fun q r => q.apart r = true) (c : Char) :
    (∃ g ∈ gapsFrom start rs, g.contains c = true) ↔
      start ≤ index c ∧ ∀ r ∈ rs, ¬r.contains c = true := by
  induction rs generalizing start with
  | nil =>
    rw [gapsFrom, contains_ofIndices? (Nat.le_refl _)]
    simp [index_lt]
  | cons r rs ih =>
    rw [List.forall_mem_cons] at hstart hproper
    obtain ⟨hapart, hrs⟩ := List.pairwise_cons.1 hrs
    have hle := index_le_index.2 hproper.1
    have hbehind : ∀ q ∈ rs, index r.hi + 1 < index q.lo := fun q hq =>
      CharRange.apart_iff.1 (hapart q hq)
    have hrest := ih (fun q hq => Nat.le_of_lt (hbehind q hq)) hproper.2 hrs
    simp only [gapsFrom, List.mem_append, or_and_right, exists_or]
    rw [hrest, contains_ofIndices? (Nat.le_of_lt (index_lt r.lo)), List.forall_mem_cons]
    simp only [CharRange.contains_iff]
    constructor
    · rintro (⟨hlo, hhi⟩ | ⟨hlo, hnone⟩)
      · refine ⟨hlo, by omega, fun q hq => ?_⟩
        have := hbehind q hq
        omega
      · exact ⟨by omega, by omega, hnone⟩
    · rintro ⟨hlo, hr, hnone⟩
      by_cases hlt : index c < index r.lo
      · exact .inl ⟨hlo, hlt⟩
      · exact .inr ⟨by omega, hnone⟩

theorem le_index_of_mem_gapsFrom (hstart : ∀ r ∈ rs, start ≤ index r.lo)
    (hproper : ∀ r ∈ rs, r.lo ≤ r.hi) (hrs : rs.Pairwise fun q r => q.apart r = true) :
    ∀ g ∈ gapsFrom start rs, start ≤ index g.lo := by
  intro g hg
  have hle := inhabits_gapsFrom start rs g hg
  have hself : g.contains g.lo = true :=
    CharRange.contains_iff.2 ⟨Nat.le_refl _, index_le_index.2 hle⟩
  exact ((contains_gapsFrom hstart hproper hrs g.lo).1 ⟨g, hg, hself⟩).1

theorem pairwise_gapsFrom (hproper : ∀ r ∈ rs, r.lo ≤ r.hi)
    (hrs : rs.Pairwise fun q r => q.apart r = true) :
    (gapsFrom start rs).Pairwise fun q r => q.apart r = true := by
  induction rs generalizing start with
  | nil =>
    rw [gapsFrom]
    cases CharRange.ofIndices? start Char.numCodePoints <;> simp
  | cons r rs ih =>
    rw [List.forall_mem_cons] at hproper
    obtain ⟨hapart, hrs⟩ := List.pairwise_cons.1 hrs
    have hle := index_le_index.2 hproper.1
    have hbehind : ∀ q ∈ rs, index r.hi + 1 ≤ index q.lo := fun q hq =>
      Nat.le_of_lt (CharRange.apart_iff.1 (hapart q hq))
    rw [gapsFrom]
    refine List.pairwise_append.2 ⟨?_, ih hproper.2 hrs, fun g hg k hk => ?_⟩
    · cases CharRange.ofIndices? start (index r.lo) <;> simp
    · have hg := CharRange.index_of_ofIndices? (Option.mem_toList.1 hg)
      have hk := le_index_of_mem_gapsFrom hbehind hproper.2 hrs k hk
      rw [CharRange.apart_iff]
      omega

end

theorem Canonical.complement {s : CharSet} (h : s.Canonical) : s.complement.Canonical :=
  ⟨inhabits_complement s, pairwise_gapsFrom h.inhabits h.apart⟩

theorem Canonical.contains_complement {s : CharSet} (h : s.Canonical) (c : Char) :
    s.complement.contains c = true ↔ ¬s.contains c = true := by
  simp only [contains_iff, CharSet.complement]
  rw [contains_gapsFrom (fun _ _ => Nat.zero_le _) h.inhabits h.apart]
  simp

/-! ### One form -/

/-- The ranges as edges to one state. -/
def edges (s : CharSet) : List Edge := s.ranges.map (Edge.mk · 0)

theorem lookup_edges (s : CharSet) (c : Char) :
    Edge.lookup s.edges c = if s.contains c then some 0 else none := by
  obtain ⟨rs⟩ := s
  induction rs with
  | nil => rfl
  | cons r rs ih =>
    have hcons : Edge.lookup (edges ⟨r :: rs⟩) c =
        if r.contains c then some 0 else Edge.lookup (edges ⟨rs⟩) c := Edge.lookup_cons _ _ c
    rw [hcons, ih]
    by_cases hr : r.contains c = true <;> simp [contains, hr]

theorem Canonical.normal_edges {s : CharSet} (h : s.Canonical) : Edge.Normal s.edges := by
  have hmeets : s.edges.Pairwise fun e f => index e.range.hi + 1 < index f.range.lo :=
    List.pairwise_map.2 (h.apart.imp fun hapart => CharRange.apart_iff.1 hapart)
  refine ⟨⟨fun e he => ?_, hmeets.imp fun hlt => ?_⟩, (hmeets.imp fun hlt => ?_).isChain⟩
  · obtain ⟨r, hr, rfl⟩ := List.mem_map.1 he
    exact h.inhabits r hr
  · rw [← index_lt_index]
    omega
  · rw [Bool.eq_false_iff, ne_eq, Edge.meets_iff]
    omega

/-- A set is determined by the characters in it. -/
theorem Canonical.ext {s t : CharSet} (hs : s.Canonical) (ht : t.Canonical)
    (h : ∀ c, s.contains c = true ↔ t.contains c = true) : s = t := by
  have hedges : s.edges = t.edges := by
    refine hs.normal_edges.ext ht.normal_edges fun c => ?_
    rw [lookup_edges, lookup_edges, Bool.eq_iff_iff.2 (h c)]
  obtain ⟨rs⟩ := s
  obtain ⟨qs⟩ := t
  have hranges := congrArg (List.map Edge.range) hedges
  simpa [edges, Function.comp_def] using hranges

/-- `s` is the set of the characters with `p`. -/
structure Denotes (s : CharSet) (p : Char → Prop) : Prop where
  canonical : s.Canonical
  contains_iff : ∀ c, s.contains c = true ↔ p c

theorem Denotes.unique {s t : CharSet} {p : Char → Prop} (hs : s.Denotes p) (ht : t.Denotes p) :
    s = t :=
  hs.canonical.ext ht.canonical fun c => (hs.contains_iff c).trans (ht.contains_iff c).symm

theorem Denotes.complement {s : CharSet} {p : Char → Prop} (h : s.Denotes p) :
    s.complement.Denotes fun c => ¬p c :=
  ⟨h.canonical.complement, fun c =>
    (h.canonical.contains_complement c).trans (not_congr (h.contains_iff c))⟩

/-- All characters of the sets. -/
def members (ss : List CharSet) : CharSet := ss.foldl .union .empty

theorem denotes_members (ss : List CharSet) :
    (members ss).Denotes fun c => ∃ s ∈ ss, s.contains c = true := by
  have hfold : ∀ {s : CharSet}, s.Canonical → (ss.foldl .union s).Denotes fun c =>
      s.contains c = true ∨ ∃ t ∈ ss, t.contains c = true := by
    induction ss with
    | nil =>
      intro s hs
      exact ⟨hs, by simp⟩
    | cons t ss ih =>
      intro s hs
      refine ⟨(ih (hs.union t)).canonical, fun c => ?_⟩
      rw [List.foldl_cons, (ih (hs.union t)).contains_iff, contains_union hs.inhabits, or_assoc]
      simp
  refine ⟨(hfold canonical_empty).canonical, fun c => ?_⟩
  rw [members, (hfold canonical_empty).contains_iff]
  simp [contains, empty]

end CharSet

end LexerGen
