import LexerGen.CharSet

/-! Ranges of character sets. No operation on sets leaves a range without characters, so a set whose
list of ranges is not empty holds a character. -/

namespace LexerGen

open Text

theorem CharRange.index_of_ofIndices? {a b : Nat} {r : CharRange} (h : ofIndices? a b = some r) :
    index r.lo = a ∧ index r.hi + 1 = b ∧ a < b := by
  unfold ofIndices? at h
  split at h
  · rename_i hab
    obtain rfl := Option.some.inj h
    refine ⟨index_ofOrdinal _ _, ?_, hab.1⟩
    rw [index_ofOrdinal]
    omega
  · cases h

namespace CharSet

/-- No range of the set is empty. -/
def Inhabits (s : CharSet) : Prop := ∀ r ∈ s.ranges, r.lo ≤ r.hi

theorem inhabits_empty : empty.Inhabits := by
  intro r hr
  cases hr

theorem exists_contains {s : CharSet} (h : s.Inhabits) (hne : s.isEmpty = false) :
    ∃ c, s.contains c = true := by
  obtain ⟨ranges⟩ := s
  cases ranges with
  | nil => simp [isEmpty] at hne
  | cons r rest =>
    have hr := h r List.mem_cons_self
    exact ⟨r.lo, by simp [contains, CharRange.contains, hr]⟩

theorem le_of_mem_insertRange {r : CharRange} {rs : List CharRange} (hr : r.lo ≤ r.hi)
    (hrs : ∀ s ∈ rs, s.lo ≤ s.hi) : ∀ s ∈ insertRange r rs, s.lo ≤ s.hi := by
  fun_induction insertRange r rs with
  | case1 r => simpa using hr
  | case2 r s rest hapart => simpa using ⟨hr, by simpa using hrs⟩
  | case3 r s rest _ _ ih =>
    rw [List.forall_mem_cons] at hrs
    exact List.forall_mem_cons.2 ⟨hrs.1, ih hr hrs.2⟩
  | case4 r s rest _ _ ih =>
    rw [List.forall_mem_cons] at hrs
    refine ih ?_ hrs.2
    have hs := hrs.1
    simp only
    split <;> split
    · exact hs
    · rename_i h₁ h₂
      exact Char.le_trans hs (Char.not_lt.1 h₂)
    · rename_i h₁ h₂
      exact Char.le_trans (Char.not_lt.1 h₁) hs
    · exact hr

theorem Inhabits.addRange {s : CharSet} (h : s.Inhabits) (lo hi : Char) :
    (s.addRange lo hi).Inhabits := by
  unfold CharSet.addRange
  split
  · rename_i hle
    exact le_of_mem_insertRange hle h
  · exact h

theorem Inhabits.union {s : CharSet} (h : s.Inhabits) (t : CharSet) : (s.union t).Inhabits := by
  unfold CharSet.union
  generalize t.ranges = rs
  induction rs generalizing s with
  | nil => exact h
  | cons r rs ih => exact ih (h.addRange r.lo r.hi)

theorem le_of_ofIndices? {a b : Nat} {r : CharRange} (h : CharRange.ofIndices? a b = some r) :
    r.lo ≤ r.hi := by
  have := CharRange.index_of_ofIndices? h
  rw [← index_le_index]
  omega

theorem inhabits_gapsFrom (start : Nat) (rs : List CharRange) :
    ∀ r ∈ gapsFrom start rs, r.lo ≤ r.hi := by
  induction rs generalizing start with
  | nil =>
    intro r hr
    exact le_of_ofIndices? (Option.mem_toList.1 hr)
  | cons q rs ih =>
    intro r hr
    rcases List.mem_append.1 hr with hr | hr
    · exact le_of_ofIndices? (Option.mem_toList.1 hr)
    · exact ih _ r hr

theorem inhabits_complement (s : CharSet) : s.complement.Inhabits := inhabits_gapsFrom 0 s.ranges

theorem contains_singleton (c : Char) : (singleton c).contains c = true := by
  simp [singleton, ofRange, addRange, empty, insertRange, contains, CharRange.contains]

theorem isEmpty_of_contains {s : CharSet} {c : Char} (h : s.contains c = true) :
    s.isEmpty = false := by
  obtain ⟨ranges⟩ := s
  cases ranges with
  | nil => cases h
  | cons r rest => rfl

theorem ranges_ofRange {lo hi : Char} (h : lo ≤ hi) : (ofRange lo hi).ranges = [⟨lo, hi⟩] := by
  simp [ofRange, addRange, h, empty, insertRange]

theorem single?_eq_some_iff {s : CharSet} {c : Char} : s.single? = some c ↔ s = .singleton c := by
  constructor
  · intro h
    unfold single? at h
    split at h
    · rename_i r hr
      split at h
      · rename_i heq
        obtain rfl := Option.some.inj h
        obtain ⟨ranges⟩ := s
        obtain ⟨lo, hi⟩ := r
        obtain rfl : lo = hi := heq
        rw [show ranges = [⟨lo, lo⟩] from hr, ← ranges_ofRange (Char.le_refl lo)]
        rfl
      · cases h
    · cases h
  · rintro rfl
    simp [single?, singleton, ranges_ofRange (Char.le_refl c)]

theorem union_ofRange (s : CharSet) {lo hi : Char} (h : lo ≤ hi) :
    s.union (.ofRange lo hi) = s.addRange lo hi := by
  rw [union, ranges_ofRange h, List.foldl_cons, List.foldl_nil]

theorem union_singleton (s : CharSet) (c : Char) : s.union (.singleton c) = s.addChar c :=
  union_ofRange s (Char.le_refl c)

end CharSet

end LexerGen
