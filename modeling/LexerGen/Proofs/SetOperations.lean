import LexerGen.Proofs.CanonicalSet

/-! The operations on sets of characters. However a set is put together, its ranges are in their one
form, and each operation gives just the characters that it should: the ones of a range, those of
either set, or all others. -/

namespace LexerGen.CharSet

open Text

/-- The sets that the constructors and the operations give. -/
inductive Made : CharSet → Prop
  | empty : Made .empty
  | singleton (c : Char) : Made (.singleton c)
  | ofRange (lo hi : Char) : Made (.ofRange lo hi)
  | ofRanges (rs : List CharRange) : Made (.ofRanges rs)
  | dot : Made .dot
  | digit : Made .digit
  | word : Made .word
  | space : Made .space
  | addChar {s : CharSet} (h : Made s) (c : Char) : Made (s.addChar c)
  | addRange {s : CharSet} (h : Made s) (lo hi : Char) : Made (s.addRange lo hi)
  | union {s t : CharSet} (hs : Made s) (ht : Made t) : Made (s.union t)
  | complement {s : CharSet} (h : Made s) : Made s.complement

theorem Made.canonical {s : CharSet} (h : s.Made) : s.Canonical := by
  induction h with
  | empty => exact canonical_empty
  | singleton c => exact canonical_empty.addRange c c
  | ofRange lo hi => exact canonical_empty.addRange lo hi
  | ofRanges rs => exact canonical_empty.union ⟨rs⟩
  | dot => exact (canonical_empty.addRange '\n' '\n').complement
  | digit => exact canonical_empty.addRange '0' '9'
  | word => exact canonical_empty.union _
  | space => exact canonical_empty.union _
  | addChar _ c ih => exact ih.addRange c c
  | addRange _ lo hi ih => exact ih.addRange lo hi
  | @union _ t _ _ ih _ => exact ih.union t
  | complement _ ih => exact ih.complement

/-! ### What a canonical list of ranges looks like -/

/-- A character lies between ranges that are apart, even where the surrogates are. -/
theorem exists_between_of_apart {q r : CharRange} (h : q.apart r = true) :
    ∃ c, q.hi < c ∧ c < r.lo := by
  have hlt := CharRange.apart_iff.1 h
  have hr := index_lt r.lo
  refine ⟨Char.ofOrdinal ⟨index q.hi + 1, by omega⟩, ?_, ?_⟩
  · rw [← index_lt_index, index_ofOrdinal]
    omega
  · rw [← index_lt_index, index_ofOrdinal]
    exact hlt

theorem Canonical.complement_complement {s : CharSet} (h : s.Canonical) :
    s.complement.complement = s := by
  refine h.complement.complement.ext h fun c => ?_
  rw [h.complement.contains_complement, h.contains_complement, not_not]

theorem Canonical.ranges_eq_iff {s t : CharSet} (hs : s.Canonical) (ht : t.Canonical) :
    s.ranges = t.ranges ↔ ∀ c, s.contains c = t.contains c := by
  constructor
  · intro h c
    rw [contains, contains, h]
  · intro h
    have heq : s = t := hs.ext ht fun c => by rw [h c]
    rw [heq]

/-- However a set was made, no range of it is empty and between each two of them lies a character
that is in neither; adding a range adds the characters from its lower to its upper end, adding a set
gives the union and the complement all other characters; and sets with the same characters have the
same ranges. -/
theorem made_canonical_exact {s : CharSet} (hs : s.Made) :
    (∀ r ∈ s.ranges, r.lo ≤ r.hi) ∧
    s.ranges.Pairwise (fun q r => ∃ c, q.hi < c ∧ c < r.lo) ∧
    (∀ lo hi c, (s.addRange lo hi).contains c = true ↔
      (lo ≤ c ∧ c ≤ hi) ∨ s.contains c = true) ∧
    (∀ d c, (s.addChar d).contains c = true ↔ c = d ∨ s.contains c = true) ∧
    (∀ t : CharSet, t.Made → ∀ c, (s.union t).contains c = true ↔
      s.contains c = true ∨ t.contains c = true) ∧
    (∀ c, s.complement.contains c = true ↔ ¬s.contains c = true) ∧
    (∀ t : CharSet, t.Made → (s.ranges = t.ranges ↔ ∀ c, s.contains c = t.contains c)) ∧
    s.complement.complement = s := by
  have hcanonical := hs.canonical
  have hrange : ∀ lo hi c, (s.addRange lo hi).contains c = true ↔
      (lo ≤ c ∧ c ≤ hi) ∨ s.contains c = true := by
    intro lo hi c
    rw [contains_addRange hcanonical.inhabits, CharRange.contains_iff, index_le_index,
      index_le_index]
  refine ⟨hcanonical.inhabits, hcanonical.apart.imp exists_between_of_apart, hrange,
    fun d c => ?_, fun t _ => contains_union hcanonical.inhabits t,
    hcanonical.contains_complement, fun t ht => hcanonical.ranges_eq_iff ht.canonical,
    hcanonical.complement_complement⟩
  rw [addChar, hrange, ← index_le_index, ← index_le_index, ← index_inj]
  apply or_congr_left
  omega

/-- The last character before the surrogates and the first one behind them are neighbours, so they
make one range. -/
theorem made_canonical_exact_gap : ∃ s : CharSet, s = (ofRange 'a' '\ud7ff').addChar '\ue000' ∧
    s.Made ∧ s.ranges = [⟨'a', '\ue000'⟩] ∧
    (∀ r ∈ s.ranges, r.lo ≤ r.hi) ∧
    s.ranges.Pairwise (fun q r => ∃ c, q.hi < c ∧ c < r.lo) ∧
    (∀ lo hi c, (s.addRange lo hi).contains c = true ↔
      (lo ≤ c ∧ c ≤ hi) ∨ s.contains c = true) ∧
    (∀ d c, (s.addChar d).contains c = true ↔ c = d ∨ s.contains c = true) ∧
    (∀ t : CharSet, t.Made → ∀ c, (s.union t).contains c = true ↔
      s.contains c = true ∨ t.contains c = true) ∧
    (∀ c, s.complement.contains c = true ↔ ¬s.contains c = true) ∧
    (∀ t : CharSet, t.Made → (s.ranges = t.ranges ↔ ∀ c, s.contains c = t.contains c)) ∧
    s.complement.complement = s := by
  have hmade : Made ((ofRange 'a' '\ud7ff').addChar '\ue000') :=
    (Made.ofRange 'a' '\ud7ff').addChar '\ue000'
  exact ⟨_, rfl, hmade, by decide, made_canonical_exact hmade⟩

end LexerGen.CharSet
