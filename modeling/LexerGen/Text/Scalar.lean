/-! Scalar values. The surrogate block holds no characters, so code points have a gap; the index of
a character counts characters only, and neighbours have neighbouring indices. -/

namespace LexerGen.Text

/-- The character with code point `n`, if there is one. -/
def scalar? (n : Nat) : Option Char :=
  if h : n.isValidChar then some (Char.ofNatAux n h) else none

theorem scalar?_toNat (c : Char) : scalar? c.toNat = some c := by
  have hvalid : c.toNat.isValidChar := c.valid
  rw [scalar?, dif_pos hvalid]
  rfl

theorem scalar?_eq_some_iff {n : Nat} {c : Char} : scalar? n = some c ↔ c.toNat = n := by
  constructor
  · intro h
    by_cases hvalid : n.isValidChar
    · rw [scalar?, dif_pos hvalid] at h
      obtain rfl := Option.some.inj h
      rfl
    · rw [scalar?, dif_neg hvalid] at h
      cases h
  · rintro rfl
    exact scalar?_toNat c

/-- The number of characters below `c`. -/
def index (c : Char) : Nat := c.ordinal.val

theorem index_lt (c : Char) : index c < Char.numCodePoints := c.ordinal.isLt

theorem index_inj {c d : Char} : index c = index d ↔ c = d := by
  rw [index, index, ← Fin.ext_iff, Char.ordinal_inj]

theorem index_le_index {c d : Char} : index c ≤ index d ↔ c ≤ d :=
  Char.le_iff_ordinal_le.symm

theorem index_lt_index {c d : Char} : index c < index d ↔ c < d := by
  rw [← Nat.not_le, index_le_index, Char.not_le]

@[simp] theorem index_ofOrdinal (n : Nat) (h : n < Char.numCodePoints) :
    index (Char.ofOrdinal ⟨n, h⟩) = n := by
  rw [index, Char.ordinal_ofOrdinal]

end LexerGen.Text
