import LexerGen.Regex.Basic
import Mathlib.Computability.Language

/-! The language of a regular expression. An expression that can be written has a text in its
language: no set of characters is empty, no alternation is without branches and no least count is
above the greatest one. -/

namespace LexerGen.Regex

/-- The counts that a repeat with the given bounds allows. -/
def Allowed (min : Nat) (max : Option Nat) (k : Nat) : Prop := min ≤ k ∧ ∀ m, max = some m → k ≤ m

mutual

/-- The texts that an expression matches. -/
def language : Regex → Language Char
  | .set chars => {w | ∃ c, chars.contains c = true ∧ w = [c]}
  | .concat items => languageOfItems items
  | .alternate branches => languageOfBranches branches
  | .repeated body min max _ => {w | ∃ k, Allowed min max k ∧ w ∈ body.language ^ k}

def languageOfItems : List Regex → Language Char
  | [] => 1
  | item :: items => item.language * languageOfItems items

def languageOfBranches : List Regex → Language Char
  | [] => 0
  | branch :: branches => branch.language + languageOfBranches branches

end

theorem language_star (r : Regex) (pos : Nat) :
    (Regex.repeated r 0 none pos).language = KStar.kstar r.language := by
  rw [Language.kstar_eq_iSup_pow]
  ext w
  rw [language, Language.mem_iSup]
  constructor
  · rintro ⟨k, -, hk⟩
    exact ⟨k, hk⟩
  · rintro ⟨k, hk⟩
    exact ⟨k, ⟨Nat.zero_le k, by simp⟩, hk⟩

mutual

/-- Every part of the expression can be matched. -/
def Proper : Regex → Prop
  | .set chars => ∃ c, chars.contains c = true
  | .concat items => ProperAll items
  | .alternate branches => branches ≠ [] ∧ ProperAll branches
  | .repeated body min max _ => body.Proper ∧ ∀ m, max = some m → min ≤ m

def ProperAll : List Regex → Prop
  | [] => True
  | r :: rs => r.Proper ∧ ProperAll rs

end

theorem properAll_iff {rs : List Regex} : ProperAll rs ↔ ∀ r ∈ rs, r.Proper := by
  induction rs with
  | nil => simp [ProperAll]
  | cons r rs ih => simp [ProperAll, ih]

theorem exists_mem_pow {L : Language Char} (h : ∃ w, w ∈ L) (n : Nat) : ∃ w, w ∈ L ^ n := by
  obtain ⟨w, hw⟩ := h
  induction n with
  | zero => exact ⟨[], by simp⟩
  | succ n ih =>
    obtain ⟨v, hv⟩ := ih
    exact ⟨v ++ w, by rw [pow_succ]; exact Language.append_mem_mul hv hw⟩

mutual

theorem Proper.exists_mem : ∀ {r : Regex}, r.Proper → ∃ w, w ∈ r.language
  | .set _, h => by
    rw [Proper] at h
    obtain ⟨c, hc⟩ := h
    exact ⟨[c], by rw [language]; exact ⟨c, hc, rfl⟩⟩
  | .concat _, h => by
    rw [Proper] at h
    rw [language]
    exact exists_mem_items h
  | .alternate branches, h => by
    rw [Proper] at h
    rw [language]
    exact exists_mem_branches h.1 h.2
  | .repeated _ min _ _, h => by
    rw [Proper] at h
    obtain ⟨w, hw⟩ := exists_mem_pow h.1.exists_mem min
    refine ⟨w, ?_⟩
    rw [language]
    exact ⟨min, ⟨Nat.le_refl _, h.2⟩, hw⟩

theorem exists_mem_items : ∀ {items : List Regex}, ProperAll items →
    ∃ w, w ∈ languageOfItems items
  | [], _ => ⟨[], by simp [languageOfItems]⟩
  | _ :: _, h => by
    rw [ProperAll] at h
    obtain ⟨v, hv⟩ := h.1.exists_mem
    obtain ⟨w, hw⟩ := exists_mem_items h.2
    rw [languageOfItems]
    exact ⟨v ++ w, Language.append_mem_mul hv hw⟩

theorem exists_mem_branches : ∀ {branches : List Regex}, branches ≠ [] → ProperAll branches →
    ∃ w, w ∈ languageOfBranches branches
  | [], hne, _ => absurd rfl hne
  | _ :: _, _, h => by
    rw [ProperAll] at h
    obtain ⟨w, hw⟩ := h.1.exists_mem
    rw [languageOfBranches]
    exact ⟨w, Or.inl hw⟩

end

end LexerGen.Regex
