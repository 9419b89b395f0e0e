import LexerGen.Proofs.Nfa.Between
import LexerGen.Proofs.Regex.Derivation

/-! How many states a pattern can expand to. Every copy that a counted repeat makes is followed by a
check, so whatever was built before the last check is within the limit, and only what is built
behind it can exceed it. Behind the last check no part of the pattern is built twice, and each of
its characters accounts for at most three states. -/

namespace LexerGen

namespace Regex

open Grammar

mutual

/-- How many states building an expression adds at most behind the last check. -/
def unchecked : Regex → Nat
  | .set _ => 1
  | .concat items => uncheckedOfAll items
  | .alternate branches => uncheckedOfAll branches + branches.length + 1
  | .repeated body _ none _ => body.unchecked + 1
  | .repeated _ _ (some _) _ => 1

def uncheckedOfAll : List Regex → Nat
  | [] => 0
  | r :: rs => r.unchecked + uncheckedOfAll rs

end

theorem uncheckedOfAll_append (rs qs : List Regex) :
    uncheckedOfAll (rs ++ qs) = uncheckedOfAll rs + uncheckedOfAll qs := by
  induction rs with
  | nil => simp [uncheckedOfAll]
  | cons r rs ih => rw [List.cons_append, uncheckedOfAll, uncheckedOfAll, ih, Nat.add_assoc]

theorem uncheckedOfAll_singleton (r : Regex) : uncheckedOfAll [r] = r.unchecked := by
  simp [uncheckedOfAll]

theorem unchecked_repeated_le (body : Regex) (min : Nat) (max : Option Nat) (pos : Nat) :
    (Regex.repeated body min max pos).unchecked ≤ body.unchecked + 1 := by
  cases max with
  | none => rw [unchecked]
  | some m =>
    rw [unchecked]
    omega

theorem unchecked_concatOf (rs : List Regex) : (concatOf rs).unchecked = uncheckedOfAll rs := by
  unfold concatOf
  split
  · rw [uncheckedOfAll_singleton]
  · rw [unchecked]

/-- A bar pays for the state that its branch starts with, and the bars of an alternation for its
first branch and its exit as well. -/
theorem unchecked_alternateOf_le {rs : List Regex} (h : rs ≠ []) :
    (alternateOf rs).unchecked + 3 ≤ uncheckedOfAll rs + 3 * rs.length := by
  unfold alternateOf
  split
  · rw [uncheckedOfAll_singleton, List.length_singleton]
  · rename_i hne
    have hlength : 2 ≤ rs.length := by
      rcases rs with _ | ⟨r, _ | ⟨q, rs⟩⟩
      · exact absurd rfl h
      · exact absurd rfl (hne r)
      · simp only [List.length_cons]
        omega
    rw [unchecked]
    omega

/-! ### Expressions of the grammar -/

theorem Grammar.SetText.length_pos {t : List Char} {s : CharSet} (h : SetText t s) :
    0 < t.length := List.length_pos_iff.2 h.ne_nil

theorem Grammar.Alternation.ne_nil {room pos k : Nat} {t : List Char} {bs : List Regex}
    (h : Alternation room pos t k bs) : bs ≠ [] := by
  cases h <;> simp

mutual

theorem Grammar.Atom.unchecked_le {room pos k : Nat} {t : List Char} {r : Regex} :
    Atom room pos t k r → r.unchecked ≤ 3 * t.length
  | .set h => by
    have := h.length_pos
    rw [unchecked]
    omega
  | .group h => by
    have hbranches := h.unchecked_le
    have halternate := unchecked_alternateOf_le h.ne_nil
    simp only [List.length_cons, List.length_append]
    omega

theorem Grammar.Repeat.unchecked_le {room pos k : Nat} {q : Bool} {t : List Char} {r : Regex} :
    Repeat room pos t k q r → r.unchecked ≤ 3 * t.length
  | .atom h => h.unchecked_le
  | @Repeat.quantifier _ pos _ t _ _ r b h hu => by
    have hbody := h.unchecked_le
    have hrepeated := unchecked_repeated_le r b.min b.max (pos + Text.byteLength t)
    have hsign := List.length_pos_iff.2 hu.ne_nil
    rw [List.length_append]
    omega

theorem Grammar.Concat.unchecked_le {room pos k : Nat} {t : List Char} {rs : List Regex} :
    Concat room pos t k rs → uncheckedOfAll rs ≤ 3 * t.length
  | .one h => by
    rw [uncheckedOfAll_singleton]
    exact h.unchecked_le
  | .more h hr => by
    have hitems := h.unchecked_le
    have hlast := hr.unchecked_le
    rw [uncheckedOfAll_append, uncheckedOfAll_singleton, List.length_append]
    omega

theorem Grammar.Alternation.unchecked_le {room pos k : Nat} {t : List Char} {bs : List Regex} :
    Alternation room pos t k bs → uncheckedOfAll bs + 3 * bs.length ≤ 3 * t.length + 3
  | .one h => by
    have := h.unchecked_le
    rw [uncheckedOfAll_singleton, unchecked_concatOf, List.length_singleton]
    omega
  | .more h hu => by
    have hbefore := h.unchecked_le
    have hlast := hu.unchecked_le
    rw [uncheckedOfAll_append, uncheckedOfAll_singleton, unchecked_concatOf]
    simp only [List.length_append, List.length_cons, List.length_nil]
    omega

end

theorem Grammar.Derives.unchecked_le {cs : List Char} {r : Regex} (h : Derives cs r) :
    r.unchecked ≤ 3 * cs.length := by
  obtain ⟨stacked, bs, halternation, -, rfl⟩ := h
  have hbranches := halternation.unchecked_le
  have halternate := unchecked_alternateOf_le halternation.ne_nil
  omega

end Regex

/-! ### Building -/

namespace Nfa

/-- What `body` builds exceeds the limit, or the states that were there before, by at most `n`. -/
def ExceedsBy (n : Nat) (body : Build) : Prop :=
  ∀ ⦃entry : Nat⦄ ⦃states : States⦄ ⦃exit : Nat⦄ ⦃states' : States⦄,
    body entry states = .ok (exit, states') →
      states'.size ≤ max states.size Limits.maxNfaStates + n

theorem States.size_le_of_checkSize {states : States} {pos : Nat} {u : Unit}
    (h : states.checkSize pos = .ok u) : states.size ≤ Limits.maxNfaStates := by
  unfold checkSize at h
  split at h
  · cases h
  · exact Nat.le_of_not_lt (by assumption)

section

variable (body : Build) (pos : Nat)

/-- Whatever is copied, behind every copy there is a check. -/
theorem exceedsBy_copies (n : Nat) : ExceedsBy 0 (copies body pos n) := by
  induction n with
  | zero =>
    intro entry states exit states' h
    obtain ⟨rfl, rfl⟩ := Prod.mk.inj (Except.ok.inj h)
    omega
  | succ n ih =>
    intro entry states exit states' h
    rw [copies] at h
    split at h
    · cases h
    · rename_i next states₁ h₁
      split at h
      · cases h
      · rename_i hcheck
        have hlimit := States.size_le_of_checkSize hcheck
        have hrest := ih h
        omega

/-- That a copy can be left out is one more edge before it. -/
theorem optionalCopies_eq_copies (exit n : Nat) :
    optionalCopies body pos exit n =
      copies (fun entry states => body entry (states.addEpsilon entry exit)) pos n := by
  induction n with
  | zero => rfl
  | succ n ih =>
    funext entry states
    rw [optionalCopies, copies, ih]

theorem exceedsBy_optionalCopies (exit n : Nat) :
    ExceedsBy 0 (optionalCopies body pos exit n) := by
  rw [optionalCopies_eq_copies]
  exact exceedsBy_copies _ pos n

end

mutual

theorem exceedsBy_build : ∀ r : Regex, ExceedsBy r.unchecked (build r)
  | .set chars, entry, states, exit, states', h => by
    rw [build] at h
    obtain ⟨rfl, rfl⟩ := Prod.mk.inj (Except.ok.inj h)
    rw [States.size_addSet, States.size_addState, Regex.unchecked]
    omega
  | .concat items, entry, states, exit, states', h => by
    rw [build] at h
    rw [Regex.unchecked]
    exact exceedsBy_buildItems items h
  | .alternate branches, entry, states, exit, states', h => by
    rw [build] at h
    split at h
    · cases h
    · rename_i states₁ h₁
      obtain ⟨rfl, rfl⟩ := Prod.mk.inj (Except.ok.inj h)
      have hbranches := size_buildBranches_le branches h₁
      rw [States.size_addState] at hbranches
      rw [Regex.unchecked]
      omega
  | .repeated body min max pos, entry, states, exit, states', h => by
    rw [build] at h
    split at h
    · cases h
    · rename_i current states₁ h₁
      have hcopies := exceedsBy_copies (build body) pos min h₁
      cases max with
      | none =>
        simp only at h
        split at h
        · cases h
        · rename_i last states₂ h₂
          obtain ⟨rfl, rfl⟩ := Prod.mk.inj (Except.ok.inj h)
          have hloop := exceedsBy_build body h₂
          rw [States.size_addEpsilon, States.size_addState] at hloop
          rw [States.size_addEpsilon, Regex.unchecked]
          omega
      | some max =>
        simp only at h
        split at h
        · cases h
        · rename_i last states₂ h₂
          obtain ⟨rfl, rfl⟩ := Prod.mk.inj (Except.ok.inj h)
          have hoptional := exceedsBy_optionalCopies (build body) pos _ _ h₂
          rw [States.size_addState] at hoptional
          rw [States.size_addEpsilon, Regex.unchecked]
          omega

theorem exceedsBy_buildItems : ∀ items : List Regex,
    ExceedsBy (Regex.uncheckedOfAll items) (buildItems items)
  | [], entry, states, exit, states', h => by
    rw [buildItems] at h
    obtain ⟨rfl, rfl⟩ := Prod.mk.inj (Except.ok.inj h)
    omega
  | item :: items, entry, states, exit, states', h => by
    rw [buildItems] at h
    split at h
    · cases h
    · rename_i next states₁ h₁
      have hitem := exceedsBy_build item h₁
      have hrest := exceedsBy_buildItems items h
      rw [Regex.uncheckedOfAll]
      omega

theorem size_buildBranches_le : ∀ (branches : List Regex) {exit entry : Nat}
    {states states' : States}, buildBranches exit branches entry states = .ok states' →
    states'.size ≤
      max states.size Limits.maxNfaStates + Regex.uncheckedOfAll branches + branches.length
  | [], exit, entry, states, states', h => by
    rw [buildBranches] at h
    obtain rfl := Except.ok.inj h
    omega
  | branch :: branches, exit, entry, states, states', h => by
    rw [buildBranches] at h
    split at h
    · cases h
    · rename_i last states₁ h₁
      have hbranch := exceedsBy_build branch h₁
      have hrest := size_buildBranches_le branches h
      rw [States.size_addEpsilon, States.size_addState] at hbranch
      rw [States.size_addEpsilon] at hrest
      rw [Regex.uncheckedOfAll, List.length_cons]
      omega

end

/-- Whatever repeats are nested in a pattern, its states exceed the limit by no more than its length
accounts for. -/
theorem Fragment.size_compile_le {cs : List Char} {f : Fragment}
    (h : Fragment.compile cs = .ok f) : f.size ≤ Limits.maxNfaStates + 3 * cs.length := by
  unfold Fragment.compile at h
  split at h
  · cases h
  · rename_i r hparse
    unfold Fragment.ofRegex at h
    split at h
    · cases h
    · rename_i exit states hbuild
      obtain rfl := Except.ok.inj h
      have hunchecked := (Regex.derives_of_parse hparse).unchecked_le
      have hsize := exceedsBy_build r hbuild
      have hstart : (#[{}] : States).size ≤ Limits.maxNfaStates := by decide
      rw [Fragment.size, Array.size_modify]
      omega

/-- Each `+` builds its body twice. -/
theorem Fragment.size_compile_le_plus :
    ∃ f, Fragment.compile "(((a|b)+)+)+".toList = .ok f ∧ f.size = 48 ∧
      f.size ≤ Limits.maxNfaStates + 3 * "(((a|b)+)+)+".toList.length := by
  have hsize : (Fragment.compile "(((a|b)+)+)+".toList).map Fragment.size = .ok 48 := by
    decide +kernel
  cases hcompile : Fragment.compile "(((a|b)+)+)+".toList with
  | error e =>
    rw [hcompile] at hsize
    cases hsize
  | ok f =>
    rw [hcompile] at hsize
    exact ⟨f, rfl, Except.ok.inj hsize, Fragment.size_compile_le hcompile⟩

end Nfa

end LexerGen
