import LexerGen.Proofs.Nfa.Between
import LexerGen.Proofs.Regex.Proper

/-! The construction of fragments. Building an expression from an entry state on changes nothing
between the states that are there, and to its exit it adds the texts to the entry followed by a text
of the expression. Alternatives and optional copies are gathered in a new state that nothing
leaves. -/

namespace LexerGen.Nfa

open Regex (Error)
open scoped Computability

/-- What building does: `states'` extends `states` by states between `entry` and `exit` with the
texts of `L`. -/
structure Grows (states states' : States) (entry exit : Nat) (L : Language Char) : Prop where
  size_le : states.size ≤ states'.size
  closed : Closed states'
  exit_lt : exit < states'.size
  exit_cases : exit = entry ∨ states.size ≤ exit
  frame : ∀ n < states.size, n ≠ entry → states'.state n = states.state n
  accept : ∀ n, (states'.state n).accept = (states.state n).accept
  old : ∀ n < states.size, ∀ k < states.size, between states' n k = between states n k
  exit_eq : ∀ n < states.size, between states' n exit = between states n entry * L

namespace Grows

theorem refl {states : States} (h : Closed states) {entry : Nat} (he : entry < states.size) :
    Grows states states entry entry 1 :=
  ⟨Nat.le_refl _, h, he, .inl rfl, fun _ _ _ => rfl, fun _ => rfl, fun _ _ _ _ => rfl,
    fun _ _ => (mul_one _).symm⟩

theorem trans {s₁ s₂ s₃ : States} {a b c : Nat} {L M : Language Char} (h₁ : Grows s₁ s₂ a b L)
    (h₂ : Grows s₂ s₃ b c M) : Grows s₁ s₃ a c (L * M) := by
  have hle := h₁.size_le
  refine ⟨Nat.le_trans hle h₂.size_le, h₂.closed, h₂.exit_lt, ?_, fun n hn hna => ?_, fun n => ?_,
    fun n hn k hk => ?_, fun n hn => ?_⟩
  · have h := h₂.exit_cases
    have h' := h₁.exit_cases
    omega
  · have hnb : n ≠ b := by
      have h := h₁.exit_cases
      omega
    rw [h₂.frame n (by omega) hnb, h₁.frame n hn hna]
  · rw [h₂.accept, h₁.accept]
  · rw [h₂.old n (by omega) k (by omega), h₁.old n hn k hk]
  · rw [h₂.exit_eq n (by omega), h₁.exit_eq n hn, mul_assoc]

/-- A way from `entry` to a new state. -/
theorem of_adds {states states' : States} (h : Closed states) {entry : Nat}
    (he : entry < states.size) {T : Language Char}
    (hsize : states'.size = states.size + 1) (hclosed : Closed states')
    (hadds : Adds states.addState states' entry T states.size)
    (hframe : ∀ n, n ≠ entry → states'.state n = states.state n)
    (haccept : ∀ n, (states'.state n).accept = (states.state n).accept) :
    Grows states states' entry states.size T := by
  have hsink : states.addState.state states.size = {} := by
    rw [States.state_addState, States.state_of_le (Nat.le_refl _)]
  refine ⟨by omega, hclosed, by omega, .inr (Nat.le_refl _), fun n _ => hframe n, haccept,
    fun n hn k hk => ?_, fun n hn => ?_⟩
  · rw [hadds.between_of_ne_sink hsink n (Nat.ne_of_gt hk), between_addState]
  · rw [hadds.between_sink hsink (Nat.ne_of_gt he), between_addState,
      h.between_eq_zero hn (Nat.le_refl _), zero_add]

theorem addEpsilon {states : States} (h : Closed states) {entry : Nat} (he : entry < states.size) :
    Grows states (states.addState.addEpsilon entry states.size) entry states.size 1 := by
  have he' : entry < states.addState.size := by
    rw [States.size_addState]
    omega
  refine of_adds h he (by simp) (h.addState.addEpsilon he' _ (by simp)) (adds_addEpsilon he' _)
    (fun n hn => ?_) fun n => ?_
  · rw [States.state_addEpsilon_of_ne he' _ hn, States.state_addState]
  · rw [States.accept_addEpsilon he', States.state_addState]

theorem addSet {states : States} (h : Closed states) {entry : Nat} (he : entry < states.size)
    (chars : CharSet) :
    Grows states (states.addState.addSet entry chars states.size) entry states.size
      (Regex.set chars).language := by
  have he' : entry < states.addState.size := by
    rw [States.size_addState]
    omega
  rw [Regex.language]
  refine of_adds h he (by simp) (h.addState.addSet he' _ chars (by simp)) (adds_addSet he' _ chars)
    (fun n hn => ?_) fun n => ?_
  · rw [States.state_addSet_of_ne he' _ chars hn, States.state_addState]
  · rw [States.accept_addSet he', States.state_addState]

/-- A loop behind `entry`: a new head, and a way from the head back to itself. -/
theorem loop {s₁ s₂ s₃ : States} {entry last : Nat} {L : Language Char}
    (h₁ : Grows s₁ s₂ entry s₁.size 1) (hsink : s₂.state s₁.size = {})
    (h₂ : Grows s₂ s₃ s₁.size last L) :
    Grows s₁ (s₃.addEpsilon last s₁.size) entry s₁.size L∗ := by
  have hlast := h₂.exit_lt
  have hhead := h₁.exit_lt
  have hle := h₂.size_le
  have hadds := adds_addEpsilon hlast s₁.size
  refine ⟨by simp; omega, h₂.closed.addEpsilon hlast _ (by omega), by simp; omega,
    .inr (Nat.le_refl _), fun n hn hne => ?_, fun n => ?_, fun n hn k hk => ?_, fun n hn => ?_⟩
  · have hne' : n ≠ last := by
      have := h₂.exit_cases
      omega
    rw [States.state_addEpsilon_of_ne hlast _ hne', h₂.frame n (by omega) (by omega),
      h₁.frame n hn hne]
  · rw [States.accept_addEpsilon hlast, h₂.accept, h₁.accept]
  · -- The loop can be left only by its head.
    have hleave : between s₃ s₁.size k = 0 := by
      rw [h₂.old s₁.size hhead k (by omega), between_of_sink hsink, if_neg (by omega)]
    rw [hadds.between_eq, hleave, mul_zero, add_zero, h₂.old n (by omega) k (by omega),
      h₁.old n hn k hk]
  · have hself : between s₂ s₁.size s₁.size = 1 := by rw [between_of_sink hsink, if_pos rfl]
    rw [hadds.between_eq, h₂.old n (by omega) _ hhead, h₂.exit_eq n (by omega),
      h₂.exit_eq _ hhead, h₂.old _ hhead _ hhead, hself, h₁.exit_eq n hn]
    simp only [one_mul, mul_one]
    rw [mul_assoc, ← mul_one_add, one_add_mul_kstar]

end Grows

/-! ### Gathering -/

/-- The states between `entry` and the sink right behind `base`, where the texts of `K` are
gathered so far. -/
structure Gathers (base states : States) (entry : Nat) (K : Language Char) : Prop where
  size_lt : base.size < states.size
  closed : Closed states
  sink : states.state base.size = {}
  frame : ∀ n < base.size, n ≠ entry → states.state n = base.state n
  accept : ∀ n, (states.state n).accept = (base.state n).accept
  old : ∀ n < base.size, ∀ k < base.size, between states n k = between base n k
  gathered : ∀ n < base.size, between states n base.size = between base n entry * K

/-- The texts from `entry` to `current`, a state that is not the sink. -/
structure Gathers.At (base states : States) (entry current : Nat) (M : Language Char) : Prop where
  lt : current < states.size
  cases : current = entry ∨ base.size < current
  eq : ∀ n < base.size, between states n current = between base n entry * M

namespace Gathers

theorem start {base : States} (h : Closed base) (entry : Nat) :
    Gathers base base.addState entry 0 := by
  refine ⟨by simp, h.addState, ?_, fun n _ _ => States.state_addState base n, fun n => ?_,
    fun n _ k _ => ?_, fun n hn => ?_⟩
  · rw [States.state_addState, States.state_of_le (Nat.le_refl _)]
  · rw [States.state_addState]
  · rw [between_addState]
  · rw [between_addState, h.between_eq_zero hn (Nat.le_refl _), mul_zero]

theorem at_entry {base states : States} {entry : Nat} {K : Language Char} (he : entry < base.size)
    (h : Gathers base states entry K) : At base states entry entry 1 :=
  ⟨Nat.lt_trans he h.size_lt, .inl rfl, fun n hn => by rw [h.old n hn entry he, mul_one]⟩

theorem At.ne {base states : States} {entry current : Nat} {M : Language Char}
    (he : entry < base.size) (hc : At base states entry current M) : base.size ≠ current := by
  have := hc.cases
  omega

variable {base states states' : States} {entry current next : Nat} {K L M : Language Char}
  (he : entry < base.size) (h : Gathers base states entry K) (hc : At base states entry current M)
include he h hc

/-- The texts to `current` are gathered too. -/
theorem addEpsilon : Gathers base (states.addEpsilon current base.size) entry (K + M) := by
  have hadds := adds_addEpsilon hc.lt base.size
  have hne := hc.ne he
  refine ⟨by simpa using h.size_lt, h.closed.addEpsilon hc.lt _ h.size_lt, ?_, fun n hn hne' => ?_,
    fun n => ?_, fun n hn k hk => ?_, fun n hn => ?_⟩
  · rw [States.state_addEpsilon_of_ne hc.lt _ hne, h.sink]
  · have hn' : n ≠ current := by
      have := hc.cases
      omega
    rw [States.state_addEpsilon_of_ne hc.lt _ hn', h.frame n hn hne']
  · rw [States.accept_addEpsilon hc.lt, h.accept]
  · rw [hadds.between_of_ne_sink h.sink n (by omega), h.old n hn k hk]
  · rw [hadds.between_sink h.sink hne, h.gathered n hn, hc.eq n hn, mul_one, ← mul_add]

theorem at_addEpsilon : At base (states.addEpsilon current base.size) entry current M := by
  have hadds := adds_addEpsilon hc.lt base.size
  refine ⟨by simpa using hc.lt, hc.cases, fun n hn => ?_⟩
  rw [hadds.between_of_ne_sink h.sink n (hc.ne he), hc.eq n hn]

/-- Building goes on behind `current`. -/
theorem grow (hg : Grows states states' current next L) : Gathers base states' entry K := by
  have hlt := h.size_lt
  have hcases := hc.cases
  refine ⟨Nat.lt_of_lt_of_le hlt hg.size_le, hg.closed, ?_, fun n hn hne => ?_, fun n => ?_,
    fun n hn k hk => ?_, fun n hn => ?_⟩
  · rw [hg.frame _ hlt (hc.ne he), h.sink]
  · rw [hg.frame n (by omega) (by omega), h.frame n hn hne]
  · rw [hg.accept, h.accept]
  · rw [hg.old n (by omega) k (by omega), h.old n hn k hk]
  · rw [hg.old n (by omega) _ hlt, h.gathered n hn]

theorem at_grow (hg : Grows states states' current next L) :
    At base states' entry next (M * L) := by
  have hlt := h.size_lt
  have hcases := hc.cases
  have hcases' := hg.exit_cases
  refine ⟨hg.exit_lt, by omega, fun n hn => ?_⟩
  rw [hg.exit_eq n (by omega), hc.eq n hn, mul_assoc]

omit hc he in
theorem grows : Grows base states entry base.size K :=
  ⟨Nat.le_of_lt h.size_lt, h.closed, h.size_lt, .inr (Nat.le_refl _), h.frame, h.accept, h.old,
    h.gathered⟩

end Gathers

/-! ### Copies -/

/-- The texts of fewer than `n` texts of `L`. -/
def fewer (L : Language Char) (n : Nat) : Language Char := {w | ∃ j < n, w ∈ L ^ j}

theorem fewer_succ (L : Language Char) (n : Nat) : fewer L (n + 1) = fewer L n + L ^ n := by
  apply Language.ext
  intro w
  constructor
  · rintro ⟨j, hj, hw⟩
    rcases Nat.lt_or_eq_of_le (Nat.le_of_lt_succ hj) with hj | rfl
    · exact .inl ⟨j, hj, hw⟩
    · exact .inr hw
  · rintro (⟨j, hj, hw⟩ | hw)
    · exact ⟨j, by omega, hw⟩
    · exact ⟨n, Nat.lt_succ_self n, hw⟩

theorem fewer_zero (L : Language Char) : fewer L 0 = 0 := by
  apply Language.ext
  intro w
  exact iff_of_false (fun ⟨j, hj, _⟩ => by omega) (Language.notMem_zero w)

/-- `body` builds the language `L` wherever it starts. -/
def Builds (body : Build) (L : Language Char) : Prop :=
  ∀ (states : States) (entry exit : Nat) (states' : States), Closed states → entry < states.size →
    body entry states = .ok (exit, states') → Grows states states' entry exit L

section

variable {body : Build} {L : Language Char} (hbody : Builds body L) {pos : Nat}
include hbody

theorem builds_copies (n : Nat) : Builds (copies body pos n) (L ^ n) := by
  induction n with
  | zero =>
    intro states entry exit states' hclosed he h
    obtain ⟨rfl, rfl⟩ := Prod.mk.inj (Except.ok.inj h)
    rw [pow_zero]
    exact Grows.refl hclosed he
  | succ n ih =>
    intro states entry exit states' hclosed he h
    rw [copies] at h
    split at h
    · cases h
    · rename_i next states₁ h₁
      split at h
      · cases h
      · have hg := hbody _ _ _ _ hclosed he h₁
        rw [pow_succ']
        exact hg.trans (ih _ _ _ _ hg.closed hg.exit_lt h)

theorem gathers_optionalCopies {base : States} {entry : Nat} (he : entry < base.size) (n k : Nat)
    {states states' : States} {current last : Nat}
    (hg : Gathers base states entry (fewer L k))
    (hc : Gathers.At base states entry current (L ^ k))
    (h : optionalCopies body pos base.size n current states = .ok (last, states')) :
    Gathers base states' entry (fewer L (k + n)) ∧
      Gathers.At base states' entry last (L ^ (k + n)) := by
  induction n generalizing k states current with
  | zero =>
    obtain ⟨rfl, rfl⟩ := Prod.mk.inj (Except.ok.inj h)
    exact ⟨hg, hc⟩
  | succ n ih =>
    rw [optionalCopies] at h
    split at h
    · cases h
    · rename_i next states₁ h₁
      split at h
      · cases h
      · have hg₁ := hg.addEpsilon he hc
        have hc₁ := hg.at_addEpsilon he hc
        rw [← fewer_succ] at hg₁
        have hgrows := hbody _ _ _ _ hg₁.closed hc₁.lt h₁
        have hc₂ := hg₁.at_grow he hc₁ hgrows
        rw [← pow_succ] at hc₂
        have := ih (k + 1) (hg₁.grow he hc₁ hgrows) hc₂ h
        rwa [Nat.add_right_comm, Nat.add_assoc] at this

end

theorem language_repeated_none (body : Regex) (min pos : Nat) :
    (Regex.repeated body min none pos).language = body.language ^ min * body.language∗ := by
  rw [Regex.language, Language.kstar_eq_iSup_pow, Language.mul_iSup]
  apply Language.ext
  intro w
  rw [Language.mem_iSup]
  constructor
  · rintro ⟨k, ⟨hk, -⟩, hw⟩
    refine ⟨k - min, ?_⟩
    rwa [← pow_add, Nat.add_sub_cancel' hk]
  · rintro ⟨j, hw⟩
    rw [← pow_add] at hw
    exact ⟨min + j, ⟨Nat.le_add_right _ _, by simp⟩, hw⟩

theorem language_repeated_some (body : Regex) {min max : Nat} (pos : Nat) (h : min ≤ max) :
    (Regex.repeated body min (some max) pos).language =
      body.language ^ min * fewer body.language (max - min + 1) := by
  rw [Regex.language]
  apply Language.ext
  intro w
  constructor
  · rintro ⟨k, ⟨hk, hmax⟩, hw⟩
    have hk' := hmax max rfl
    rw [← Nat.add_sub_cancel' hk, pow_add] at hw
    obtain ⟨u, hu, v, hv, rfl⟩ := hw
    exact ⟨u, hu, v, ⟨k - min, by omega, hv⟩, rfl⟩
  · rintro ⟨u, hu, v, ⟨j, hj, hv⟩, rfl⟩
    refine ⟨min + j, ⟨Nat.le_add_right _ _, ?_⟩, ?_⟩
    · intro m hm
      obtain rfl := Option.some.inj hm
      omega
    · rw [pow_add]
      exact ⟨u, hu, v, hv, rfl⟩

/-! ### Expressions -/

mutual

/-- Building an expression adds its language. -/
theorem builds_build : ∀ {r : Regex}, r.Proper → Builds (build r) r.language
  | .set chars, _, states, entry, exit, states', hclosed, he, h => by
    rw [build] at h
    obtain ⟨rfl, rfl⟩ := Prod.mk.inj (Except.ok.inj h)
    exact Grows.addSet hclosed he chars
  | .concat items, hr, states, entry, exit, states', hclosed, he, h => by
    rw [build] at h
    rw [Regex.Proper] at hr
    rw [Regex.language]
    exact builds_buildItems hr _ _ _ _ hclosed he h
  | .alternate branches, hr, states, entry, exit, states', hclosed, he, h => by
    rw [build] at h
    rw [Regex.Proper] at hr
    split at h
    · cases h
    · rename_i states₁ h₁
      obtain ⟨rfl, rfl⟩ := Prod.mk.inj (Except.ok.inj h)
      have hg := gathers_buildBranches hr.2 he (Gathers.start hclosed entry) h₁
      rw [zero_add] at hg
      rw [Regex.language]
      exact hg.grows
  | .repeated body min max pos, hr, states, entry, exit, states', hclosed, he, h => by
    rw [build] at h
    rw [Regex.Proper] at hr
    have hbody := builds_build hr.1
    split at h
    · cases h
    · rename_i current states₁ h₁
      have hcopies := builds_copies hbody min _ _ _ _ hclosed he h₁
      have hcurrent := hcopies.exit_lt
      split at h
      · simp only at h
        split at h
        · cases h
        · rename_i last states₂ h₂
          obtain ⟨rfl, rfl⟩ := Prod.mk.inj (Except.ok.inj h)
          have hhead := Grows.addEpsilon hcopies.closed hcurrent
          have hsink :
              (states₁.addState.addEpsilon current states₁.size).state states₁.size = {} := by
            rw [States.state_addEpsilon_of_ne (by simp; omega) _ (by omega),
              States.state_addState, States.state_of_le (Nat.le_refl _)]
          have hgrows := hbody _ _ _ _ hhead.closed hhead.exit_lt h₂
          rw [language_repeated_none]
          exact hcopies.trans (hhead.loop hsink hgrows)
      · rename_i max
        simp only at h
        split at h
        · cases h
        · rename_i last states₂ h₂
          obtain ⟨rfl, rfl⟩ := Prod.mk.inj (Except.ok.inj h)
          have hstart := Gathers.start hcopies.closed current
          have hat := hstart.at_entry hcurrent
          rw [← fewer_zero body.language] at hstart
          rw [← pow_zero body.language] at hat
          obtain ⟨hg, hc⟩ := gathers_optionalCopies hbody hcurrent _ _ hstart hat h₂
          have hg := hg.addEpsilon hcurrent hc
          rw [← fewer_succ, Nat.zero_add] at hg
          rw [language_repeated_some body pos (hr.2 max rfl)]
          exact hcopies.trans hg.grows

theorem builds_buildItems : ∀ {items : List Regex}, Regex.ProperAll items →
    Builds (buildItems items) (Regex.languageOfItems items)
  | [], _, states, entry, exit, states', hclosed, he, h => by
    rw [buildItems] at h
    obtain ⟨rfl, rfl⟩ := Prod.mk.inj (Except.ok.inj h)
    rw [Regex.languageOfItems]
    exact Grows.refl hclosed he
  | item :: items, hr, states, entry, exit, states', hclosed, he, h => by
    rw [buildItems] at h
    rw [Regex.ProperAll] at hr
    split at h
    · cases h
    · rename_i next states₁ h₁
      have hg := builds_build hr.1 _ _ _ _ hclosed he h₁
      rw [Regex.languageOfItems]
      exact hg.trans (builds_buildItems hr.2 _ _ _ _ hg.closed hg.exit_lt h)

theorem gathers_buildBranches : ∀ {branches : List Regex}, Regex.ProperAll branches →
    ∀ {base states states' : States} {entry : Nat} {K : Language Char}, entry < base.size →
    Gathers base states entry K →
    buildBranches base.size branches entry states = .ok states' →
    Gathers base states' entry (K + Regex.languageOfBranches branches)
  | [], _, base, states, states', entry, K, he, hg, h => by
    rw [buildBranches] at h
    obtain rfl := Except.ok.inj h
    rw [Regex.languageOfBranches, add_zero]
    exact hg
  | branch :: branches, hr, base, states, states', entry, K, he, hg, h => by
    rw [buildBranches] at h
    rw [Regex.ProperAll] at hr
    split at h
    · cases h
    · rename_i last states₁ h₁
      have hc := hg.at_entry he
      have hfirst := Grows.addEpsilon hg.closed hc.lt
      have hgrows := hfirst.trans (builds_build hr.1 _ _ _ _ hfirst.closed hfirst.exit_lt h₁)
      have hg₁ := hg.grow he hc hgrows
      have hc₁ := hg.at_grow he hc hgrows
      have hg₂ := hg₁.addEpsilon he hc₁
      rw [one_mul, one_mul] at hg₂
      rw [Regex.languageOfBranches, ← add_assoc]
      exact gathers_buildBranches hr.2 he hg₂ h

end

end LexerGen.Nfa
