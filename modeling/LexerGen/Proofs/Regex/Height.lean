import LexerGen.Nfa.Thompson
import LexerGen.Proofs.Regex.Derivation
import Mathlib.Logic.Function.Iterate

/-! How high an expression can be that is read from a pattern. A group adds at most an alternation,
a sequence and one quantifier to a way down the expression, and all other quantifiers on it stand
directly behind another one; both groups and such quantifiers are bounded. So building the states of
an expression is nested to a depth that no pattern exceeds. -/

namespace LexerGen.Regex

open Grammar

mutual

/-- The number of nodes on the longest way down from the root. -/
def height : Regex → Nat
  | .set _ => 1
  | .concat items => heightOfAll items + 1
  | .alternate branches => heightOfAll branches + 1
  | .repeated body _ _ _ => body.height + 1

/-- The height of the highest expression. -/
def heightOfAll : List Regex → Nat
  | [] => 0
  | r :: rs => max r.height (heightOfAll rs)

end

theorem heightOfAll_le_iff {rs : List Regex} {n : Nat} :
    heightOfAll rs ≤ n ↔ ∀ r ∈ rs, r.height ≤ n := by
  induction rs with
  | nil => simp [heightOfAll]
  | cons r rs ih => rw [heightOfAll, Nat.max_le, ih, List.forall_mem_cons]

theorem height_pos (r : Regex) : 0 < r.height := by
  cases r <;> simp [height]

/-- The second expression stands right below the root of the first one. -/
inductive Above : Regex → Regex → Prop
  | item {items : List Regex} {r : Regex} (h : r ∈ items) : Above (.concat items) r
  | branch {branches : List Regex} {r : Regex} (h : r ∈ branches) : Above (.alternate branches) r
  | body (r : Regex) (min : Nat) (max : Option Nat) (pos : Nat) :
      Above (.repeated r min max pos) r

theorem Above.height_lt {r q : Regex} (h : Above r q) : q.height < r.height := by
  cases h with
  | item h =>
    rw [height]
    exact Nat.lt_succ_of_le (heightOfAll_le_iff.1 (Nat.le_refl _) q h)
  | branch h =>
    rw [height]
    exact Nat.lt_succ_of_le (heightOfAll_le_iff.1 (Nat.le_refl _) q h)
  | body =>
    rw [height]
    exact Nat.lt_succ_self _

/-- No way down is longer than the height. -/
theorem length_le_height {r : Regex} {path : List Regex} (h : (r :: path).IsChain Above) :
    (r :: path).length ≤ r.height := by
  induction path generalizing r with
  | nil => exact r.height_pos
  | cons q path ih =>
    obtain ⟨habove, hrest⟩ := List.isChain_cons_cons.1 h
    have hq := ih hrest
    have hlt := habove.height_lt
    rw [List.length_cons]
    omega

/-! ### Expressions of the grammar -/

theorem height_concatOf_le {rs : List Regex} {n : Nat} (h : ∀ r ∈ rs, r.height ≤ n) :
    (concatOf rs).height ≤ n + 1 := by
  unfold concatOf
  split
  · exact Nat.le_succ_of_le (h _ List.mem_cons_self)
  · rw [height]
    exact Nat.succ_le_succ (heightOfAll_le_iff.2 h)

theorem height_alternateOf_le {rs : List Regex} {n : Nat} (h : ∀ r ∈ rs, r.height ≤ n) :
    (alternateOf rs).height ≤ n + 1 := by
  unfold alternateOf
  split
  · exact Nat.le_succ_of_le (h _ List.mem_cons_self)
  · rw [height]
    exact Nat.succ_le_succ (heightOfAll_le_iff.2 h)

-- Each level of groups has room for three nodes. The quantifiers behind another one are counted by
-- `k` over the whole text, so they are paid for wherever they stand.
mutual

theorem Grammar.Atom.height_le {room pos k : Nat} {t : List Char} {r : Regex} :
    Atom room pos t k r → r.height ≤ 3 * room + k + 1
  | .set _ => by
    rw [height]
    omega
  | .group h => by
    have := height_alternateOf_le h.height_le
    omega

theorem Grammar.Repeat.height_le {room pos k : Nat} {q : Bool} {t : List Char} {r : Regex} :
    Repeat room pos t k q r → r.height ≤ 3 * room + k + q.toNat + 1
  | .atom h => h.height_le
  | .quantifier h _ => by
    have := h.height_le
    rw [height, Bool.toNat_true]
    omega

theorem Grammar.Concat.height_le {room pos k : Nat} {t : List Char} {rs : List Regex} :
    Concat room pos t k rs → ∀ r ∈ rs, r.height ≤ 3 * room + k + 2
  | @Concat.one _ _ _ _ q _ h, r, hr => by
    have := h.height_le
    have := q.toNat_le
    rw [List.mem_singleton.1 hr]
    omega
  | @Concat.more _ _ _ _ _ _ q _ _ h hlast, r, hr => by
    rcases List.mem_append.1 hr with hr | hr
    · have := h.height_le r hr
      omega
    · have := hlast.height_le
      have := q.toNat_le
      rw [List.mem_singleton.1 hr]
      omega

theorem Grammar.Alternation.height_le {room pos k : Nat} {t : List Char} {bs : List Regex} :
    Alternation room pos t k bs → ∀ r ∈ bs, r.height ≤ 3 * room + k + 3
  | .one h, r, hr => by
    rw [List.mem_singleton.1 hr]
    exact height_concatOf_le h.height_le
  | .more h hu, r, hr => by
    rcases List.mem_append.1 hr with hr | hr
    · have := h.height_le r hr
      omega
    · have := height_concatOf_le hu.height_le
      rw [List.mem_singleton.1 hr]
      omega

end

theorem Grammar.Derives.height_le {cs : List Char} {r : Regex} (h : Derives cs r) :
    r.height ≤ 4 * Limits.maxDepth + 4 := by
  obtain ⟨stacked, bs, halternation, hle, rfl⟩ := h
  have := height_alternateOf_le halternation.height_le
  omega

end LexerGen.Regex

/-! ### Building -/

namespace LexerGen.Nfa

open Regex (Error Above)

/-- The builders one behind the other. -/
def inSequence : List Build → Build
  | [], entry, states => .ok (entry, states)
  | body :: rest, entry, states =>
    match body entry states with
    | .error e => .error e
    | .ok (exit, states) => inSequence rest exit states

/-- The builders side by side, each between `entry` and `exit`. -/
def sideBySide (exit : Nat) : List Build → Nat → States → Except Error States
  | [], _, states => .ok states
  | body :: rest, entry, states =>
    let first := states.size
    match body first (states.addState.addEpsilon entry first) with
    | .error e => .error e
    | .ok (last, states) => sideBySide exit rest entry (states.addEpsilon last exit)

/-- The states of an expression, where `inner` builds those of the expressions right below it. -/
def buildOver (inner : Regex → Build) : Regex → Build
  | .set chars, entry, states => build (.set chars) entry states
  | .concat items, entry, states => inSequence (items.map inner) entry states
  | .alternate branches, entry, states =>
    let exit := states.size
    match sideBySide exit (branches.map inner) entry states.addState with
    | .error e => .error e
    | .ok states => .ok (exit, states)
  | .repeated body min max pos, entry, states =>
    match copies (inner body) pos min entry states with
    | .error e => .error e
    | .ok (current, states) =>
      match max with
      | none =>
        let head := states.size
        match inner body head (states.addState.addEpsilon current head) with
        | .error e => .error e
        | .ok (last, states) => .ok (head, states.addEpsilon last head)
      | some max =>
        let exit := states.size
        match optionalCopies (inner body) pos exit (max - min) current states.addState with
        | .error e => .error e
        | .ok (last, states) => .ok (exit, states.addEpsilon last exit)

theorem inSequence_map_build (items : List Regex) :
    inSequence (items.map build) = buildItems items := by
  induction items with
  | nil => rfl
  | cons item items ih =>
    funext entry states
    rw [List.map_cons, inSequence, ih]
    rfl

theorem sideBySide_map_build (exit : Nat) (branches : List Regex) :
    sideBySide exit (branches.map build) = buildBranches exit branches := by
  induction branches with
  | nil => rfl
  | cons branch branches ih =>
    funext entry states
    rw [List.map_cons, sideBySide, ih]
    rfl

/-- Building calls itself for the expressions right below. -/
theorem buildOver_build (r : Regex) : buildOver build r = build r := by
  funext entry states
  cases r with
  | set chars => rfl
  | concat items => rw [buildOver, build, inSequence_map_build]
  | alternate branches =>
    rw [buildOver, sideBySide_map_build]
    rfl
  | repeated body min max pos => rfl

theorem buildOver_congr {inner inner' : Regex → Build} {r : Regex}
    (h : ∀ q, Above r q → inner q = inner' q) : buildOver inner r = buildOver inner' r := by
  funext entry states
  cases r with
  | set chars => rfl
  | concat items =>
    rw [buildOver, buildOver, List.map_congr_left fun q hq => h q (.item hq)]
  | alternate branches =>
    rw [buildOver, buildOver, List.map_congr_left fun q hq => h q (.branch hq)]
  | repeated body min max pos => rw [buildOver, buildOver, h body (.body body min max pos)]

/-- What stands in for the calls that are nested deeper than the height is never asked. -/
theorem iterate_buildOver (other : Regex → Build) {n : Nat} {r : Regex} (h : r.height ≤ n) :
    (buildOver^[n] other) r = build r := by
  induction n generalizing r with
  | zero =>
    have := r.height_pos
    omega
  | succ n ih =>
    rw [Function.iterate_succ_apply', ← buildOver_build r]
    apply buildOver_congr
    intro q hq
    have := hq.height_lt
    exact ih (by omega)

end LexerGen.Nfa

namespace LexerGen.Regex

/-- However long the pattern is, the ways down its expression are short, and building the states
needs no more nested calls than that. -/
theorem parse_height_bounded {cs : List Char} {r : Regex} (h : parse cs = .ok r) :
    (∀ path : List Regex, path.head? = some r → path.IsChain Above →
      path.length ≤ 4 * Limits.maxDepth + 4) ∧
    ∀ other, (Nfa.buildOver^[4 * Limits.maxDepth + 4] other) r = Nfa.build r := by
  have hle := (derives_of_parse h).height_le
  refine ⟨fun path hhead hchain => ?_, fun other => Nfa.iterate_buildOver other hle⟩
  obtain ⟨rest, rfl⟩ := List.head?_eq_some_iff.1 hhead
  exact Nat.le_trans (length_le_height hchain) hle

/-- `n` groups, each in a sequence in a branch and with a quantifier behind it, around a character
with `stars` quantifiers. -/
def nested (stars : Nat) : Nat → List Char
  | 0 => 'a' :: '|' :: 'b' :: 'c' :: List.replicate stars '*'
  | n + 1 => 'a' :: '|' :: 'b' :: '(' :: (nested stars n ++ [')', '*'])

/-- No lower bound holds: this pattern needs all of it. -/
theorem parse_height_bounded_nested :
    ∃ r, parse (nested (Limits.maxDepth + 1) Limits.maxDepth) = .ok r ∧
      r.height = 4 * Limits.maxDepth + 4 ∧
      (∀ path : List Regex, path.head? = some r → path.IsChain Above →
        path.length ≤ 4 * Limits.maxDepth + 4) ∧
      ∀ other, (Nfa.buildOver^[4 * Limits.maxDepth + 4] other) r = Nfa.build r := by
  have hheight : (parse (nested (Limits.maxDepth + 1) Limits.maxDepth)).map height =
      .ok (4 * Limits.maxDepth + 4) := by
    decide +kernel
  cases hparse : parse (nested (Limits.maxDepth + 1) Limits.maxDepth) with
  | error e =>
    rw [hparse] at hheight
    cases hheight
  | ok r =>
    rw [hparse] at hheight
    exact ⟨r, rfl, Except.ok.inj hheight, parse_height_bounded hparse⟩

end LexerGen.Regex
