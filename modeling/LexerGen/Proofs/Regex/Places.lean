import LexerGen.Nfa.Thompson
import LexerGen.Proofs.Regex.Derivation

/-! The places that errors in a pattern name. Whether a pattern cannot be read or its states cannot
be built, the error stands at a byte where a character of the pattern starts, or at its end. The
reader takes places from cursors only; the quantifiers that it finds keep theirs in the expression,
and building fails at no other place. -/

namespace LexerGen.Text

/-- A character of `cs` starts at byte `pos`, or `cs` ends there. -/
def Boundary (cs : List Char) (pos : Nat) : Prop :=
  ∃ before rest, cs = before ++ rest ∧ byteLength before = pos

theorem Cursor.Moves.boundary {cs : List Char} {c : Cursor} (h : (Cursor.start cs).Moves c) :
    Boundary cs c.pos := by
  obtain ⟨text, ht⟩ := h
  refine ⟨text, c.rest, ht.rest, ?_⟩
  rw [ht.pos, Cursor.start, Nat.zero_add]

end LexerGen.Text

namespace LexerGen.Regex

open Text Grammar

/-! ### Quantifiers and classes -/

section

variable {cs : List Char} {pos : Nat} {x : Char} {c c' : Cursor} {e : Error}

theorem pos_of_count_error (h : count pos c = .error e) : e.pos = pos := by
  simp only [count] at h
  split at h
  · cases h
  · split at h
    · rw [← Except.error.inj h]
    · cases h

theorem pos_of_closeBounds_error {b : Bounds} (h : closeBounds pos b c = .error e) :
    e.pos = pos := by
  unfold closeBounds at h
  split at h
  · rw [← Except.error.inj h]
  · split at h
    · rw [← Except.error.inj h]
    · cases h
  · rw [← Except.error.inj h]

theorem pos_of_bounds_error (h : bounds pos x c = .error e) : e.pos = pos := by
  unfold bounds at h
  split at h
  case h_4 =>
    unfold bracedBounds at h
    split at h
    · rename_i hcount
      rw [← Except.error.inj h]
      exact pos_of_count_error hcount
    · rw [← Except.error.inj h]
    · split at h
      · split at h
        · rename_i hcount
          rw [← Except.error.inj h]
          exact pos_of_count_error hcount
        · exact pos_of_closeBounds_error h
      · exact pos_of_closeBounds_error h
  all_goals cases h

theorem pos_of_classAtom_error (h : classAtom pos x c = .error e) : e.pos = pos := by
  unfold classAtom at h
  split at h
  · split at h
    · cases h
    · rw [← Except.error.inj h]
  · cases h

theorem pos_of_nonEmpty_error {chars : CharSet} (h : nonEmpty pos chars c = .error e) :
    e.pos = pos := by
  unfold nonEmpty at h
  split at h
  · rw [← Except.error.inj h]
  · cases h

theorem boundary_of_rangeEnd? (hc : (Cursor.start cs).Moves c) {pos' : Nat}
    (h : rangeEnd? c = some (pos', x, c')) : Boundary cs pos' := by
  obtain ⟨⟨y, c₁⟩, h₁, h⟩ := Option.bind_eq_some_iff.1 h
  obtain ⟨_, _, h⟩ := Option.bind_eq_some_iff.1 h
  obtain ⟨⟨z, c₂⟩, _, h⟩ := Option.bind_eq_some_iff.1 h
  obtain ⟨_, _, h⟩ := Option.bind_eq_some_iff.1 h
  obtain ⟨rfl, -⟩ := Prod.mk.inj (Option.some.inj h)
  exact (hc.trans (Cursor.advances_of_next? h₁).moves).boundary

variable (hpos : Boundary cs pos) (hc : (Cursor.start cs).Moves c)
include hpos hc

theorem boundary_of_classItem_error {chars : CharSet} (h : classItem chars pos x c = .error e) :
    Boundary cs e.pos := by
  unfold classItem at h
  split at h
  · rename_i hatom
    rw [← Except.error.inj h, pos_of_classAtom_error hatom]
    exact hpos
  · cases h
  · rename_i lo c₁ hatom
    split at h
    · cases h
    · rename_i pos' y c₂ hend
      split at h
      · rename_i hatom'
        rw [← Except.error.inj h, pos_of_classAtom_error hatom']
        exact boundary_of_rangeEnd? (hc.trans (moves_of_classAtom hatom)) hend
      · rw [← Except.error.inj h]
        exact hpos
      · split at h
        · cases h
        · rw [← Except.error.inj h]
          exact hpos

theorem boundary_of_classItems_error {chars : CharSet} (h : classItems pos chars c = .error e) :
    Boundary cs e.pos := by
  fun_induction classItems pos chars c with
  | case1 =>
    rw [← Except.error.inj h]
    exact hpos
  | case2 => cases h
  | case3 chars c x c₁ hnext _ e' hitem =>
    rw [← Except.error.inj h]
    exact boundary_of_classItem_error hc.boundary
      (hc.trans (Cursor.advances_of_next? hnext).moves) hitem
  | case4 chars c x c₁ hnext _ chars' c₂ hitem _ ih =>
    have hmoves := hc.trans (Cursor.advances_of_next? hnext).moves
    exact ih (hmoves.trans (moves_of_classItem hitem)) h

theorem boundary_of_charClass_error (h : charClass pos c = .error e) : Boundary cs e.pos := by
  simp only [charClass] at h
  have hc := hc.trans (moves_negation c)
  split at h
  · rw [← Except.error.inj h]
    exact hpos
  · rename_i y c₁ hnext
    have hmoves := hc.trans (Cursor.advances_of_next? hnext).moves
    split at h
    · rename_i hitem
      rw [← Except.error.inj h]
      exact boundary_of_classItem_error hc.boundary hmoves hitem
    · rename_i hitem
      split at h
      · rename_i hitems
        rw [← Except.error.inj h]
        exact boundary_of_classItems_error hpos (hmoves.trans (moves_of_classItem hitem)) hitems
      · rw [pos_of_nonEmpty_error h]
        exact hpos

theorem boundary_of_atom_error (h : State.atom pos x c = .error e) : Boundary cs e.pos := by
  unfold State.atom at h
  split at h
  · exact boundary_of_charClass_error hpos hc h
  · rw [← Except.error.inj h]
    exact hpos
  · rw [← Except.error.inj h]
    exact hpos
  · cases h
  · split at h
    · cases h
    · rw [← Except.error.inj h]
      exact hpos
  · cases h

end

/-! ### Steps -/

theorem map_eq_error_iff {α β : Type} {r : Except Error α} {f : α → β} {e : Error} :
    r.map f = .error e ↔ r = .error e := by
  cases r <;> simp [Except.map]

namespace State

variable {cs : List Char} {s : State} {pos : Nat} {x : Char} {c c' : Cursor} {e : Error}

theorem pos_of_closeGroup_error (h : s.closeGroup pos = .error e) : e.pos = pos := by
  unfold closeGroup at h
  split at h
  · rw [← Except.error.inj h]
  · rw [← Except.error.inj h]
  · cases h

theorem pos_of_bar_error (h : s.bar pos = .error e) : e.pos = pos := by
  unfold bar at h
  split at h
  · rw [← Except.error.inj h]
  · cases h

theorem pos_of_repeatItem_error {r : Regex} {items : List Regex} {b : Bounds}
    (h : s.repeatItem r items pos b = .error e) : e.pos = pos := by
  simp only [repeatItem] at h
  generalize (if s.quantified then s.stacked + 1 else s.stacked) = stacked at h
  split at h
  · rw [← Except.error.inj h]
  · cases h

theorem pos_of_quantify_error (h : s.quantify pos x c = .error e) : e.pos = pos := by
  unfold quantify at h
  split at h
  · rw [← Except.error.inj h]
  · split at h
    · rename_i hbounds
      rw [← Except.error.inj h]
      exact pos_of_bounds_error hbounds
    · exact pos_of_repeatItem_error (map_eq_error_iff.1 h)

section

variable (hpos : Boundary cs pos) (hc : (Cursor.start cs).Moves c)
include hpos hc

theorem boundary_of_openGroup_error (h : s.openGroup pos c = .error e) : Boundary cs e.pos := by
  unfold openGroup at h
  split at h
  · rw [← Except.error.inj h]
    exact hc.boundary
  · split at h
    · rw [← Except.error.inj h]
      exact hpos
    · cases h

theorem boundary_of_step_error (h : s.step pos x c = .error e) : Boundary cs e.pos := by
  unfold step at h
  split at h
  · exact boundary_of_openGroup_error hpos hc (map_eq_error_iff.1 h)
  · rw [pos_of_closeGroup_error (map_eq_error_iff.1 h)]
    exact hpos
  · rw [pos_of_bar_error (map_eq_error_iff.1 h)]
    exact hpos
  · split at h
    · rw [pos_of_quantify_error h]
      exact hpos
    · exact boundary_of_atom_error hpos hc (map_eq_error_iff.1 h)

end

end State

/-! ### The places that an expression keeps -/

mutual

/-- Every quantifier of the expression stands at a place with `P`. -/
def Placed (P : Nat → Prop) : Regex → Prop
  | .set _ => True
  | .concat items => PlacedAll P items
  | .alternate branches => PlacedAll P branches
  | .repeated body _ _ pos => P pos ∧ body.Placed P

def PlacedAll (P : Nat → Prop) : List Regex → Prop
  | [] => True
  | r :: rs => r.Placed P ∧ PlacedAll P rs

end

section

variable {P : Nat → Prop}

theorem placedAll_iff {rs : List Regex} : PlacedAll P rs ↔ ∀ r ∈ rs, r.Placed P := by
  induction rs with
  | nil => simp [PlacedAll]
  | cons r rs ih => simp [PlacedAll, ih]

theorem placed_concatOf {rs : List Regex} (h : ∀ r ∈ rs, r.Placed P) : (concatOf rs).Placed P := by
  unfold concatOf
  split
  · exact h _ List.mem_cons_self
  · rw [Placed, placedAll_iff]
    exact h

theorem placed_alternateOf {rs : List Regex} (h : ∀ r ∈ rs, r.Placed P) :
    (alternateOf rs).Placed P := by
  unfold alternateOf
  split
  · exact h _ List.mem_cons_self
  · rw [Placed, placedAll_iff]
    exact h

structure Level.Placed (P : Nat → Prop) (l : Level) : Prop where
  branches : ∀ r ∈ l.branches, r.Placed P
  items : ∀ r ∈ l.items, r.Placed P

theorem Level.placed_empty : Level.empty.Placed P := ⟨by simp [Level.empty], by simp [Level.empty]⟩

theorem Level.Placed.push {l : Level} (hl : l.Placed P) {r : Regex} (hr : r.Placed P) :
    (l.push r).Placed P :=
  ⟨hl.branches, List.forall_mem_cons.2 ⟨hr, hl.items⟩⟩

theorem Level.Placed.alternatives {l : Level} (hl : l.Placed P) :
    ∀ r ∈ l.alternatives, r.Placed P := by
  intro r hr
  rcases List.mem_append.1 hr with hr | hr
  · exact hl.branches r (List.mem_reverse.1 hr)
  · rw [List.mem_singleton.1 hr]
    exact placed_concatOf fun q hq => hl.items q (List.mem_reverse.1 hq)

/-- All places that the reader keeps have `P`: those of the quantifiers and of the parentheses that
are still open. -/
structure State.Placed (P : Nat → Prop) (s : State) : Prop where
  level : s.level.Placed P
  outer : ∀ p ∈ s.outer, P p.1 ∧ p.2.Placed P

theorem State.placed_start : State.start.Placed P := ⟨Level.placed_empty, by simp [State.start]⟩

/-- A step keeps no place but its own. -/
theorem State.Placed.step {s s' : State} (hs : s.Placed P) {pos : Nat} {next : Option Char}
    {t : List Char} (hpos : P pos) (hstep : Step s pos next t s') : s'.Placed P := by
  cases hstep with
  | set => exact ⟨hs.level.push (by rw [Regex.Placed]; trivial), hs.outer⟩
  | quantifier _ hitems =>
    have hall := hs.level.items
    rw [hitems, List.forall_mem_cons] at hall
    refine ⟨⟨hs.level.branches, List.forall_mem_cons.2 ⟨?_, hall.2⟩⟩, hs.outer⟩
    rw [Regex.Placed]
    exact ⟨hpos, hall.1⟩
  | bar =>
    refine ⟨⟨fun r hr => ?_, by simp⟩, hs.outer⟩
    exact hs.level.alternatives r (List.mem_reverse.1 hr)
  | openGroup =>
    exact ⟨Level.placed_empty, List.forall_mem_cons.2 ⟨⟨hpos, hs.level⟩, hs.outer⟩⟩
  | closeGroup _ houter =>
    have hall := hs.outer
    rw [houter, List.forall_mem_cons] at hall
    exact ⟨hall.1.2.push (placed_alternateOf hs.level.alternatives), hall.2⟩

end

/-! ### Reading to the end -/

section

variable {cs : List Char}

theorem State.boundary_of_finish_error {s : State} {pos : Nat} {e : Error}
    (hs : s.Placed (Boundary cs)) (hpos : Boundary cs pos) (h : s.finish pos = .error e) :
    Boundary cs e.pos := by
  unfold State.finish at h
  split at h
  · rw [← Except.error.inj h]
    exact hpos
  · rename_i opened level outer _ houter
    rw [← Except.error.inj h]
    have hall := hs.outer
    rw [houter] at hall
    exact (hall _ List.mem_cons_self).1
  · cases h

/-- Reading goes wrong at a character or at the end, or keeps only such places. -/
theorem State.places_of_run {s : State} {c : Cursor} (hs : s.Placed (Boundary cs))
    (hc : (Cursor.start cs).Moves c) :
    (∀ r, s.run c = .ok r → r.Placed (Boundary cs)) ∧
      ∀ e, s.run c = .error e → Boundary cs e.pos := by
  fun_induction State.run s c with
  | case1 s c =>
    refine ⟨fun r h => ?_, fun e h => boundary_of_finish_error hs hc.boundary h⟩
    obtain ⟨-, hclose⟩ := State.finish_eq_ok_iff.1 h
    obtain ⟨-, rfl⟩ := Level.close?_eq_some_iff.1 hclose
    exact placed_alternateOf hs.level.alternatives
  | case2 s c x c₁ hnext e' hstep =>
    have hmoves := hc.trans (Cursor.advances_of_next? hnext).moves
    refine ⟨fun r h => ?_, fun e h => ?_⟩
    · cases h
    · rw [← Except.error.inj h]
      exact boundary_of_step_error hc.boundary hmoves hstep
  | case3 s c x c₁ hnext s₁ c₂ hstep _ ih =>
    have hmoves := (hc.trans (Cursor.advances_of_next? hnext).moves).trans (moves_of_step hstep)
    obtain ⟨t, -, hstep⟩ := State.step_eq_ok_iff.1 hstep
    exact ih (hs.step hc.boundary hstep) hmoves

theorem boundary_of_parse_error {e : Error} (h : parse cs = .error e) : Boundary cs e.pos := by
  unfold parse at h
  split at h
  · rw [← Except.error.inj h]
    exact ⟨[], cs, rfl, rfl⟩
  · exact (State.places_of_run State.placed_start (.refl _)).2 e h

theorem placed_of_parse {r : Regex} (h : parse cs = .ok r) : r.Placed (Boundary cs) := by
  unfold parse at h
  split at h
  · cases h
  · exact (State.places_of_run State.placed_start (.refl _)).1 r h

end

end LexerGen.Regex

/-! ### Building -/

namespace LexerGen.Nfa

open Text
open Regex (Error)

/-- Where `body` fails, it does so at a place with `P`. -/
def FailsAt (P : Nat → Prop) (body : Build) : Prop :=
  ∀ entry states e, body entry states = .error e → P e.pos

theorem States.pos_of_checkSize_error {pos : Nat} {states : States} {e : Error}
    (h : states.checkSize pos = .error e) : e.pos = pos := by
  unfold checkSize at h
  split at h
  · rw [← Except.error.inj h]
  · cases h

section

variable {P : Nat → Prop} {body : Build} (hbody : FailsAt P body) {pos : Nat} (hpos : P pos)
include hbody hpos

theorem failsAt_copies (n : Nat) : FailsAt P (copies body pos n) := by
  induction n with
  | zero =>
    intro entry states e h
    cases h
  | succ n ih =>
    intro entry states e h
    rw [copies] at h
    split at h
    · rename_i h₁
      rw [← Except.error.inj h]
      exact hbody _ _ _ h₁
    · split at h
      · rename_i hcheck
        rw [← Except.error.inj h, States.pos_of_checkSize_error hcheck]
        exact hpos
      · exact ih _ _ _ h

theorem failsAt_optionalCopies (exit n : Nat) : FailsAt P (optionalCopies body pos exit n) := by
  induction n with
  | zero =>
    intro entry states e h
    cases h
  | succ n ih =>
    intro entry states e h
    rw [optionalCopies] at h
    split at h
    · rename_i h₁
      rw [← Except.error.inj h]
      exact hbody _ _ _ h₁
    · split at h
      · rename_i hcheck
        rw [← Except.error.inj h, States.pos_of_checkSize_error hcheck]
        exact hpos
      · exact ih _ _ _ h

end

mutual

/-- Building an expression fails at its quantifiers only. -/
theorem failsAt_build {P : Nat → Prop} : ∀ {r : Regex}, r.Placed P → FailsAt P (build r)
  | .set chars, _, entry, states, e, h => by
    rw [build] at h
    cases h
  | .concat items, hr, entry, states, e, h => by
    rw [build] at h
    rw [Regex.Placed] at hr
    exact failsAt_buildItems hr _ _ _ h
  | .alternate branches, hr, entry, states, e, h => by
    rw [build] at h
    rw [Regex.Placed] at hr
    split at h
    · rename_i h₁
      rw [← Except.error.inj h]
      exact failsAt_buildBranches hr _ _ _ _ h₁
    · cases h
  | .repeated body min max pos, hr, entry, states, e, h => by
    rw [build] at h
    rw [Regex.Placed] at hr
    have hbody := failsAt_build hr.2
    split at h
    · rename_i h₁
      rw [← Except.error.inj h]
      exact failsAt_copies hbody hr.1 min _ _ _ h₁
    · split at h
      · simp only at h
        split at h
        · rename_i h₂
          rw [← Except.error.inj h]
          exact hbody _ _ _ h₂
        · cases h
      · simp only at h
        split at h
        · rename_i h₂
          rw [← Except.error.inj h]
          exact failsAt_optionalCopies hbody hr.1 _ _ _ _ _ h₂
        · cases h

theorem failsAt_buildItems {P : Nat → Prop} : ∀ {items : List Regex}, Regex.PlacedAll P items →
    FailsAt P (buildItems items)
  | [], _, entry, states, e, h => by
    rw [buildItems] at h
    cases h
  | item :: items, hr, entry, states, e, h => by
    rw [buildItems] at h
    rw [Regex.PlacedAll] at hr
    split at h
    · rename_i h₁
      rw [← Except.error.inj h]
      exact failsAt_build hr.1 _ _ _ h₁
    · exact failsAt_buildItems hr.2 _ _ _ h

theorem failsAt_buildBranches {P : Nat → Prop} : ∀ {branches : List Regex},
    Regex.PlacedAll P branches → ∀ exit entry states e,
    buildBranches exit branches entry states = .error e → P e.pos
  | [], _, exit, entry, states, e, h => by
    rw [buildBranches] at h
    cases h
  | branch :: branches, hr, exit, entry, states, e, h => by
    rw [buildBranches] at h
    rw [Regex.PlacedAll] at hr
    split at h
    · rename_i h₁
      rw [← Except.error.inj h]
      exact failsAt_build hr.1 _ _ _ h₁
    · exact failsAt_buildBranches hr.2 _ _ _ _ h

end

/-- A pattern fails at one of its characters or at its end. -/
theorem Fragment.boundary_of_compile_error {cs : List Char} {e : Error}
    (h : Fragment.compile cs = .error e) : Boundary cs e.pos := by
  unfold Fragment.compile at h
  split at h
  · rename_i hparse
    rw [← Except.error.inj h]
    exact Regex.boundary_of_parse_error hparse
  · rename_i r hparse
    unfold Fragment.ofRegex at h
    split at h
    · rename_i hbuild
      rw [← Except.error.inj h]
      exact failsAt_build (Regex.placed_of_parse hparse) _ _ _ hbuild
    · cases h

end LexerGen.Nfa
