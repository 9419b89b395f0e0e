import LexerGen.Proofs.TableParts

/-! What a table is built from, and what it answers. Parts are let through just if they fit
together, although only neighbouring edges are compared; the table holds what was given, and a
transition is the target of the only edge with the character. -/

namespace LexerGen

open Edge

/-- In a sorted list no second edge has the character. -/
theorem Edge.Sorted.filter_contains_eq_singleton_iff {es : List Edge} (h : Sorted es) {e : Edge}
    {c : Char} : es.filter (·.contains c) = [e] ↔ e ∈ es ∧ e.contains c = true := by
  constructor
  · intro hfilter
    apply List.mem_filter.1
    rw [hfilter]
    exact List.mem_singleton_self e
  · rintro ⟨he, hc⟩
    induction es with
    | nil => cases he
    | cons f es ih =>
      by_cases hf : f.contains c = true
      · have hrest := lookup_eq_none_iff.1 (h.lookup_tail hf)
        have hnone : es.filter (·.contains c) = [] :=
          List.filter_eq_nil_iff.2 fun g hg => by rw [hrest g hg]; decide
        rcases List.mem_cons.1 he with rfl | he
        · rw [List.filter_cons, if_pos hf, hnone]
        · rw [hrest e he] at hc
          cases hc
      · rw [List.filter_cons, if_neg hf]
        apply ih h.of_cons
        rcases List.mem_cons.1 he with rfl | he
        · exact absurd hc hf
        · exact he

namespace StateTable

/-! ### Parts that fit together -/

/-- The parts of a table fit together: there are states, every number that is named is one of them,
and in each row every edge lies below those behind it. -/
structure Fit (entry : Nat) (transitions : List (List Edge)) (tags : List (Nat × String)) :
    Prop where
  ne_nil : transitions ≠ []
  entry_lt : entry < transitions.length
  target_lt : ∀ edges ∈ transitions, ∀ e ∈ edges, e.target < transitions.length
  accepting_lt : ∀ p ∈ tags, p.1 < transitions.length
  proper : ∀ edges ∈ transitions, ∀ e ∈ edges, e.range.lo ≤ e.range.hi
  increasing : ∀ edges ∈ transitions, edges.Pairwise fun e f => e.range.hi < f.range.lo

/-- The last tag that is listed for `state`. -/
def lastListed? (tags : List (Nat × String)) (state : Nat) : Option String :=
  (tags.filter fun p => p.1 = state).getLast?.map Prod.snd

theorem lastListed?_cons (state : Nat) (tag : String) (tags : List (Nat × String)) (n : Nat) :
    lastListed? ((state, tag) :: tags) n =
      (lastListed? tags n).or (if state = n then some tag else none) := by
  by_cases hn : state = n
  · cases hlast : (tags.filter fun p => p.1 = n).getLast? <;>
      simp [lastListed?, hn, List.getLast?_cons, hlast]
  · simp [lastListed?, hn]

theorem exists_setTags_iff (tags : List (Nat × String)) (rows : Array Row) :
    (∃ rows', setTags tags rows = .ok rows') ↔ ∀ p ∈ tags, p.1 < rows.size := by
  induction tags generalizing rows with
  | nil => simp [setTags]
  | cons p tags ih =>
    obtain ⟨state, tag⟩ := p
    rw [List.forall_mem_cons, setTags, setTag]
    by_cases hstate : state < rows.size
    · simp only [hstate, if_true, true_and]
      rw [ih, Array.size_modify]
    · simp [hstate]

/-- Tagging gives each state the last tag that is listed for it, and leaves the others alone. -/
theorem tag_setTags {tags : List (Nat × String)} {rows rows' : Array Row}
    (h : setTags tags rows = .ok rows') (n : Nat) :
    rows'[n]?.bind Row.tag = (rows[n]?.bind fun row => (lastListed? tags n).or row.tag) := by
  induction tags generalizing rows with
  | nil =>
    cases h
    rfl
  | cons p tags ih =>
    obtain ⟨state, tag⟩ := p
    rw [setTags, setTag] at h
    split at h
    · cases h
    · rename_i rows₁ h₁
      split at h₁
      · obtain rfl := Except.ok.inj h₁
        rw [ih h, Array.getElem?_modify]
        cases rows[n]? with
        | none => simp
        | some row =>
          by_cases hn : state = n <;> simp [lastListed?_cons, hn]
      · cases h₁

/-! ### The table that is built -/

section

variable {entry : Nat} {transitions : List (List Edge)} {tags : List (Nat × String)}

theorem exists_ofParts_iff_fit :
    (∃ t, ofParts entry transitions tags = .ok t) ↔ Fit entry transitions tags := by
  have htags := exists_setTags_iff tags
    (transitions.map fun edges => ({ edges := edges.toArray } : Row)).toArray
  rw [List.size_toArray, List.length_map] at htags
  constructor
  · rintro ⟨t, ht⟩
    obtain ⟨-, hentry, hcheck, hrows⟩ := ofParts_eq_ok ht
    have hstates := (checkStates_eq_ok_iff 0).1 hcheck
    exact
      { ne_nil := List.length_pos_iff.1 (by omega)
        entry_lt := hentry
        target_lt := fun edges hedges => (hstates edges hedges).2
        accepting_lt := htags.1 ⟨_, hrows⟩
        proper := fun edges hedges => (hstates edges hedges).1.proper
        increasing := fun edges hedges => (hstates edges hedges).1.increasing }
  · intro h
    obtain ⟨rows, hrows⟩ := htags.2 h.accepting_lt
    have hcheck : checkStates transitions.length 0 transitions = .ok () := by
      refine (checkStates_eq_ok_iff 0).2 fun edges hedges => ?_
      exact ⟨⟨h.proper edges hedges, h.increasing edges hedges⟩, h.target_lt edges hedges⟩
    have hentry := h.entry_lt
    have hsize : transitions.length ≠ 0 := by omega
    refine ⟨⟨entry, rows⟩, ?_⟩
    simp only [ofParts, if_neg hsize, if_neg (Nat.not_le.2 hentry), hcheck, hrows]

variable {t : StateTable} (h : ofParts entry transitions tags = .ok t)
include h

theorem edges_ofParts (state : Nat) : (t.edges state).toList = transitions.getD state [] := by
  rw [← transitions_ofParts h, StateTable.transitions, List.getD_eq_getElem?_getD,
    List.getElem?_map, Array.getElem?_toList, edges, row, Array.getD_eq_getD_getElem?]
  cases t.rows[state]? <;> rfl

theorem tag?_ofParts (state : Nat) : t.tag? state = lastListed? tags state := by
  obtain ⟨-, -, -, hrows⟩ := ofParts_eq_ok h
  have hfit := exists_ofParts_iff_fit.1 ⟨t, h⟩
  have htag : t.tag? state = t.rows[state]?.bind Row.tag := by
    rw [tag?, row, Array.getD_eq_getD_getElem?]
    cases t.rows[state]? <;> rfl
  rw [htag, tag_setTags hrows, List.getElem?_toArray, List.getElem?_map]
  by_cases hstate : state < transitions.length
  · simp [List.getElem?_eq_getElem hstate]
  · -- No tag is listed for a number that is no state.
    have hnone : tags.filter (fun p => p.1 = state) = [] := by
      refine List.filter_eq_nil_iff.2 fun p hp heq => ?_
      have hlt := hfit.accepting_lt p hp
      rw [of_decide_eq_true heq] at hlt
      exact hstate hlt
    simp [lastListed?, hnone, List.getElem?_eq_none (Nat.le_of_not_lt hstate)]

end

theorem WellFormed.next?_eq_some_iff {t : StateTable} (h : t.WellFormed) {state target : Nat}
    {c : Char} : t.next? state c = some target ↔
      ∃ e, (t.edges state).toList.filter (·.contains c) = [e] ∧ e.target = target := by
  have hs := h.sorted state
  rw [next?_eq_lookup hs, hs.lookup_eq_some_iff]
  simp only [hs.filter_contains_eq_singleton_iff, and_assoc]

/-- A table is built from just the parts that fit together, it holds them, and its transitions are
those of the only edge with the character. -/
theorem ofParts_exact (entry : Nat) (transitions : List (List Edge)) (tags : List (Nat × String)) :
    ((∃ t, ofParts entry transitions tags = .ok t) ↔ Fit entry transitions tags) ∧
      ∀ t, ofParts entry transitions tags = .ok t →
        t.entry = entry ∧ t.size = transitions.length ∧
        (∀ state, (t.edges state).toList = transitions.getD state []) ∧
        (∀ state, t.tag? state = lastListed? tags state) ∧
        ∀ state c,
          (∀ target, t.next? state c = some target ↔
            ∃ e, (t.edges state).toList.filter (·.contains c) = [e] ∧ e.target = target) ∧
          (t.next? state c = none ↔ ∀ e ∈ (t.edges state).toList, e.contains c = false) := by
  refine ⟨exists_ofParts_iff_fit, fun t ht => ?_⟩
  have hwf := wellFormed_ofParts ht
  have hsize : t.size = transitions.length := by
    rw [← length_transitions, transitions_ofParts ht]
  refine ⟨(ofParts_eq_ok ht).1, hsize, edges_ofParts ht, tag?_ofParts ht, fun state c => ⟨?_, ?_⟩⟩
  · intro target
    exact hwf.next?_eq_some_iff
  · rw [next?_eq_lookup (hwf.sorted state), lookup_eq_none_iff]

/-- Neighbouring ranges, a tag that is given twice, and a number without a state. -/
theorem ofParts_exact_adjacent :
    ∃ t, ofParts 1 [[⟨⟨'a', 'c'⟩, 1⟩, ⟨⟨'d', 'd'⟩, 0⟩], []] [(1, "x"), (0, ""), (1, "y")] = .ok t ∧
      t.entry = 1 ∧ t.tag? 1 = some "y" ∧ t.tag? 7 = none ∧
      t.next? 0 'c' = some 1 ∧ t.next? 0 'd' = some 0 ∧ t.next? 0 'e' = none ∧
      t.next? 7 'd' = none := by
  obtain ⟨hfits, hanswers⟩ := ofParts_exact 1 [[⟨⟨'a', 'c'⟩, 1⟩, ⟨⟨'d', 'd'⟩, 0⟩], []]
    [(1, "x"), (0, ""), (1, "y")]
  obtain ⟨t, ht⟩ := hfits.2 (by constructor <;> decide)
  obtain ⟨hentry, -, hedges, htags, hnext⟩ := hanswers t ht
  refine ⟨t, ht, hentry, ?_, ?_, ?_, ?_, ?_, ?_⟩
  · rw [htags]
    decide
  · rw [htags]
    decide
  · rw [(hnext 0 'c').1, hedges]
    exact ⟨⟨⟨'a', 'c'⟩, 1⟩, by decide⟩
  · rw [(hnext 0 'd').1, hedges]
    exact ⟨⟨⟨'d', 'd'⟩, 0⟩, by decide⟩
  · rw [(hnext 0 'e').2, hedges]
    decide
  · rw [(hnext 7 'd').2, hedges]
    decide

end StateTable

end LexerGen
