import LexerGen.Proofs.TableRun
import LexerGen.Table.Checked

/-! Tables and their parts. The checks let through just the parts of well-formed tables, and a
well-formed table is rebuilt from its entry, its edges and its accepting states. -/

namespace LexerGen.StateTable

open Edge

/-- The edges of the states, in the order of their numbers. -/
def transitions (t : StateTable) : List (List Edge) := t.rows.toList.map fun row => row.edges.toList

theorem length_transitions (t : StateTable) : t.transitions.length = t.size := by
  simp [transitions, size]

theorem mem_transitions {t : StateTable} {es : List Edge} :
    es ∈ t.transitions ↔ ∃ state < t.size, es = (t.edges state).toList := by
  rw [transitions, List.mem_map]
  constructor
  · rintro ⟨row, hrow, rfl⟩
    obtain ⟨state, hstate⟩ := Array.getElem?_of_mem (Array.mem_toList_iff.1 hrow)
    have hlt : state < t.size := (Array.getElem?_eq_some_iff.1 hstate).1
    rw [row_of_lt hlt] at hstate
    obtain rfl := Option.some.inj hstate
    exact ⟨state, hlt, rfl⟩
  · rintro ⟨state, hlt, rfl⟩
    exact ⟨t.row state, Array.mem_toList_iff.2 (Array.mem_of_getElem? (row_of_lt hlt)), rfl⟩

theorem wellFormed_iff (t : StateTable) :
    t.WellFormed ↔ t.entry < t.size ∧
      ∀ es ∈ t.transitions, Sorted es ∧ ∀ e ∈ es, e.target < t.size := by
  constructor
  · intro h
    refine ⟨h.entry_lt, fun es hes => ?_⟩
    obtain ⟨state, -, rfl⟩ := mem_transitions.1 hes
    exact ⟨h.sorted state, h.target_lt state⟩
  · rintro ⟨hentry, h⟩
    have hrow : ∀ state, Sorted (t.edges state).toList ∧
        ∀ e ∈ (t.edges state).toList, e.target < t.size := by
      intro state
      by_cases hstate : state < t.size
      · exact h _ (mem_transitions.2 ⟨state, hstate, rfl⟩)
      · rw [edges, row_of_le (Nat.le_of_not_lt hstate)]
        exact ⟨⟨by simp, by simp⟩, by simp⟩
    exact ⟨hentry, fun state => (hrow state).1, fun state => (hrow state).2⟩

/-! ### The checks -/

theorem checkEdge_eq_ok_iff {size : Nat} (state : Nat) {e : Edge} :
    checkEdge size state e = .ok () ↔ e.range.lo ≤ e.range.hi ∧ e.target < size := by
  rw [← Char.not_lt, ← Nat.not_le, checkEdge]
  by_cases hrange : e.range.hi < e.range.lo
  · simp [hrange]
  · by_cases htarget : size ≤ e.target <;> simp [hrange, htarget]

theorem checkEachEdge_eq_ok_iff {size : Nat} (state : Nat) {es : List Edge} :
    checkEachEdge size state es = .ok () ↔
      ∀ e ∈ es, e.range.lo ≤ e.range.hi ∧ e.target < size := by
  induction es with
  | nil => simp [checkEachEdge]
  | cons e es ih =>
    rw [List.forall_mem_cons, ← ih, ← checkEdge_eq_ok_iff state, checkEachEdge]
    cases checkEdge size state e <;> simp

/-- Where no range is empty, it is enough to compare neighbours. -/
theorem ordered_iff {es : List Edge} (hp : ∀ e ∈ es, e.range.lo ≤ e.range.hi) :
    ordered es = true ↔ es.Pairwise fun e f => e.range.hi < f.range.lo := by
  induction es with
  | nil => simp [ordered]
  | cons e es ih =>
    rw [List.forall_mem_cons] at hp
    have ih := ih hp.2
    cases es with
    | nil => simp [ordered]
    | cons f es =>
      rw [ordered, Bool.and_eq_true, decide_eq_true_eq, ih, List.pairwise_cons (a := e)]
      refine and_congr_left fun hrest => ⟨fun hf => ?_, fun h => h f List.mem_cons_self⟩
      rw [List.forall_mem_cons] at hp ⊢
      refine ⟨hf, fun g hg => ?_⟩
      exact Std.lt_trans (Std.lt_of_lt_of_le hf hp.2.1) ((List.pairwise_cons.1 hrest).1 g hg)

theorem checkStates_eq_ok_iff {size : Nat} (state : Nat) {rows : List (List Edge)} :
    checkStates size state rows = .ok () ↔
      ∀ es ∈ rows, Sorted es ∧ ∀ e ∈ es, e.target < size := by
  induction rows generalizing state with
  | nil => simp [checkStates]
  | cons es rows ih =>
    rw [List.forall_mem_cons, ← ih (state + 1), checkStates]
    have hedges : checkEachEdge size state es = .ok () ↔
        ∀ e ∈ es, e.range.lo ≤ e.range.hi ∧ e.target < size := checkEachEdge_eq_ok_iff state
    cases hcheck : checkEachEdge size state es with
    | error e =>
      have hbad : ¬(Sorted es ∧ ∀ e ∈ es, e.target < size) := fun h => by
        rw [hedges.2 fun e he => ⟨h.1.proper e he, h.2 e he⟩] at hcheck
        cases hcheck
      simp [hbad]
    | ok u =>
      have hgood := hedges.1 hcheck
      have hp : ∀ e ∈ es, e.range.lo ≤ e.range.hi := fun e he => (hgood e he).1
      have hiff : (Sorted es ∧ ∀ e ∈ es, e.target < size) ↔ ordered es = true := by
        rw [ordered_iff hp]
        exact ⟨fun h => h.1.increasing, fun h => ⟨⟨hp, h⟩, fun e he => (hgood e he).2⟩⟩
      rw [hiff]
      cases ordered es <;> simp

/-! ### The tags -/

theorem modify_append_cons (before rows : List Row) (row : Row) (g : Row → Row) :
    (before ++ row :: rows).modify before.length g = before ++ g row :: rows :=
  List.modifyTailIdx_add _ 0 before (row :: rows)

/-- Tagging the accepting states gives the rows their tags back. -/
theorem setTags_accepting (before rows : List Row) :
    setTags ((rows.zipIdx before.length).filterMap fun (row, n) => row.tag.map (n, ·))
      (before ++ rows.map fun row => ({ edges := row.edges } : Row)).toArray =
        .ok (before ++ rows).toArray := by
  induction rows generalizing before with
  | nil => simp [setTags]
  | cons row rows ih =>
    have ih := ih (before ++ [row])
    rw [List.length_append, List.length_singleton, List.append_assoc, List.append_assoc,
      List.singleton_append, List.singleton_append] at ih
    obtain ⟨es, tag⟩ := row
    cases tag with
    | none => simpa using ih
    | some tag =>
      rw [← ih]
      simp [setTags, setTag, modify_append_cons]

theorem map_edges_modify (rows : Array Row) (state : Nat) (tag : String) :
    (rows.modify state fun row => { row with tag := some tag }).map Row.edges =
      rows.map Row.edges := by
  apply Array.ext
  · simp
  · intro n _ _
    simp only [Array.getElem_map, Array.getElem_modify]
    split <;> rfl

/-- Tagging changes no edges, and leaves the other states without the tags that they had not. -/
theorem setTags_eq_ok {tags : List (Nat × String)} {rows rows' : Array Row}
    (h : setTags tags rows = .ok rows') :
    rows'.map Row.edges = rows.map Row.edges ∧
      ∀ (n : Nat) (row : Row) (tag : String), rows'[n]? = some row → row.tag = some tag →
        (∃ tag, (n, tag) ∈ tags) ∨ ∃ row, rows[n]? = some row ∧ row.tag = some tag := by
  induction tags generalizing rows with
  | nil =>
    cases h
    exact ⟨rfl, fun n row tag hrow htag => .inr ⟨row, hrow, htag⟩⟩
  | cons p tags ih =>
    obtain ⟨state, tag⟩ := p
    rw [setTags, setTag] at h
    split at h
    · cases h
    · rename_i rows₁ h₁
      split at h₁
      · cases h₁
        obtain ⟨hedges, htags⟩ := ih h
        refine ⟨hedges.trans (map_edges_modify rows state tag), fun n row tag' hrow htag => ?_⟩
        obtain ⟨tag₁, hmem⟩ | ⟨row₁, hrow₁, htag₁⟩ := htags n row tag' hrow htag
        · exact .inl ⟨tag₁, List.mem_cons_of_mem _ hmem⟩
        · rw [Array.getElem?_modify] at hrow₁
          split at hrow₁
          · rename_i hn
            subst hn
            exact .inl ⟨tag, List.mem_cons_self⟩
          · exact .inr ⟨row₁, hrow₁, htag₁⟩
      · cases h₁

/-! ### Building a table -/

theorem ofParts_eq_ok {entry : Nat} {es : List (List Edge)} {tags : List (Nat × String)}
    {t : StateTable} (h : ofParts entry es tags = .ok t) :
    t.entry = entry ∧ entry < es.length ∧ checkStates es.length 0 es = .ok () ∧
      setTags tags (es.map fun edges => ({ edges := edges.toArray } : Row)).toArray =
        .ok t.rows := by
  unfold ofParts at h
  simp only at h
  split at h
  · cases h
  · split at h
    · cases h
    · rename_i hentry
      split at h
      · cases h
      · rename_i hcheck
        split at h
        · cases h
        · rename_i rows hrows
          cases h
          exact ⟨rfl, by omega, hcheck, hrows⟩

theorem transitions_ofParts {entry : Nat} {es : List (List Edge)} {tags : List (Nat × String)}
    {t : StateTable} (h : ofParts entry es tags = .ok t) : t.transitions = es := by
  obtain ⟨-, -, -, hrows⟩ := ofParts_eq_ok h
  have hedges := congrArg (fun a => a.toList.map Array.toList) (setTags_eq_ok hrows).1
  simpa [transitions, Function.comp_def] using hedges

/-- What passes the checks is a well-formed table. -/
theorem wellFormed_ofParts {entry : Nat} {es : List (List Edge)} {tags : List (Nat × String)}
    {t : StateTable} (h : ofParts entry es tags = .ok t) : t.WellFormed := by
  obtain ⟨rfl, hentry, hcheck, -⟩ := ofParts_eq_ok h
  rw [← transitions_ofParts h, length_transitions] at hentry hcheck
  exact (wellFormed_iff t).2 ⟨hentry, (checkStates_eq_ok_iff 0).1 hcheck⟩

theorem mem_tags_of_tag? {entry : Nat} {es : List (List Edge)} {tags : List (Nat × String)}
    {t : StateTable} (h : ofParts entry es tags = .ok t) {n : Nat} {tag : String}
    (ht : t.tag? n = some tag) : ∃ tag, (n, tag) ∈ tags := by
  obtain ⟨-, -, -, hrows⟩ := ofParts_eq_ok h
  have hrow := row_of_lt (lt_size_of_tag? ht)
  obtain hmem | ⟨row, hrow', htag⟩ := (setTags_eq_ok hrows).2 n _ tag hrow ht
  · exact hmem
  · -- Before any tags are set, no row has one.
    simp only [List.getElem?_toArray, List.getElem?_map, Option.map_eq_some_iff] at hrow'
    obtain ⟨edges, -, rfl⟩ := hrow'
    cases htag

/-- A well-formed table is built again from its parts. -/
theorem ofParts_transitions {t : StateTable} (h : t.WellFormed) :
    ofParts t.entry t.transitions t.accepting = .ok t := by
  obtain ⟨hentry, hstates⟩ := (wellFormed_iff t).1 h
  have hcheck := (checkStates_eq_ok_iff 0).2 hstates
  have hrows : setTags t.accepting (t.transitions.map fun edges =>
      ({ edges := edges.toArray } : Row)).toArray = .ok t.rows := by
    simpa [accepting, transitions, Function.comp_def] using setTags_accepting [] t.rows.toList
  rw [← length_transitions] at hentry hcheck
  have hsize : t.transitions.length ≠ 0 := by omega
  simp only [ofParts, if_neg hsize, if_neg (Nat.not_le.2 hentry), hcheck, hrows]

end LexerGen.StateTable
