import LexerGen.Proofs.Exploration
import LexerGen.Proofs.TableRun

/-! The table of an exploration behaves like the successor function that was explored: a run of the
table goes through the numbers of the states that the function goes through. -/

namespace LexerGen.Exploration

open LexerGen.Numbering Edge

variable {σ : Type}

/-- The successor over the first range with `c`. -/
def successor? (xs : List (CharRange × σ)) (c : Char) : Option σ :=
  (xs.find? (·.1.contains c)).map Prod.snd

/-- The state that `w` leads to from `s`. -/
def follow? (next : σ → List (CharRange × σ)) (s : σ) : List Char → Option σ
  | [] => some s
  | c :: w => (successor? (next s) c).bind fun s' => follow? next s' w

theorem successor?_cons (x : CharRange × σ) (xs : List (CharRange × σ)) (c : Char) :
    successor? (x :: xs) c = if x.1.contains c then some x.2 else successor? xs c := by
  by_cases h : x.1.contains c <;> simp [successor?, h]

theorem follow?_append (next : σ → List (CharRange × σ)) (s : σ) (v w : List Char) :
    follow? next s (v ++ w) = (follow? next s v).bind fun s' => follow? next s' w := by
  induction v generalizing s with
  | nil => rfl
  | cons c v ih =>
    rw [List.cons_append, follow?, follow?, Option.bind_assoc]
    exact congrArg (Option.bind (successor? (next s) c)) (funext ih)

theorem exists_of_successor? {xs : List (CharRange × σ)} {c : Char} {s : σ}
    (h : successor? xs c = some s) : ∃ r, (r, s) ∈ xs ∧ r.contains c = true := by
  obtain ⟨⟨r, s'⟩, hx, rfl⟩ := Option.map_eq_some_iff.1 h
  exact ⟨r, List.mem_of_find?_eq_some hx, by simpa using List.find?_some hx⟩

/-- Of sorted successors the only one over a range with `c` is found. -/
theorem successor?_of_mem {xs : List (CharRange × σ)} (h : CharRange.Sorted (xs.map Prod.fst))
    {x : CharRange × σ} (hx : x ∈ xs) {c : Char} (hc : x.1.contains c = true) :
    successor? xs c = some x.2 := by
  induction xs with
  | nil => simp at hx
  | cons y xs ih =>
    rw [List.map_cons] at h
    rw [successor?_cons]
    rcases List.mem_cons.1 hx with rfl | hx
    · rw [if_pos hc]
    · have hlt := (List.pairwise_cons.1 h.increasing).1 x.1 (List.mem_map_of_mem hx)
      have hy : ¬y.1.contains c = true := by
        simp only [CharRange.contains, Bool.and_eq_true, decide_eq_true_eq] at hc ⊢
        exact fun hy => Char.not_le.2 hlt (Char.le_trans hc.1 hy.2)
      rw [if_neg hy]
      exact ih ⟨fun r hr => h.proper r (List.mem_cons_of_mem _ hr),
        (List.pairwise_cons.1 h.increasing).2⟩ hx

theorem rel_lookup {states : Array σ} {xs : List (CharRange × σ)} {es : List Edge}
    (h : Numbers states xs es) (c : Char) :
    Option.Rel (fun n s => states[n]? = some s) (lookup es c) (successor? xs c) := by
  induction h with
  | nil => exact .none
  | @cons x e xs es hxe _ ih =>
    have hc : e.contains c = x.1.contains c := by rw [Edge.contains, hxe.1]
    rw [lookup_cons, successor?_cons, hc]
    split
    · exact .some hxe.2
    · exact ih

theorem Numbers.sorted {states : Array σ} {xs : List (CharRange × σ)} {es : List Edge}
    (h : Numbers states xs es) (hs : CharRange.Sorted (xs.map Prod.fst)) : Sorted es := by
  have hranges : es.map Edge.range = xs.map Prod.fst := by
    induction h with
    | nil => rfl
    | cons hxe _ ih => rw [List.map_cons, List.map_cons, hxe.1, ih ⟨fun r hr =>
        hs.proper r (List.mem_cons_of_mem _ hr), (List.pairwise_cons.1 hs.increasing).2⟩]
  rw [sorted_iff, hranges]
  exact hs

variable [BEq σ] [Hashable σ]

/-- The table with a row for each state, which has the tag of the state. -/
def table (x : Exploration σ) (tag : σ → Option String) : StateTable :=
  let rows := x.edges.zip x.numbering.states
  { entry := 0
    rows := rows.map fun (edges, s) => { edges := edges.toArray, tag := tag s } }

/-- `n` is the number of `s`, or neither is there. -/
abbrev SameState (x : Exploration σ) : Option Nat → Option σ → Prop :=
  Option.Rel fun n s => x.numbering.states[n]? = some s

theorem table_eq_of_related {τ : Type} [BEq τ] [Hashable τ] {x : Exploration σ}
    {x' : Exploration τ} {tag : σ → Option String} {tag' : τ → Option String}
    (hstates : List.Forall₂ (fun s s' => tag s = tag' s') x.numbering.states.toList
      x'.numbering.states.toList) (hedges : x.edges = x'.edges) : x.table tag = x'.table tag' := by
  have hrows : (x.table tag).rows.toList = (x'.table tag').rows.toList := by
    simp only [table, Array.toList_map, Array.toList_zip, hedges]
    generalize x.numbering.states.toList = states, x'.numbering.states.toList = states',
      x'.edges.toList = edges at hstates ⊢
    induction hstates generalizing edges with
    | nil => simp
    | cons h _ ih =>
      cases edges with
      | nil => rfl
      | cons e edges => simp [h, ih edges]
  have hrows := Array.toList_inj.1 hrows
  simpa [table] using hrows

/-- Explorations of corresponding automata with corresponding tags have the same table, or are both
too large. -/
theorem map_table_run_of_related [LawfulBEq σ] {τ : Type} [BEq τ] [Hashable τ] [LawfulBEq τ]
    {next : σ → List (CharRange × σ)} {next' : τ → List (CharRange × τ)} {limit : Nat} {start : σ}
    {start' : τ} {R : σ → τ → Prop} (hR : Relator.BiUnique R)
    (hnext : ∀ s t, R s t → List.Forall₂ (fun x y => x.1 = y.1 ∧ R x.2 y.2) (next s) (next' t))
    (hstart : R start start') {tag : σ → Option String} {tag' : τ → Option String}
    (htag : ∀ s t, R s t → tag s = tag' t) :
    (run next limit start).map (table · tag) = (run next' limit start').map (table · tag') := by
  cases h : run next limit start with
  | some x =>
    have hflip : ∀ t s, R s t →
        List.Forall₂ (fun y x => y.1 = x.1 ∧ R x.2 y.2) (next' t) (next s) := fun t s hst =>
      (hnext s t hst).flip.imp fun _ _ hxy => ⟨hxy.1.symm, hxy.2⟩
    obtain ⟨x', h'⟩ := exists_run_of_related (R := fun t s => R s t)
      ⟨fun _ _ _ h₁ h₂ => hR.2 h₁ h₂, fun _ _ _ h₁ h₂ => hR.1 h₁ h₂⟩ hflip hstart h
    obtain ⟨hstates, hedges⟩ := run_related hR hnext hstart h h'
    rw [h']
    exact congrArg some (table_eq_of_related (hstates.imp htag) hedges)
  | none =>
    cases h' : run next' limit start' with
    | none => rfl
    | some x' =>
      obtain ⟨x, hx⟩ := exists_run_of_related hR hnext hstart h'
      rw [h] at hx
      cases hx

section

variable {next : σ → List (CharRange × σ)} {limit : Nat} {start : σ} {x : Exploration σ}
  (tag : σ → Option String)

theorem size_table (h : Complete next limit start x) :
    (x.table tag).size = x.numbering.states.size := by
  simp [table, StateTable.size, h.size_eq]

theorem Complete.row_table (h : Complete next limit start x) {i : Nat} {s : σ}
    (hs : x.numbering.states[i]? = some s) :
    ∃ es, Numbers x.numbering.states (next s) es ∧
      (x.table tag).row i = ⟨(coalesce es).toArray, tag s⟩ := by
  have hlt := (Array.getElem?_eq_some_iff.1 hs).1
  obtain ⟨es, hes, hrow⟩ := h.row i s (by rw [h.size_eq]; exact hlt) hs
  refine ⟨es, hes, ?_⟩
  have hzip : (x.edges.zip x.numbering.states)[i]? = some (coalesce es, s) :=
    Array.getElem?_zip_eq_some.2 ⟨hrow, hs⟩
  simp [StateTable.row, table, Array.getD_eq_getD_getElem?, hzip]

/-- A number without a state has an empty row. -/
theorem Complete.edges_table_of_none (h : Complete next limit start x) {i : Nat}
    (hs : x.numbering.states[i]? = none) : (x.table tag).edges i = #[] := by
  have hsize : (x.table tag).rows.size = x.numbering.states.size := size_table tag h
  have : (x.table tag).rows[i]? = none := by
    rw [Array.getElem?_eq_none_iff] at hs ⊢
    omega
  simp [StateTable.edges, StateTable.row, Array.getD_eq_getD_getElem?, this]

theorem Complete.tag?_table (h : Complete next limit start x) {i : Nat} {s : σ}
    (hs : x.numbering.states[i]? = some s) : (x.table tag).tag? i = tag s := by
  obtain ⟨es, -, hrow⟩ := h.row_table tag hs
  rw [StateTable.tag?, hrow]

variable (hsorted : ∀ s, Follows next start s → CharRange.Sorted ((next s).map Prod.fst))
include hsorted

theorem Complete.wellFormed_table (h : Complete next limit start x) : (x.table tag).WellFormed := by
  have hrow : ∀ i, Sorted ((x.table tag).edges i).toList ∧
      ∀ e ∈ ((x.table tag).edges i).toList, e.target < (x.table tag).size := by
    intro i
    cases hs : x.numbering.states[i]? with
    | none =>
      rw [h.edges_table_of_none tag hs]
      exact ⟨Sorted.nil, by simp⟩
    | some s =>
      obtain ⟨es, hes, hrow⟩ := h.row_table tag hs
      rw [StateTable.edges, hrow]
      refine ⟨sorted_coalesce (Numbers.sorted hes (hsorted s (h.reached s (mem_of_getElem? hs)))),
        fun e he => ?_⟩
      obtain ⟨e', he', -, ht⟩ := exists_lo_of_mem_coalesce he
      obtain ⟨j, hj⟩ := List.mem_iff_getElem?.1 he'
      have := rel_getElem? hes j
      rw [hj] at this
      cases hx : (next s)[j]? with
      | none => rw [hx] at this; cases this
      | some y =>
        rw [hx] at this
        cases this with
        | some hye =>
          rw [size_table tag h, ← ht]
          exact (Array.getElem?_eq_some_iff.1 hye.2).1
  refine ⟨?_, fun i => (hrow i).1, fun i => (hrow i).2⟩
  rw [size_table tag h]
  exact (Array.getElem?_eq_some_iff.1 h.entry).1

theorem Complete.rel_next? (h : Complete next limit start x) {i : Nat} {s : σ}
    (hs : x.numbering.states[i]? = some s) (c : Char) :
    SameState x ((x.table tag).next? i c) (successor? (next s) c) := by
  obtain ⟨es, hes, hrow⟩ := h.row_table tag hs
  have hes' := Numbers.sorted hes (hsorted s (h.reached s (mem_of_getElem? hs)))
  have hedges : ((x.table tag).edges i).toList = coalesce es := by rw [StateTable.edges, hrow]
  rw [StateTable.next?_eq_lookup (by rw [hedges]; exact sorted_coalesce hes'), hedges,
    lookup_coalesce hes']
  exact rel_lookup hes c

theorem Complete.rel_runFrom? (h : Complete next limit start x) {i : Nat} {s : σ}
    (hs : x.numbering.states[i]? = some s) (w : List Char) :
    SameState x ((x.table tag).runFrom? i w) (follow? next s w) := by
  induction w generalizing i s with
  | nil => exact .some hs
  | cons c w ih =>
    have hstep := h.rel_next? tag hsorted hs c
    rw [StateTable.runFrom?_cons, follow?]
    generalize (x.table tag).next? i c = o at hstep ⊢
    generalize successor? (next s) c = o' at hstep ⊢
    cases hstep with
    | none => exact .none
    | some hs' => exact ih hs'

/-- A text has the tag of the state that the successor function leads to. -/
theorem Complete.tagFrom?_table (h : Complete next limit start x) {i : Nat} {s : σ}
    (hs : x.numbering.states[i]? = some s) (w : List Char) :
    (x.table tag).tagFrom? i w = (follow? next s w).bind tag := by
  have hrun := h.rel_runFrom? tag hsorted hs w
  rw [StateTable.tagFrom?]
  generalize (x.table tag).runFrom? i w = o at hrun ⊢
  generalize follow? next s w = o' at hrun ⊢
  cases hrun with
  | none => rfl
  | some hs' => exact h.tag?_table tag hs'

omit [BEq σ] [Hashable σ] in
/-- Some text leads to every reachable state. -/
theorem exists_follow? {s : σ} (hs : Follows next start s) :
    ∃ w, follow? next start w = some s := by
  induction hs with
  | refl => exact ⟨[], rfl⟩
  | @tail a b ha hab ih =>
    obtain ⟨w, hw⟩ := ih
    obtain ⟨y, hy, rfl⟩ := List.mem_map.1 hab
    have hproper := (hsorted a ha).proper y.1 (List.mem_map_of_mem hy)
    have hlo : y.1.contains y.1.lo = true := by simpa [CharRange.contains] using hproper
    refine ⟨w ++ [y.1.lo], ?_⟩
    rw [follow?_append, hw, Option.bind_some, follow?, successor?_of_mem (hsorted a ha) hy hlo]
    rfl

/-- Some text leads from the entry to every state of the table. -/
theorem Complete.exists_runFrom? (h : Complete next limit start x) {i : Nat}
    (hi : i < (x.table tag).size) : ∃ w, (x.table tag).runFrom? 0 w = some i := by
  rw [size_table tag h] at hi
  obtain ⟨s, hs⟩ : ∃ s, x.numbering.states[i]? = some s := ⟨_, Array.getElem?_eq_getElem hi⟩
  obtain ⟨w, hw⟩ := exists_follow? hsorted (h.reached s (mem_of_getElem? hs))
  have hrun := h.rel_runFrom? tag hsorted h.entry w
  rw [hw] at hrun
  refine ⟨w, ?_⟩
  generalize (x.table tag).runFrom? 0 w = o at hrun ⊢
  cases hrun with
  | some hs' => rw [h.valid.unique hs' hs]

end

end LexerGen.Exploration
