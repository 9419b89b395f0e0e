import LexerGen.Proofs.Reachability
import LexerGen.Proofs.TableRun
import LexerGen.Table.Trim

/-! Trimming keeps the meaning of a table. The live states are those from which some text is
accepted, so no accepting run goes through an edge that is dropped, and behind every edge that is
left some text is accepted. -/

namespace LexerGen.StateTable

open Edge

section

variable (pairs : List (Nat × Nat))

/-- Puts the second part of each pair into the list numbered by the first. -/
def collect (found : Array (List Nat)) : Array (List Nat) :=
  pairs.foldl (fun found p => found.modify p.1 (p.2 :: ·)) found

theorem size_collect (found : Array (List Nat)) : (collect pairs found).size = found.size := by
  unfold collect
  induction pairs generalizing found with
  | nil => rfl
  | cons p pairs ih => rw [List.foldl_cons, ih, Array.size_modify]

theorem getD_collect (found : Array (List Nat)) {m : Nat} (hm : m < found.size) :
    (collect pairs found).getD m [] =
      ((pairs.filter (·.1 = m)).map Prod.snd).reverse ++ found.getD m [] := by
  unfold collect
  induction pairs generalizing found with
  | nil => simp
  | cons p pairs ih =>
    rw [List.foldl_cons, ih _ (by simpa using hm)]
    by_cases hp : p.1 = m
    · simp [Array.getD_eq_getD_getElem?, hm, hp, Array.getElem_modify]
    · simp [Array.getD_eq_getD_getElem?, Array.getElem?_modify, hp]

theorem sum_countP_le (size : Nat) :
    ∑ m ∈ Finset.range size, pairs.countP (·.1 = m) ≤ pairs.length := by
  induction pairs with
  | nil => simp
  | cons p pairs ih =>
    simp only [List.countP_cons, Finset.sum_add_distrib, List.length_cons, decide_eq_true_eq,
      Finset.sum_ite_eq]
    split <;> omega

end

/-- The edges of a table as pairs of target and source. -/
def reversed (t : StateTable) : List (Nat × Nat) :=
  t.rows.toList.zipIdx.flatMap fun (row, n) => row.edges.toList.map fun e => (e.target, n)

theorem predecessors_eq (t : StateTable) :
    t.predecessors = collect t.reversed (Array.replicate t.size []) := by
  rw [predecessors, collect, reversed, List.foldl_flatMap]
  simp only [List.foldl_map, Array.foldl_toList]

theorem mem_reversed {t : StateTable} {m n : Nat} :
    (m, n) ∈ t.reversed ↔ ∃ e ∈ (t.edges n).toList, e.target = m := by
  simp only [reversed, List.mem_flatMap, List.mem_map, Prod.exists, List.mem_zipIdx_iff_getElem?,
    Array.getElem?_toList, Prod.mk.injEq]
  constructor
  · rintro ⟨row, i, hrow, e, he, rfl, rfl⟩
    have hlt : i < t.size := (Array.getElem?_eq_some_iff.1 hrow).1
    obtain rfl := Option.some.inj (hrow.symm.trans (row_of_lt hlt))
    exact ⟨e, he, rfl⟩
  · rintro ⟨e, he, rfl⟩
    exact ⟨t.row n, n, row_of_lt (lt_size_of_mem_edges he), e, he, rfl, rfl⟩

theorem length_reversed (t : StateTable) : t.reversed.length = t.edgeCount := by
  have hzip : t.rows.toList = t.rows.toList.zipIdx.map Prod.fst := by simp
  have hsum : t.edgeCount = (t.rows.toList.map fun row => row.edges.size).sum := by
    rw [edgeCount, List.sum_eq_foldr, List.foldr_map]
  rw [reversed, hsum, List.length_flatMap]
  conv_rhs => rw [hzip, List.map_map]
  congr 1
  simp [Function.comp_def]

theorem mem_predecessors {t : StateTable} {m n : Nat} :
    n ∈ t.predecessors.getD m [] ↔ m < t.size ∧ ∃ e ∈ (t.edges n).toList, e.target = m := by
  rw [predecessors_eq]
  by_cases hm : m < t.size
  · rw [getD_collect _ _ (by simpa using hm)]
    simpa [hm] using mem_reversed
  · have hnone : (collect t.reversed (Array.replicate t.size []))[m]? = none := by
      rw [Array.getElem?_eq_none_iff, size_collect, Array.size_replicate]
      omega
    simp [Array.getD_eq_getD_getElem?, hnone, hm]

theorem sum_predecessors_le (t : StateTable) :
    ∑ m ∈ Finset.range t.size, (t.predecessors.getD m []).length ≤ t.edgeCount := by
  rw [← length_reversed]
  refine Nat.le_trans (Nat.le_of_eq (Finset.sum_congr rfl fun m hm => ?_))
    (sum_countP_le t.reversed t.size)
  have hm : m < t.size := Finset.mem_range.1 hm
  rw [predecessors_eq, getD_collect _ _ (by simpa using hm)]
  simp [List.countP_eq_length_filter, Array.getD_eq_getD_getElem?, hm]

/-- The states from which some text is accepted are live. -/
theorem mem_live {t : StateTable} (ht : t.WellFormed) {n : Nat} :
    n ∈ t.live ↔ ∃ w tag, t.tagFrom? n w = some tag := by
  rw [live, Graph.mem_reachable t.size (fun m hm => ?_) (sum_predecessors_le t)]
  · constructor
    · rintro ⟨s, hs, hl⟩
      obtain ⟨⟨s, tag⟩, hacc, rfl⟩ := List.mem_map.1 hs
      induction hl with
      | refl => exact ⟨[], tag, mem_accepting.1 hacc⟩
      | @tail b a _ hab ih =>
        obtain ⟨w, tag, hw⟩ := ih
        obtain ⟨-, e, he, rfl⟩ := mem_predecessors.1 hab
        have hlo : e.contains e.range.lo = true :=
          contains_iff.2 ⟨Nat.le_refl _, Text.index_le_index.2 ((ht.sorted a).proper e he)⟩
        refine ⟨e.range.lo :: w, tag, ?_⟩
        rw [tagFrom?_cons, next?_eq_lookup (ht.sorted a), (ht.sorted a).lookup_of_mem he hlo]
        exact hw
    · rintro ⟨w, tag, hw⟩
      induction w generalizing n with
      | nil => exact ⟨n, List.mem_map.2 ⟨(n, tag), mem_accepting.2 hw, rfl⟩, .refl⟩
      | cons c w ih =>
        rw [tagFrom?_cons, Option.bind_eq_some_iff] at hw
        obtain ⟨m, hm, hw⟩ := hw
        obtain ⟨s, hs, hl⟩ := ih hw
        rw [next?_eq_lookup (ht.sorted n)] at hm
        obtain ⟨e, he, -, rfl⟩ := exists_of_lookup hm
        exact ⟨s, hs, hl.tail (mem_predecessors.2 ⟨ht.target_lt n e he, e, he, rfl⟩)⟩
  · refine List.eq_nil_iff_forall_not_mem.2 fun k hk => ?_
    have := (mem_predecessors.1 hk).1
    omega

/-! ### Trimmed tables -/

theorem size_trim (t : StateTable) : t.trim.size = t.size := by
  simp [trim, size]

theorem row_trim (t : StateTable) (n : Nat) :
    t.trim.row n =
      { t.row n with edges := (t.row n).edges.filter fun e => t.live.contains e.target } := by
  by_cases hn : n < t.size
  · have hn' : n < t.rows.size := hn
    simp [row, trim, Array.getD_eq_getD_getElem?, hn']
  · rw [row_of_le (Nat.not_lt.1 hn), row_of_le (by rw [size_trim]; omega)]
    simp

theorem tag?_trim (t : StateTable) (n : Nat) : t.trim.tag? n = t.tag? n := by
  rw [tag?, row_trim]
  rfl

theorem edges_trim (t : StateTable) (n : Nat) :
    (t.trim.edges n).toList = (t.edges n).toList.filter fun e => t.live.contains e.target := by
  rw [edges, row_trim, edges, Array.toList_filter]

theorem wellFormed_trim {t : StateTable} (ht : t.WellFormed) : t.trim.WellFormed := by
  refine ⟨by rw [size_trim]; exact ht.entry_lt, fun n => ?_, fun n e he => ?_⟩
  · rw [edges_trim]
    exact (ht.sorted n).sublist List.filter_sublist
  · rw [edges_trim] at he
    rw [size_trim]
    exact ht.target_lt n e (List.mem_filter.1 he).1

theorem next?_trim {t : StateTable} (ht : t.WellFormed) {n m : Nat} {c : Char} :
    t.trim.next? n c = some m ↔ t.next? n c = some m ∧ m ∈ t.live := by
  rw [next?_eq_lookup ((wellFormed_trim ht).sorted n), next?_eq_lookup (ht.sorted n),
    ((wellFormed_trim ht).sorted n).lookup_eq_some_iff, (ht.sorted n).lookup_eq_some_iff,
    edges_trim]
  simp only [List.mem_filter, Std.TreeSet.contains_iff_mem]
  constructor
  · rintro ⟨e, ⟨he, hlive⟩, hc, rfl⟩
    exact ⟨⟨e, he, hc, rfl⟩, hlive⟩
  · rintro ⟨⟨e, he, hc, rfl⟩, hlive⟩
    exact ⟨e, ⟨he, hlive⟩, hc, rfl⟩

/-- Trimming keeps the tag of every text from every state. -/
theorem tagFrom?_trim {t : StateTable} (ht : t.WellFormed) (n : Nat) (w : List Char) :
    t.trim.tagFrom? n w = t.tagFrom? n w := by
  induction w generalizing n with
  | nil => exact tag?_trim t n
  | cons c w ih =>
    rw [tagFrom?_cons, tagFrom?_cons]
    cases hm : t.next? n c with
    | none =>
      cases hm' : t.trim.next? n c with
      | none => rfl
      | some m =>
        rw [((next?_trim ht).1 hm').1] at hm
        cases hm
    | some m =>
      by_cases hlive : m ∈ t.live
      · rw [(next?_trim ht).2 ⟨hm, hlive⟩]
        exact ih m
      · have hnone : t.trim.next? n c = none := by
          cases hm' : t.trim.next? n c with
          | none => rfl
          | some m' =>
            obtain ⟨h, hlive'⟩ := (next?_trim ht).1 hm'
            obtain rfl := Option.some.inj (hm.symm.trans h)
            exact absurd hlive' hlive
        rw [hnone, Option.bind_none, Option.bind_some]
        cases hw : t.tagFrom? m w with
        | none => rfl
        | some tag => exact absurd ((mem_live ht).2 ⟨w, tag, hw⟩) hlive

/-- Behind every edge of the table some text is accepted. -/
def Live (t : StateTable) : Prop :=
  ∀ n, ∀ e ∈ (t.edges n).toList, ∃ w tag, t.tagFrom? e.target w = some tag

theorem live_trim {t : StateTable} (ht : t.WellFormed) : t.trim.Live := by
  intro n e he
  rw [edges_trim, List.mem_filter, Std.TreeSet.contains_iff_mem] at he
  obtain ⟨w, tag, hw⟩ := (mem_live ht).1 he.2
  exact ⟨w, tag, by rw [tagFrom?_trim ht, hw]⟩

/-- Where every state is live, there is nothing to drop. -/
theorem trim_eq_self {t : StateTable} (ht : t.WellFormed) (hlive : ∀ n < t.size, n ∈ t.live) :
    t.trim = t := by
  have hkept : ∀ row ∈ t.rows,
      { row with edges := row.edges.filter fun e => t.live.contains e.target } = row := by
    intro row hmem
    obtain ⟨n, hn, rfl⟩ := Array.mem_iff_getElem.1 hmem
    have hedges : t.edges n = t.rows[n].edges := by
      simp [edges, row, Array.getD_eq_getD_getElem?, hn]
    rw [Array.filter_eq_self.2]
    intro e he
    rw [Std.TreeSet.contains_iff_mem]
    exact hlive _ (ht.target_lt n e (by rw [hedges]; exact Array.mem_toList_iff.2 he))
  have hrows : t.rows.map (fun row =>
      { row with edges := row.edges.filter fun e => t.live.contains e.target }) = t.rows := by
    rw [Array.map_congr_left hkept]
    exact Array.map_id t.rows
  rw [trim, hrows]

end LexerGen.StateTable
