import LexerGen.Proofs.CharSet
import LexerGen.Proofs.ExploredTable
import LexerGen.Proofs.Nfa.Path

/-! Determinisation keeps the meaning of a fragment. The ends of the members' ranges cut the
characters into intervals on which all members behave alike, so following the intervals from set to
set gives exactly the states that a text leads to, and the tag of the last set is the one that the
text resolves to. -/

namespace LexerGen.Nfa

open Text Exploration

/-! ### Neighbours in an increasing list -/

section

variable {cs : List Nat}

theorem mem_neighbours {a b : Nat} (h : (a, b) ∈ cs.zip cs.tail) : a ∈ cs ∧ b ∈ cs :=
  ⟨(List.of_mem_zip h).1, List.mem_of_mem_tail (List.of_mem_zip h).2⟩

theorem zip_tail_cons_cons (a b : Nat) (rest : List Nat) :
    (a :: b :: rest).zip (a :: b :: rest).tail = (a, b) :: (b :: rest).zip (b :: rest).tail := rfl

theorem head_le_of_mem {a x : Nat} {rest : List Nat} (hcs : (a :: rest).Pairwise (· < ·))
    (hx : x ∈ a :: rest) : a ≤ x := by
  rcases List.mem_cons.1 hx with rfl | hx
  · exact Nat.le_refl _
  · exact Nat.le_of_lt ((List.pairwise_cons.1 hcs).1 x hx)

/-- No member lies strictly between neighbours. -/
theorem not_between_neighbours (hcs : cs.Pairwise (· < ·)) {a b x : Nat}
    (h : (a, b) ∈ cs.zip cs.tail) (hx : x ∈ cs) : x ≤ a ∨ b ≤ x := by
  induction cs with
  | nil => simp at hx
  | cons c cs ih =>
    cases cs with
    | nil => simp at h
    | cons d rest =>
      rw [zip_tail_cons_cons] at h
      have htail := (List.pairwise_cons.1 hcs).2
      rcases List.mem_cons.1 h with heq | hab
      · obtain ⟨rfl, rfl⟩ := Prod.mk.inj heq
        rcases List.mem_cons.1 hx with rfl | hx
        · exact .inl (Nat.le_refl _)
        · exact .inr (head_le_of_mem htail hx)
      · rcases List.mem_cons.1 hx with rfl | hx
        · exact .inl (Nat.le_of_lt ((List.pairwise_cons.1 hcs).1 a (mem_neighbours hab).1))
        · exact ih htail hab hx

/-- A number between two members lies between neighbours. -/
theorem exists_neighbours {x y i : Nat} (hcs : cs.Pairwise (· < ·)) (hx : x ∈ cs) (hy : y ∈ cs)
    (hxi : x ≤ i) (hiy : i < y) : ∃ a b, (a, b) ∈ cs.zip cs.tail ∧ a ≤ i ∧ i < b := by
  induction cs generalizing x with
  | nil => simp at hx
  | cons c cs ih =>
    have hcx := head_le_of_mem hcs hx
    cases cs with
    | nil =>
      obtain rfl := List.mem_singleton.1 hy
      omega
    | cons d rest =>
      rw [zip_tail_cons_cons]
      by_cases hd : i < d
      · exact ⟨c, d, List.mem_cons_self, by omega, hd⟩
      · have hy' : y ∈ d :: rest := by
          rcases List.mem_cons.1 hy with rfl | hy
          · omega
          · exact hy
        obtain ⟨a, b, hab, h⟩ := ih (List.pairwise_cons.1 hcs).2 List.mem_cons_self hy' (by omega)
        exact ⟨a, b, List.mem_cons_of_mem _ hab, h⟩

theorem pairwise_neighbours (hcs : cs.Pairwise (· < ·)) :
    (cs.zip cs.tail).Pairwise fun p q => p.2 ≤ q.1 := by
  induction cs with
  | nil => simp
  | cons c cs ih =>
    cases cs with
    | nil => simp
    | cons d rest =>
      rw [zip_tail_cons_cons]
      have htail := (List.pairwise_cons.1 hcs).2
      refine List.pairwise_cons.2 ⟨fun q hq => ?_, ih htail⟩
      exact head_le_of_mem htail (mem_neighbours (a := q.1) (b := q.2) hq).1

end

/-! ### Intervals -/

theorem mem_sortedDistinct {ns : List Nat} {n : Nat} : n ∈ sortedDistinct ns ↔ n ∈ ns := by
  simp [sortedDistinct]

theorem pairwise_sortedDistinct (ns : List Nat) : (sortedDistinct ns).Pairwise (· < ·) :=
  Std.TreeSet.ordered_toList.imp fun h => Nat.compare_eq_lt.1 h

theorem mem_cuts {edges : List Edge} {n : Nat} :
    n ∈ cuts edges ↔ ∃ e ∈ edges, n = index e.range.lo ∨ n = index e.range.hi + 1 := by
  simp [cuts, mem_sortedDistinct]

theorem mem_intervals {edges : List Edge} {r : CharRange} (h : r ∈ intervals edges) :
    (index r.lo, index r.hi + 1) ∈ (cuts edges).zip (cuts edges).tail := by
  obtain ⟨⟨a, b⟩, hab, hr⟩ := List.mem_filterMap.1 h
  obtain ⟨rfl, rfl, -⟩ := CharRange.index_of_ofIndices? hr
  exact hab

theorem sorted_intervals (edges : List Edge) : CharRange.Sorted (intervals edges) := by
  constructor
  · intro r hr
    obtain ⟨⟨a, b⟩, -, hr⟩ := List.mem_filterMap.1 hr
    obtain ⟨h₁, h₂, h₃⟩ := CharRange.index_of_ofIndices? hr
    exact index_le_index.1 (by omega)
  · apply (pairwise_neighbours (pairwise_sortedDistinct _)).filterMap _
    intro p q hpq r hr s hs
    obtain ⟨-, hhi, -⟩ := CharRange.index_of_ofIndices? hr
    obtain ⟨hlo, -⟩ := CharRange.index_of_ofIndices? hs
    exact index_lt_index.1 (by omega)

/-- An edge either holds all of an interval or nothing of it. -/
theorem contains_iff_of_interval {edges : List Edge} {r : CharRange} (hr : r ∈ intervals edges)
    {e : Edge} (he : e ∈ edges) {c : Char} (hc : r.contains c = true) :
    e.contains c = true ↔ e.range.lo ≤ r.lo ∧ r.hi ≤ e.range.hi := by
  have hab := mem_intervals hr
  have hcuts : (cuts edges).Pairwise (· < ·) := pairwise_sortedDistinct _
  have hlo := not_between_neighbours hcuts hab (mem_cuts.2 ⟨e, he, .inl rfl⟩)
  have hhi := not_between_neighbours hcuts hab (mem_cuts.2 ⟨e, he, .inr rfl⟩)
  simp only [CharRange.contains, Bool.and_eq_true, decide_eq_true_eq, ← index_le_index] at hc
  rw [Edge.contains_iff, ← index_le_index, ← index_le_index]
  omega

theorem exists_interval {edges : List Edge} {e : Edge} (he : e ∈ edges) {c : Char}
    (hc : e.contains c = true) : ∃ r ∈ intervals edges, r.contains c = true := by
  rw [Edge.contains_iff] at hc
  obtain ⟨a, b, hab, hac, hcb⟩ := exists_neighbours (pairwise_sortedDistinct _)
    (mem_cuts.2 ⟨e, he, .inl rfl⟩) (mem_cuts.2 ⟨e, he, .inr rfl⟩) hc.1 (Nat.lt_succ_of_le hc.2)
  have hb : b ≤ Char.numCodePoints := by
    obtain ⟨f, -, rfl | rfl⟩ := mem_cuts.1 (mem_neighbours hab).2
    · exact Nat.le_of_lt (index_lt _)
    · exact index_lt _
  obtain ⟨r, hr⟩ : ∃ r, CharRange.ofIndices? a b = some r := by
    rw [CharRange.ofIndices?, dif_pos ⟨by omega, hb⟩]
    exact ⟨_, rfl⟩
  obtain ⟨h₁, h₂, -⟩ := CharRange.index_of_ofIndices? hr
  refine ⟨r, List.mem_filterMap.2 ⟨(a, b), hab, hr⟩, ?_⟩
  simp only [CharRange.contains, Bool.and_eq_true, decide_eq_true_eq, ← index_le_index]
  omega

theorem mem_targetsOn {edges : List Edge} {r : CharRange} (hr : r ∈ intervals edges) {c : Char}
    (hc : r.contains c = true) {t : Nat} :
    t ∈ targetsOn edges r ↔ ∃ e ∈ edges, e.contains c = true ∧ e.target = t := by
  simp only [targetsOn, List.mem_map, List.mem_filter, Bool.and_eq_true, decide_eq_true_eq]
  constructor
  · rintro ⟨e, ⟨he, hlo⟩, rfl⟩
    exact ⟨e, he, (contains_iff_of_interval hr he hc).2 hlo, rfl⟩
  · rintro ⟨e, he, hec, rfl⟩
    exact ⟨e, ⟨he, (contains_iff_of_interval hr he hc).1 hec⟩, rfl⟩

namespace Fragment

variable {f : Fragment}

/-! ### Sets of states -/

theorem mem_successors {members : List Nat} {r : CharRange} {S : List Nat}
    (h : (r, S) ∈ f.successors f.epsilonCount members) :
    r ∈ intervals (f.edgesOf members) ∧ targetsOn (f.edgesOf members) r ≠ [] ∧
      S = f.closure f.epsilonCount (targetsOn (f.edgesOf members) r) := by
  obtain ⟨r', hr', h⟩ := List.mem_filterMap.1 h
  split at h
  · cases h
  · rename_i hne
    obtain ⟨rfl, rfl⟩ := Prod.mk.inj (Option.some.inj h)
    exact ⟨hr', fun h => hne h, rfl⟩

theorem successors_of_interval {members : List Nat} {r : CharRange}
    (hr : r ∈ intervals (f.edgesOf members)) (hne : targetsOn (f.edgesOf members) r ≠ []) :
    (r, f.closure f.epsilonCount (targetsOn (f.edgesOf members) r)) ∈
      f.successors f.epsilonCount members := by
  refine List.mem_filterMap.2 ⟨r, hr, ?_⟩
  split
  · rename_i h
    exact absurd h hne
  · rfl

theorem sorted_successors (f : Fragment) (members : List Nat) :
    CharRange.Sorted ((f.successors f.epsilonCount members).map Prod.fst) := by
  have hsub : ((f.successors f.epsilonCount members).map Prod.fst).Sublist
      (intervals (f.edgesOf members)) := by
    rw [successors, List.map_filterMap]
    generalize intervals (f.edgesOf members) = rs
    induction rs with
    | nil => exact .slnil
    | cons r rs ih =>
      rw [List.filterMap_cons]
      split
      · exact ih.cons r
      · rename_i r' hr
        split at hr
        · cases hr
        · obtain rfl := Option.some.inj hr
          exact ih.cons_cons r
  have := sorted_intervals (f.edgesOf members)
  exact ⟨fun r hr => this.proper r (hsub.subset hr), this.increasing.sublist hsub⟩

/-- The set that a set leads to on `c`: what lies behind the members' edges with `c`. -/
theorem mem_successor? {members : List Nat} {c : Char} {k : Nat} :
    k ∈ (successor? (f.successors f.epsilonCount members) c).getD [] ↔
      ∃ s ∈ members, ∃ e ∈ (f.state s).edges,
        e.contains c = true ∧ Path f.states e.target [] k := by
  have hedges : ∀ e, e ∈ f.edgesOf members ↔ ∃ s ∈ members, e ∈ (f.state s).edges := by
    simp [edgesOf]
  constructor
  · intro h
    cases hS : successor? (f.successors f.epsilonCount members) c with
    | none => simp [hS] at h
    | some S =>
      rw [hS, Option.getD_some] at h
      obtain ⟨r, hrS, hc⟩ := exists_of_successor? hS
      obtain ⟨hr, -, rfl⟩ := mem_successors hrS
      obtain ⟨t, ht, hpath⟩ := mem_closure.1 h
      obtain ⟨e, he, hec, rfl⟩ := (mem_targetsOn hr hc).1 ht
      obtain ⟨s, hs, he⟩ := (hedges e).1 he
      exact ⟨s, hs, e, he, hec, hpath⟩
  · rintro ⟨s, hs, e, he, hec, hpath⟩
    have he' := (hedges e).2 ⟨s, hs, he⟩
    obtain ⟨r, hr, hc⟩ := exists_interval he' hec
    have ht := (mem_targetsOn hr hc).2 ⟨e, he', hec, rfl⟩
    have hmem := successors_of_interval hr (List.ne_nil_of_mem ht)
    rw [successor?_of_mem (sorted_successors f members) hmem hc, Option.getD_some]
    exact mem_closure.2 ⟨_, ht, hpath⟩

/-- A set that holds what its members lead to without reading anything. -/
def EpsilonClosed (f : Fragment) (members : List Nat) : Prop :=
  ∀ s ∈ members, ∀ k, Path f.states s [] k → k ∈ members

theorem epsilonClosed_closure (f : Fragment) (seeds : List Nat) :
    f.EpsilonClosed (f.closure f.epsilonCount seeds) := by
  intro s hs k hk
  obtain ⟨t, ht, hp⟩ := mem_closure.1 hs
  exact mem_closure.2 ⟨t, ht, hp.trans hk⟩

theorem epsilonClosed_successor? {members S : List Nat} {c : Char}
    (h : successor? (f.successors f.epsilonCount members) c = some S) : f.EpsilonClosed S := by
  obtain ⟨r, hr, -⟩ := exists_of_successor? h
  obtain ⟨-, -, rfl⟩ := mem_successors hr
  exact epsilonClosed_closure f _

/-- Following the intervals from a set gives the states that a text leads to from its members. -/
theorem mem_follow? {members : List Nat} (hclosed : f.EpsilonClosed members) (w : List Char)
    (k : Nat) :
    k ∈ (follow? (f.successors f.epsilonCount) members w).getD [] ↔
      ∃ s ∈ members, Path f.states s w k := by
  induction w generalizing members with
  | nil =>
    rw [follow?, Option.getD_some]
    constructor
    · intro hk
      exact ⟨k, hk, .refl k⟩
    · rintro ⟨s, hs, hp⟩
      exact hclosed s hs k hp
  | cons c w ih =>
    -- Members reach the character's edges through members, as the set is closed.
    have hstep : (∃ s ∈ members, Path f.states s (c :: w) k) ↔
        ∃ j ∈ (successor? (f.successors f.epsilonCount members) c).getD [],
          Path f.states j w k := by
      constructor
      · rintro ⟨s, hs, hp⟩
        obtain ⟨m, hm, e, he, hc, hrest⟩ := Path.cons_iff.1 hp
        exact ⟨e.target, mem_successor?.2 ⟨m, hclosed s hs m hm, e, he, hc, .refl _⟩, hrest⟩
      · rintro ⟨j, hj, hp⟩
        obtain ⟨s, hs, e, he, hc, hj⟩ := mem_successor?.1 hj
        exact ⟨s, hs, .char he hc (hj.trans hp)⟩
    rw [hstep, follow?]
    cases hS : successor? (f.successors f.epsilonCount members) c with
    | none => simp
    | some S => exact ih (epsilonClosed_successor? hS)

/-- The sets that texts lead to from the start. -/
theorem mem_follow?_start (f : Fragment) (w : List Char) (k : Nat) :
    k ∈ (follow? (f.successors f.epsilonCount) (f.closure f.epsilonCount [f.start]) w).getD [] ↔
      f.Reaches w k := by
  rw [mem_follow? (epsilonClosed_closure f _)]
  constructor
  · rintro ⟨s, hs, hp⟩
    obtain ⟨t, ht, hts⟩ := mem_closure.1 hs
    obtain rfl := List.mem_singleton.1 ht
    exact hts.trans hp
  · intro h
    exact ⟨f.start, mem_closure.2 ⟨f.start, List.mem_singleton_self _, .refl _⟩, h⟩

theorem pairwise_follow? (f : Fragment) {members : List Nat} (hm : members.Pairwise (· < ·))
    (w : List Char) :
    ((follow? (f.successors f.epsilonCount) members w).getD []).Pairwise (· < ·) := by
  induction w generalizing members with
  | nil => exact hm
  | cons c w ih =>
    rw [follow?]
    cases hS : successor? (f.successors f.epsilonCount members) c with
    | none => simp
    | some S =>
      obtain ⟨r, hr, -⟩ := exists_of_successor? hS
      obtain ⟨-, -, rfl⟩ := mem_successors hr
      exact ih (pairwise_closure f _ _)

/-! ### Tags -/

/-- `n` accepts with the mark `a`, and no member of `members` is stronger. -/
def Strongest (f : Fragment) (members : List Nat) (n : Nat) (a : Accept) : Prop :=
  n ∈ members ∧ (f.state n).accept = some a ∧
    ∀ m b, m ∈ members → (f.state m).accept = some b →
      a.priority < b.priority ∨ (a.priority = b.priority ∧ n ≤ m)

theorem Strongest.unique {members : List Nat} {n m : Nat} {a b : Accept}
    (h : f.Strongest members n a) (h' : f.Strongest members m b) : a = b := by
  obtain ⟨hn, ha, hbest⟩ := h
  obtain ⟨hm, hb, hbest'⟩ := h'
  have h₁ := hbest m b hm hb
  have h₂ := hbest' n a hn ha
  obtain rfl : n = m := by omega
  exact Option.some.inj (ha.symm.trans hb)

theorem strongest_eq_none {as : List Accept} : strongest as = none ↔ as = [] := by
  cases as with
  | nil => simp [strongest]
  | cons a as =>
    rw [strongest]
    split
    · simp
    · split <;> simp

theorem Strongest.head {members : List Nat} {n : Nat} {a : Accept}
    (ha : (f.state n).accept = some a)
    (h : ∀ k b, k ∈ members → (f.state k).accept = some b →
      a.priority < b.priority ∨ (a.priority = b.priority ∧ n ≤ k)) :
    f.Strongest (n :: members) n a := by
  refine ⟨List.mem_cons_self, ha, fun k b hk hb => ?_⟩
  rcases List.mem_cons.1 hk with rfl | hk
  · obtain rfl := Option.some.inj (ha.symm.trans hb)
    exact .inr ⟨rfl, Nat.le_refl _⟩
  · exact h k b hk hb

theorem Strongest.tail {members : List Nat} {n m : Nat} {a : Accept}
    (h : f.Strongest members m a)
    (hn : ∀ b, (f.state n).accept = some b → a.priority < b.priority) :
    f.Strongest (n :: members) m a := by
  obtain ⟨hmem, ha, hbest⟩ := h
  refine ⟨List.mem_cons_of_mem _ hmem, ha, fun k b hk hb => ?_⟩
  rcases List.mem_cons.1 hk with rfl | hk
  · exact .inl (hn b hb)
  · exact hbest k b hk hb

theorem strongest_of_some {members : List Nat} (hm : members.Pairwise (· < ·)) {a : Accept}
    (h : strongest (members.filterMap fun n => (f.state n).accept) = some a) :
    ∃ n, f.Strongest members n a := by
  induction members generalizing a with
  | nil => cases h
  | cons n members ih =>
    obtain ⟨hlt, hm⟩ := List.pairwise_cons.1 hm
    rw [List.filterMap_cons] at h
    split at h
    · rename_i hnone
      obtain ⟨m, hbest⟩ := ih hm h
      refine ⟨m, hbest.tail fun b hb => ?_⟩
      rw [hnone] at hb
      cases hb
    · rename_i b hb
      rw [strongest] at h
      -- `n` comes first, so it wins unless a later member has a lower priority.
      split at h
      · rename_i hnone
        obtain rfl := Option.some.inj h
        refine ⟨n, .head hb fun k d hk hd => ?_⟩
        have hmem : d ∈ members.filterMap fun n => (f.state n).accept :=
          List.mem_filterMap.2 ⟨k, hk, hd⟩
        rw [strongest_eq_none.1 hnone] at hmem
        cases hmem
      · rename_i d hd
        obtain ⟨m, hbest⟩ := ih hm hd
        split at h
        · rename_i hdb
          obtain rfl := Option.some.inj h
          refine ⟨m, hbest.tail fun b' hb' => ?_⟩
          obtain rfl := Option.some.inj (hb.symm.trans hb')
          exact hdb
        · rename_i hdb
          obtain rfl := Option.some.inj h
          refine ⟨n, .head hb fun k d' hk hd' => ?_⟩
          have h₁ := hbest.2.2 k d' hk hd'
          have h₂ := hlt k hk
          omega

theorem tagOf?_eq_some_iff {members : List Nat} (hm : members.Pairwise (· < ·)) {tag : String} :
    f.tagOf? members = some tag ↔ ∃ n a, f.Strongest members n a ∧ a.tag = tag := by
  rw [tagOf?, Option.map_eq_some_iff]
  constructor
  · rintro ⟨a, ha, rfl⟩
    obtain ⟨n, hbest⟩ := strongest_of_some hm ha
    exact ⟨n, a, hbest, rfl⟩
  · rintro ⟨n, a, hbest, rfl⟩
    cases hs : strongest (members.filterMap fun n => (f.state n).accept) with
    | none =>
      have hmem : a ∈ members.filterMap fun n => (f.state n).accept :=
        List.mem_filterMap.2 ⟨n, hbest.1, hbest.2.1⟩
      rw [strongest_eq_none.1 hs] at hmem
      cases hmem
    | some b =>
      obtain ⟨m, hbest'⟩ := strongest_of_some hm hs
      exact ⟨b, rfl, by rw [hbest.unique hbest']⟩

/-! ### The deterministic table -/

theorem determinise_eq_ok {t : StateTable} (h : f.determinise = .ok t) :
    ∃ x : Exploration (List Nat),
      Complete (f.successors f.epsilonCount) Limits.maxDfaStates
        (f.closure f.epsilonCount [f.start]) x ∧ t = x.table f.tagOf? := by
  unfold determinise at h
  simp only at h
  split at h
  · cases h
  · rename_i x hx
    exact ⟨x, run_eq_some hx, (Except.ok.inj h).symm⟩

theorem wellFormed_determinise {t : StateTable} (h : f.determinise = .ok t) : t.WellFormed := by
  obtain ⟨x, hx, rfl⟩ := determinise_eq_ok h
  exact hx.wellFormed_table _ fun s _ => sorted_successors f s

theorem size_determinise_le {t : StateTable} (h : f.determinise = .ok t) :
    t.size ≤ Limits.maxDfaStates := by
  obtain ⟨x, hx, rfl⟩ := determinise_eq_ok h
  rw [size_table _ hx]
  exact hx.size_le

/-- The tag of the set of states that `w` leads to. -/
def tagAfter? (f : Fragment) (w : List Char) : Option String :=
  f.tagOf? ((follow? (f.successors f.epsilonCount) (f.closure f.epsilonCount [f.start]) w).getD [])

/-- The tag of the set that a text leads to is the one that the text resolves to. -/
theorem tagAfter?_eq_some_iff (f : Fragment) (w : List Char) (tag : String) :
    f.tagAfter? w = some tag ↔ f.Resolves w tag := by
  have hmem := mem_follow?_start f w
  have hpairwise := pairwise_follow? f (pairwise_closure f f.epsilonCount [f.start]) w
  rw [tagAfter?, tagOf?_eq_some_iff hpairwise]
  simp only [Strongest, hmem, Resolves, and_assoc]
  exact exists_congr fun n => exists_congr fun a => by tauto

instance (f : Fragment) (w : List Char) (tag : String) : Decidable (f.Resolves w tag) :=
  decidable_of_iff _ (tagAfter?_eq_some_iff f w tag)

instance (f : Fragment) (w : List Char) : Decidable (∃ tag, f.Resolves w tag) :=
  decidable_of_iff ((f.tagAfter? w).isSome = true)
    (by simp only [Option.isSome_iff_exists, tagAfter?_eq_some_iff])

/-- The deterministic table gives a text the tag that it resolves to. -/
theorem tagFrom?_determinise {t : StateTable} (h : f.determinise = .ok t) (w : List Char)
    (tag : String) : t.tagFrom? t.entry w = some tag ↔ f.Resolves w tag := by
  obtain ⟨x, hx, rfl⟩ := determinise_eq_ok h
  have hentry : (x.table f.tagOf?).entry = 0 := rfl
  rw [hentry, hx.tagFrom?_table _ (fun s _ => sorted_successors f s) hx.entry,
    ← tagAfter?_eq_some_iff, tagAfter?]
  cases follow? (f.successors f.epsilonCount) (f.closure f.epsilonCount [f.start]) w <;> rfl

end Fragment

end LexerGen.Nfa
