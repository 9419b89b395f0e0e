import LexerGen.Proofs.Nfa.Thompson

/-! What fragments accept. The fragment of a pattern accepts its language, stamping replaces the
marks, and a union accepts what either part accepts. -/

namespace LexerGen.Nfa.Fragment

theorem state_states (f : Fragment) (n : Nat) : States.state f.states n = f.state n := rfl

/-- The start and all targets are states. -/
structure WellFormed (f : Fragment) : Prop where
  start_lt : f.start < f.size
  closed : Closed f.states

theorem Reaches.lt_size {f : Fragment} {w : List Char} {n : Nat} (h : f.Reaches w n)
    (hf : f.WellFormed) : n < f.size := Path.target_lt hf.closed h hf.start_lt

/-! ### Patterns -/

theorem state_single (n : Nat) : States.state #[{}] n = {} := by
  by_cases hn : n = 0
  · rw [hn]
    rfl
  · exact States.state_of_le (Nat.pos_of_ne_zero hn)

theorem closed_single : Closed #[{}] :=
  ⟨fun n e he => by simp [state_single] at he, fun n m hm => by simp [state_single] at hm⟩

/-- The fragment of an expression has one accepting state, and the texts that lead there are those
of the expression. -/
theorem ofRegex_spec {r : Regex} (hr : r.Proper) {f : Fragment} (h : ofRegex r = .ok f) :
    f.WellFormed ∧ ∃ exit,
      (∀ n, (f.state n).accept = if n = exit then some .untagged else none) ∧
        ∀ w, f.Reaches w exit ↔ w ∈ r.language := by
  unfold ofRegex at h
  split at h
  · cases h
  · rename_i exit states hbuild
    obtain rfl := Except.ok.inj h
    have hg := builds_build hr _ _ _ _ closed_single (Nat.zero_lt_one) hbuild
    have hstate := States.state_modify states hg.exit_lt
      fun s => { s with accept := some .untagged }
    have hedges : ∀ n, (States.state (states.modify exit fun s =>
        { s with accept := some .untagged }) n).edges = (states.state n).edges := by
      intro n
      rw [hstate]
      split <;> rfl
    have hepsilons : ∀ n, (States.state (states.modify exit fun s =>
        { s with accept := some .untagged }) n).epsilons = (states.state n).epsilons := by
      intro n
      rw [hstate]
      split <;> rfl
    have hbetween := between_congr hedges hepsilons
    have hclosed := hg.closed.congr (Nat.le_of_eq Array.size_modify.symm) hedges hepsilons
    have hnone : ∀ n, (states.state n).accept = none := by
      intro n
      rw [hg.accept, state_single]
    refine ⟨⟨?_, hclosed⟩, exit, fun n => ?_, fun w => ?_⟩
    · have hpos : 0 < states.size := hg.size_le
      simpa [size] using hpos
    · rw [← state_states, hstate]
      split
      · rename_i heq
        rw [if_pos heq.symm]
      · rename_i hne
        rw [if_neg (Ne.symm hne), hnone]
    · rw [Reaches, ← mem_between, hbetween, hg.exit_eq 0 Nat.zero_lt_one,
        between_of_sink (state_single 0), if_pos rfl, one_mul]

/-- The fragment of a pattern accepts the texts of its expression, for no rule in particular. -/
theorem accepts_ofRegex {r : Regex} (hr : r.Proper) {f : Fragment} (h : ofRegex r = .ok f)
    (w : List Char) (a : Accept) : f.Accepts w a ↔ a = .untagged ∧ w ∈ r.language := by
  obtain ⟨-, exit, haccept, hreaches⟩ := ofRegex_spec hr h
  constructor
  · rintro ⟨n, hn, ha⟩
    rw [haccept] at ha
    split at ha
    · rename_i heq
      subst heq
      exact ⟨(Option.some.inj ha).symm, (hreaches w).1 hn⟩
    · cases ha
  · rintro ⟨rfl, hw⟩
    exact ⟨exit, (hreaches w).2 hw, by rw [haccept, if_pos rfl]⟩

/-! ### Stamping -/

section

variable (f : Fragment) (tag : String) (priority : Nat)

theorem state_stamp (n : Nat) : (f.stamp tag priority).state n =
    { f.state n with accept := (f.state n).accept.map fun _ => ⟨tag, priority⟩ } := by
  by_cases hn : n < f.size
  · have hn : n < f.states.size := hn
    simp [state, stamp, Array.getD_eq_getD_getElem?, hn]
  · have hn : f.size ≤ n := Nat.not_lt.1 hn
    have hsize : (f.stamp tag priority).size = f.size := by simp [stamp, size]
    rw [state_eq_default hn, state_eq_default (by rw [hsize]; exact hn)]
    rfl

theorem reaches_stamp (w : List Char) (n : Nat) :
    (f.stamp tag priority).Reaches w n ↔ f.Reaches w n := by
  have hbetween : between (f.stamp tag priority).states = between f.states :=
    between_congr (fun n => by rw [state_states, state_stamp]; rfl)
      fun n => by rw [state_states, state_stamp]; rfl
  rw [Reaches, ← mem_between, hbetween]
  rfl

theorem WellFormed.stamp {f : Fragment} (hf : f.WellFormed) :
    (f.stamp tag priority).WellFormed := by
  have hsize : (f.stamp tag priority).size = f.size := by simp [Fragment.stamp, size]
  refine ⟨by rw [hsize]; exact hf.start_lt, ?_⟩
  exact hf.closed.congr (Nat.le_of_eq hsize.symm) (fun n => by rw [state_states, state_stamp]; rfl)
    fun n => by rw [state_states, state_stamp]; rfl

theorem accepts_stamp (w : List Char) (a : Accept) :
    (f.stamp tag priority).Accepts w a ↔ a = ⟨tag, priority⟩ ∧ ∃ b, f.Accepts w b := by
  simp only [Accepts, reaches_stamp, state_stamp, Option.map_eq_some_iff]
  constructor
  · rintro ⟨n, hn, b, hb, rfl⟩
    exact ⟨rfl, b, n, hn, hb⟩
  · rintro ⟨rfl, b, n, hn, hb⟩
    exact ⟨n, hn, b, hb, rfl⟩

end

/-! ### Unions -/

section

variable {f g : Fragment}

theorem size_union : (f.union g).size = f.size + g.size + 1 := by
  simp [union, size, Nat.add_assoc]

theorem state_union_left {n : Nat} (hn : n < f.size) : (f.union g).state n = f.state n := by
  have hn : n < f.states.size := hn
  simp [state, union, Array.getD_eq_getD_getElem?, Array.getElem?_append, hn]

theorem state_union_right {n : Nat} (hn : n < g.size) :
    (f.union g).state (n + f.size) = (g.state n).shift f.size := by
  have hn : n < g.states.size := hn
  have hge : ¬n + f.states.size < f.states.size := by omega
  simp [state, union, size, Array.getD_eq_getD_getElem?, Array.getElem?_push,
    Array.getElem?_append, hn, Nat.ne_of_lt hn, hge]

theorem state_union_start :
    (f.union g).state (f.union g).start = { epsilons := [f.start, g.start + f.size] } := by
  simp [state, union, size, Array.getD_eq_getD_getElem?, Array.getElem_push]

/-- A state of a union comes from the one part or the other, is the new start, or is not there. -/
theorem union_cases (f g : Fragment) (n : Nat) :
    n < f.size ∨ (∃ m < g.size, n = m + f.size) ∨ n = (f.union g).start ∨
      (f.union g).size ≤ n := by
  have hsize : (f.union g).size = f.size + g.size + 1 := size_union
  have hstart : (f.union g).start = f.size + g.size := rfl
  by_cases hn : n < f.size
  · exact .inl hn
  · by_cases hn' : n < f.size + g.size
    · exact .inr (.inl ⟨n - f.size, by omega, by omega⟩)
    · omega

variable (hf : f.WellFormed) (hg : g.WellFormed)
include hf

theorem path_union_left {n k : Nat} {w : List Char} (hn : n < f.size) :
    Path (f.union g).states n w k ↔ Path f.states n w k := by
  constructor
  · intro h
    induction h with
    | refl => exact .refl _
    | epsilon he _ ih =>
      rw [state_states, state_union_left hn] at he
      exact .epsilon he (ih (hf.closed.epsilon_lt _ _ he))
    | char he hc _ ih =>
      rw [state_states, state_union_left hn] at he
      exact .char he hc (ih (hf.closed.edge_lt _ _ he))
  · intro h
    induction h with
    | refl => exact .refl _
    | @epsilon n m k w he _ ih =>
      have hlt := hf.closed.epsilon_lt _ _ he
      rw [state_states, ← state_union_left (g := g) hn] at he
      exact .epsilon he (ih hlt)
    | char he hc _ ih =>
      have hlt := hf.closed.edge_lt _ _ he
      rw [state_states, ← state_union_left (g := g) hn] at he
      exact .char he hc (ih hlt)

omit hf in
include hg in
theorem path_union_right {n k : Nat} {w : List Char} (hn : n < g.size) :
    Path (f.union g).states (n + f.size) w k ↔
      ∃ m, k = m + f.size ∧ Path g.states n w m := by
  constructor
  · intro h
    generalize hs : n + f.size = s at h
    induction h generalizing n with
    | refl => exact ⟨n, hs.symm, .refl _⟩
    | epsilon he _ ih =>
      rw [← hs, state_states, state_union_right hn] at he
      obtain ⟨m, hm, rfl⟩ := List.mem_map.1 he
      obtain ⟨k, rfl, hk⟩ := ih (hg.closed.epsilon_lt _ _ hm) rfl
      exact ⟨k, rfl, .epsilon hm hk⟩
    | char he hc _ ih =>
      rw [← hs, state_states, state_union_right hn] at he
      obtain ⟨e, he', rfl⟩ := List.mem_map.1 he
      obtain ⟨k, rfl, hk⟩ := ih (hg.closed.edge_lt _ _ he') rfl
      exact ⟨k, rfl, .char he' hc hk⟩
  · rintro ⟨m, rfl, h⟩
    induction h with
    | refl => exact .refl _
    | @epsilon n m k w he _ ih =>
      refine .epsilon (m := m + f.size) ?_ (ih (hg.closed.epsilon_lt _ _ he))
      rw [state_states, state_union_right hn]
      exact List.mem_map_of_mem he
    | @char n k c w e he hc _ ih =>
      refine .char (e := { e with target := e.target + f.size }) ?_ hc
        (ih (hg.closed.edge_lt _ _ he))
      rw [state_states, state_union_right hn]
      exact List.mem_map_of_mem he

include hg

theorem WellFormed.union : (f.union g).WellFormed := by
  have hsize : (f.union g).size = f.size + g.size + 1 := size_union
  have hstart : (f.union g).start = f.size + g.size := rfl
  have hf' := hf.start_lt
  have hg' := hg.start_lt
  refine ⟨by omega, ⟨fun n e he => ?_, fun n m hm => ?_⟩⟩
  · change e.target < (f.union g).size
    rw [state_states] at he
    rcases union_cases f g n with hn | ⟨k, hk, rfl⟩ | rfl | hn
    · rw [state_union_left hn] at he
      have : e.target < f.size := hf.closed.edge_lt _ _ he
      omega
    · rw [state_union_right hk] at he
      obtain ⟨e, he', rfl⟩ := List.mem_map.1 he
      have : e.target < g.size := hg.closed.edge_lt _ _ he'
      simp only
      omega
    · rw [state_union_start] at he
      cases he
    · rw [state_eq_default hn] at he
      cases he
  · change m < (f.union g).size
    rw [state_states] at hm
    rcases union_cases f g n with hn | ⟨k, hk, rfl⟩ | rfl | hn
    · rw [state_union_left hn] at hm
      have : m < f.size := hf.closed.epsilon_lt _ _ hm
      omega
    · rw [state_union_right hk] at hm
      obtain ⟨m, hm', rfl⟩ := List.mem_map.1 hm
      have : m < g.size := hg.closed.epsilon_lt _ _ hm'
      omega
    · rw [state_union_start] at hm
      simp only [List.mem_cons, List.not_mem_nil, or_false] at hm
      omega
    · rw [state_eq_default hn] at hm
      cases hm

/-- A text leads to the states of either part. -/
theorem reaches_union {w : List Char} {k : Nat} : (f.union g).Reaches w k ↔
    (w = [] ∧ k = (f.union g).start) ∨ f.Reaches w k ∨ ∃ m, k = m + f.size ∧ g.Reaches w m := by
  rw [Reaches, Reaches, ← path_union_left (g := g) hf hf.start_lt]
  simp only [Reaches]
  rw [← path_union_right hg hg.start_lt]
  constructor
  · intro h
    cases h with
    | refl => exact .inl ⟨rfl, rfl⟩
    | epsilon he rest =>
      rw [state_states, state_union_start] at he
      simp only [List.mem_cons, List.not_mem_nil, or_false] at he
      rcases he with rfl | rfl
      · exact .inr (.inl rest)
      · exact .inr (.inr rest)
    | char he =>
      rw [state_states, state_union_start] at he
      cases he
  · have hepsilons : (States.state (f.union g).states (f.union g).start).epsilons =
        [f.start, g.start + f.size] := by rw [state_states, state_union_start]
    rintro (⟨rfl, rfl⟩ | h | h)
    · exact .refl _
    · exact .epsilon (by simp [hepsilons]) h
    · exact .epsilon (by simp [hepsilons]) h

/-- The accepting states that a text leads to are those of the parts. -/
theorem reaches_accepting_union {w : List Char} {k : Nat} {a : Accept} :
    (f.union g).Reaches w k ∧ ((f.union g).state k).accept = some a ↔
      (f.Reaches w k ∧ (f.state k).accept = some a) ∨
        ∃ m, k = m + f.size ∧ g.Reaches w m ∧ (g.state m).accept = some a := by
  rw [reaches_union hf hg]
  constructor
  · rintro ⟨⟨-, rfl⟩ | hk | ⟨m, rfl, hm⟩, ha⟩
    · rw [state_union_start] at ha
      cases ha
    · rw [state_union_left (hk.lt_size hf)] at ha
      exact .inl ⟨hk, ha⟩
    · rw [state_union_right (hm.lt_size hg)] at ha
      exact .inr ⟨m, rfl, hm, ha⟩
  · rintro (⟨hk, ha⟩ | ⟨m, rfl, hm, ha⟩)
    · refine ⟨.inr (.inl hk), ?_⟩
      rw [state_union_left (hk.lt_size hf), ha]
    · refine ⟨.inr (.inr ⟨m, rfl, hm⟩), ?_⟩
      rw [state_union_right (hm.lt_size hg)]
      exact ha

theorem accepts_union (w : List Char) (a : Accept) :
    (f.union g).Accepts w a ↔ f.Accepts w a ∨ g.Accepts w a := by
  simp only [Accepts, reaches_accepting_union hf hg, exists_or]
  refine or_congr_right ⟨?_, ?_⟩
  · rintro ⟨_, m, -, hm⟩
    exact ⟨m, hm⟩
  · rintro ⟨m, hm⟩
    exact ⟨m + f.size, m, rfl, hm⟩

end

/-! ### Accepting states -/

theorem mem_accepting {f : Fragment} {n : Nat} {a : Accept} :
    (n, a) ∈ f.accepting ↔ (f.state n).accept = some a := by
  simp only [accepting, List.mem_filterMap, Prod.exists, List.mem_zipIdx_iff_getElem?,
    Array.getElem?_toList, Option.map_eq_some_iff, Prod.mk.injEq]
  constructor
  · rintro ⟨s, i, hs, a', ha, rfl, rfl⟩
    rw [state, Array.getD_eq_getD_getElem?, hs]
    exact ha
  · intro h
    by_cases hn : n < f.size
    · have hn' : f.states[n]? = some (f.state n) := by
        have hn : n < f.states.size := hn
        simp [state, Array.getD_eq_getD_getElem?, hn]
      exact ⟨_, n, hn', a, h, rfl, rfl⟩
    · rw [state_eq_default (Nat.not_lt.1 hn)] at h
      cases h

/-- The accepting states are listed by increasing number. -/
theorem pairwise_accepting (f : Fragment) : f.accepting.Pairwise fun p q => p.1 < q.1 := by
  rw [accepting, List.pairwise_filterMap, List.pairwise_iff_getElem]
  intro i j hi hj hij p hp q hq
  rw [List.getElem_zipIdx] at hp hq
  obtain ⟨a, -, rfl⟩ := Option.map_eq_some_iff.1 hp
  obtain ⟨b, -, rfl⟩ := Option.map_eq_some_iff.1 hq
  omega

/-! ### Built fragments -/

theorem compile_spec {cs : List Char} {f : Fragment} (h : compile cs = .ok f) :
    ∃ r, Regex.parse cs = .ok r ∧ r.Proper ∧ ofRegex r = .ok f := by
  unfold compile at h
  split at h
  · cases h
  · rename_i r hr
    exact ⟨r, hr, Regex.proper_of_parse hr, h⟩

/-- The fragment of a pattern has a single accepting state, which is untagged, and the texts along
the ways there from the start are those of the pattern's expression. -/
theorem compile_accepts_language {cs : List Char} {f : Fragment} (h : compile cs = .ok f) :
    ∃ r exit, Regex.parse cs = .ok r ∧ f.accepting = [(exit, .untagged)] ∧
      ∀ w, Path f.states f.start w exit ↔ w ∈ r.language := by
  obtain ⟨r, hparse, hproper, hof⟩ := compile_spec h
  obtain ⟨-, exit, haccept, hreaches⟩ := ofRegex_spec hproper hof
  have hmem : ∀ p, p ∈ f.accepting ↔ p ∈ [(exit, Accept.untagged)] := by
    rintro ⟨n, a⟩
    rw [mem_accepting, haccept, List.mem_singleton, Prod.mk.injEq]
    split
    · rename_i heq
      simp [heq, eq_comm]
    · rename_i hne
      simp [hne]
  have hnodup : f.accepting.Nodup := (pairwise_accepting f).imp fun hlt heq => by
    rw [heq] at hlt
    exact Nat.lt_irrefl _ hlt
  have hperm := (List.perm_ext_iff_of_nodup hnodup (List.nodup_singleton _)).2 hmem
  exact ⟨r, exit, hparse, List.perm_singleton.1 hperm, hreaches⟩

/-- A counted repeat of an alternation. -/
theorem compile_accepts_language_repeat : ∃ f, compile "(a|b)\x7b1,2\x7d".toList = .ok f ∧
    ∃ r exit, Regex.parse "(a|b)\x7b1,2\x7d".toList = .ok r ∧ f.accepting = [(exit, .untagged)] ∧
      ∀ w, Path f.states f.start w exit ↔ w ∈ r.language := by
  have hok : (compile "(a|b)\x7b1,2\x7d".toList).isOk = true := by decide +kernel
  cases hc : compile "(a|b)\x7b1,2\x7d".toList with
  | error e => rw [hc] at hok; cases hok
  | ok f => exact ⟨f, rfl, compile_accepts_language hc⟩

theorem Built.wellFormed {f : Fragment} (h : f.Built) : f.WellFormed := by
  induction h with
  | compile h =>
    obtain ⟨r, -, hr, h⟩ := compile_spec h
    exact (ofRegex_spec hr h).1
  | stamp _ tag priority ih => exact ih.stamp tag priority
  | union _ _ ihf ihg => exact ihf.union ihg

/-- Every built fragment accepts some text. -/
theorem Built.exists_accepts {f : Fragment} (h : f.Built) : ∃ w a, f.Accepts w a := by
  induction h with
  | compile h =>
    obtain ⟨r, -, hr, h⟩ := compile_spec h
    obtain ⟨w, hw⟩ := hr.exists_mem
    exact ⟨w, .untagged, (accepts_ofRegex hr h w _).2 ⟨rfl, hw⟩⟩
  | stamp _ tag priority ih =>
    obtain ⟨w, a, ha⟩ := ih
    exact ⟨w, ⟨tag, priority⟩, (accepts_stamp _ _ _ w _).2 ⟨rfl, a, ha⟩⟩
  | union hf hg ihf _ =>
    obtain ⟨w, a, ha⟩ := ihf
    exact ⟨w, a, (accepts_union hf.wellFormed hg.wellFormed w a).2 (.inl ha)⟩

end LexerGen.Nfa.Fragment
