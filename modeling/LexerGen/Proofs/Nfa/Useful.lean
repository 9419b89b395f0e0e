import LexerGen.Proofs.Nfa.Subsets

/-! No state of a built fragment is there for nothing: every one is reached from the start and leads
to an accepting state. Building an expression joins its entry to its exit by states that all lie on
some way between the two, which rests on the fact that no set of characters in it is empty. So in
the deterministic automaton every state is live, and trimming has nothing to drop. -/

namespace LexerGen.Nfa

/-! ### States on the way -/

/-- There is a way from one state to another. -/
def Connected (states : States) (n k : Nat) : Prop := ∃ w, Path states n w k

namespace Connected

variable {states states' : States} {n m k : Nat}

theorem refl (states : States) (n : Nat) : Connected states n n := ⟨[], .refl n⟩

theorem trans (h : Connected states n m) (h' : Connected states m k) : Connected states n k := by
  obtain ⟨v, hv⟩ := h
  obtain ⟨w, hw⟩ := h'
  exact ⟨v ++ w, hv.trans hw⟩

theorem mono (hkept : ∀ n u m, Step states n u m → Step states' n u m)
    (h : Connected states n k) : Connected states' n k := by
  obtain ⟨w, hw⟩ := h
  exact ⟨w, between_mono hkept n k hw⟩

end Connected

/-- `states'` extends `states` by states that all lie on a way from `entry` to `exit`. -/
structure Joins (states states' : States) (entry exit : Nat) : Prop where
  size_le : states.size ≤ states'.size
  exit_lt : exit < states'.size
  kept : ∀ n u m, Step states n u m → Step states' n u m
  through : Connected states' entry exit
  reached : ∀ n, states.size ≤ n → n < states'.size → Connected states' entry n
  leaving : ∀ n, states.size ≤ n → n < states'.size → Connected states' n exit

namespace Joins

variable {s₁ s₂ s₃ : States} {a b c d : Nat}

/-- Edges that are added without new states, and with them a way from `a` to `b`. -/
theorem of_size_eq (hsize : s₂.size = s₁.size) (hb : b < s₁.size)
    (hkept : ∀ n u m, Step s₁ n u m → Step s₂ n u m) (hthrough : Connected s₂ a b) :
    Joins s₁ s₂ a b :=
  ⟨by omega, by omega, hkept, hthrough, fun n _ _ => by omega, fun n _ _ => by omega⟩

theorem stay (hb : b < s₁.size) (h : Connected s₁ a b) : Joins s₁ s₁ a b :=
  of_size_eq rfl hb (fun _ _ _ hs => hs) h

/-- Two joins one after the other, where the second one starts at a place that is reached from `a`
and ends at one that `b` leads to. -/
theorem glue (h₁ : Joins s₁ s₂ a b) (h₂ : Joins s₂ s₃ c d) (hac : Connected s₃ a c)
    (hbd : Connected s₃ b d) : Joins s₁ s₃ a d := by
  refine ⟨Nat.le_trans h₁.size_le h₂.size_le, h₂.exit_lt,
    fun n u m hs => h₂.kept n u m (h₁.kept n u m hs), hac.trans h₂.through, ?_, ?_⟩
  · intro n hn hlt
    by_cases hold : n < s₂.size
    · exact (h₁.reached n hn hold).mono h₂.kept
    · exact hac.trans (h₂.reached n (by omega) hlt)
  · intro n hn hlt
    by_cases hold : n < s₂.size
    · exact ((h₁.leaving n hn hold).mono h₂.kept).trans hbd
    · exact h₂.leaving n (by omega) hlt

/-- What is built behind the exit makes the way longer. -/
theorem trans (h₁ : Joins s₁ s₂ a b) (h₂ : Joins s₂ s₃ b c) : Joins s₁ s₃ a c :=
  h₁.glue h₂ (h₁.through.mono h₂.kept) h₂.through

/-- What is built between the same states makes a second way. -/
theorem beside (h₁ : Joins s₁ s₂ a b) (h₂ : Joins s₂ s₃ a b) : Joins s₁ s₃ a b :=
  h₁.glue h₂ (.refl s₃ a) (.refl s₃ b)

/-- A state that is added first and is the exit in the end lies on the way too. -/
theorem of_addState (h : Joins s₁.addState s₂ a s₁.size) : Joins s₁ s₂ a s₁.size := by
  have hsize := States.size_addState s₁
  have hle := h.size_le
  refine ⟨by omega, h.exit_lt, fun n u m hs => h.kept n u m ?_, h.through, ?_, ?_⟩
  · rwa [Step, States.state_addState]
  · intro n hn hlt
    by_cases heq : n = s₁.size
    · rw [heq]
      exact h.through
    · exact h.reached n (by omega) hlt
  · intro n hn hlt
    by_cases heq : n = s₁.size
    · rw [heq]
      exact Connected.refl s₂ s₁.size
    · exact h.leaving n (by omega) hlt

theorem of_adds {T : Language Char} (h : Adds s₁ s₂ a T b) (hsize : s₂.size = s₁.size)
    (hb : b < s₁.size) (hT : ∃ w, w ∈ T) : Joins s₁ s₂ a b := by
  obtain ⟨w, hw⟩ := hT
  exact of_size_eq hsize hb (fun n u m hs => (h n u m).2 (.inl hs)) ⟨w, h.le_between hw⟩

theorem addEpsilon (ha : a < s₁.size) (hb : b < s₁.size) :
    Joins s₁ (s₁.addEpsilon a b) a b :=
  of_adds (adds_addEpsilon ha b) (States.size_addEpsilon s₁ a b) hb ⟨[], Language.nil_mem_one⟩

theorem addSet (ha : a < s₁.size) (hb : b < s₁.size) {chars : CharSet}
    (hchars : ∃ x, chars.contains x = true) : Joins s₁ (s₁.addSet a chars b) a b := by
  obtain ⟨x, hx⟩ := hchars
  exact of_adds (adds_addSet ha b chars) (States.size_addSet s₁ a chars b) hb ⟨[x], x, hx, rfl⟩

/-- A new state and an edge to it that reads nothing. -/
theorem addState_addEpsilon (ha : a < s₁.size) :
    Joins s₁ (s₁.addState.addEpsilon a s₁.size) a s₁.size := by
  have hsize := States.size_addState s₁
  apply of_addState
  apply addEpsilon
  · omega
  · omega

end Joins

/-! ### Expressions -/

/-- Wherever `body` starts, the states that it builds lie on the way to its exit. -/
def Connects (body : Build) : Prop :=
  ∀ (states : States) (entry exit : Nat) (states' : States), entry < states.size →
    body entry states = .ok (exit, states') → Joins states states' entry exit

section

variable {body : Build} (hbody : Connects body) {pos : Nat}
include hbody

theorem connects_copies (n : Nat) : Connects (copies body pos n) := by
  induction n with
  | zero =>
    intro states entry exit states' he h
    obtain ⟨rfl, rfl⟩ := Prod.mk.inj (Except.ok.inj h)
    exact Joins.stay he (Connected.refl _ _)
  | succ n ih =>
    intro states entry exit states' he h
    rw [copies] at h
    split at h
    · cases h
    · rename_i next states₁ h₁
      split at h
      · cases h
      · have hj := hbody _ _ _ _ he h₁
        exact hj.trans (ih _ _ _ _ hj.exit_lt h)

/-- The edges past the copies add no states, so it does not matter here where they lead. -/
theorem connects_optionalCopies (target n : Nat) :
    Connects (optionalCopies body pos target n) := by
  induction n with
  | zero =>
    intro states entry exit states' he h
    obtain ⟨rfl, rfl⟩ := Prod.mk.inj (Except.ok.inj h)
    exact Joins.stay he (Connected.refl _ _)
  | succ n ih =>
    intro states entry exit states' he h
    rw [optionalCopies] at h
    split at h
    · cases h
    · rename_i next states₁ h₁
      split at h
      · cases h
      · have hpast : Joins states (states.addEpsilon entry target) entry entry :=
          Joins.of_size_eq (States.size_addEpsilon states entry target) he
            (fun n u m hs => (adds_addEpsilon he target n u m).2 (.inl hs)) (Connected.refl _ _)
        have hj := hpast.trans (hbody _ _ _ _ hpast.exit_lt h₁)
        exact hj.trans (ih _ _ _ _ hj.exit_lt h)

end

mutual

/-- Every state of an expression lies on a way from its entry to its exit. -/
theorem connects_build : ∀ {r : Regex}, r.Proper → Connects (build r)
  | .set chars, hr, states, entry, exit, states', he, h => by
    rw [build] at h
    rw [Regex.Proper] at hr
    obtain ⟨rfl, rfl⟩ := Prod.mk.inj (Except.ok.inj h)
    have hsize := States.size_addState states
    exact Joins.of_addState (Joins.addSet (by omega) (by omega) hr)
  | .concat items, hr, states, entry, exit, states', he, h => by
    rw [build] at h
    rw [Regex.Proper] at hr
    exact connects_buildItems hr _ _ _ _ he h
  | .alternate branches, hr, states, entry, exit, states', he, h => by
    rw [build] at h
    rw [Regex.Proper] at hr
    split at h
    · cases h
    · rename_i states₁ h₁
      obtain ⟨rfl, rfl⟩ := Prod.mk.inj (Except.ok.inj h)
      have hsize := States.size_addState states
      exact Joins.of_addState
        (joins_buildBranches hr.2 (.inl hr.1) (by omega) (by omega) h₁)
  | .repeated body min max pos, hr, states, entry, exit, states', he, h => by
    rw [build] at h
    rw [Regex.Proper] at hr
    have hbody := connects_build hr.1
    split at h
    · cases h
    · rename_i current states₁ h₁
      have hcopies := connects_copies hbody min _ _ _ _ he h₁
      have hcurrent := hcopies.exit_lt
      split at h
      · simp only at h
        split at h
        · cases h
        · rename_i last states₂ h₂
          obtain ⟨rfl, rfl⟩ := Prod.mk.inj (Except.ok.inj h)
          have hhead := Joins.addState_addEpsilon hcurrent
          have hj := hbody _ _ _ _ hhead.exit_lt h₂
          have hback := Joins.addEpsilon hj.exit_lt (Nat.lt_of_lt_of_le hhead.exit_lt hj.size_le)
          exact hcopies.trans (hhead.trans (hj.trans hback))
      · rename_i max
        simp only at h
        split at h
        · cases h
        · rename_i last states₂ h₂
          obtain ⟨rfl, rfl⟩ := Prod.mk.inj (Except.ok.inj h)
          have hsize := States.size_addState states₁
          have hj := connects_optionalCopies hbody _ _ _ _ _ _ (by omega) h₂
          have hle := hj.size_le
          have hleft := Joins.addEpsilon hj.exit_lt (b := states₁.size) (by omega)
          exact hcopies.trans (Joins.of_addState (hj.trans hleft))

theorem connects_buildItems : ∀ {items : List Regex}, Regex.ProperAll items →
    Connects (buildItems items)
  | [], _, states, entry, exit, states', he, h => by
    rw [buildItems] at h
    obtain ⟨rfl, rfl⟩ := Prod.mk.inj (Except.ok.inj h)
    exact Joins.stay he (Connected.refl _ _)
  | item :: items, hr, states, entry, exit, states', he, h => by
    rw [buildItems] at h
    rw [Regex.ProperAll] at hr
    split at h
    · cases h
    · rename_i next states₁ h₁
      have hj := connects_build hr.1 _ _ _ _ he h₁
      exact hj.trans (connects_buildItems hr.2 _ _ _ _ hj.exit_lt h)

/-- A branch joins `entry` to `exit`; without branches they must be joined already. -/
theorem joins_buildBranches : ∀ {branches : List Regex}, Regex.ProperAll branches →
    ∀ {states states' : States} {entry exit : Nat},
    branches ≠ [] ∨ Connected states entry exit → entry < states.size → exit < states.size →
    buildBranches exit branches entry states = .ok states' → Joins states states' entry exit
  | [], _, states, states', entry, exit, hjoined, he, hexit, h => by
    rw [buildBranches] at h
    obtain rfl := Except.ok.inj h
    have hconnected := hjoined.resolve_left fun hne => hne rfl
    exact Joins.stay hexit hconnected
  | branch :: branches, hr, states, states', entry, exit, _, he, hexit, h => by
    rw [buildBranches] at h
    rw [Regex.ProperAll] at hr
    split at h
    · cases h
    · rename_i last states₁ h₁
      have hfirst := Joins.addState_addEpsilon he
      have hbranch := hfirst.trans (connects_build hr.1 _ _ _ _ hfirst.exit_lt h₁)
      have hle := hbranch.size_le
      have hj := hbranch.trans (Joins.addEpsilon hbranch.exit_lt (b := exit) (by omega))
      have hsize := States.size_addEpsilon states₁ last exit
      exact hj.beside (joins_buildBranches hr.2 (.inr hj.through) (by omega) (by omega) h)

end

/-! ### Fragments -/

namespace Fragment

open Exploration

/-- Every state lies on a way from the start to an accepting state. -/
structure Useful (f : Fragment) : Prop where
  reached : ∀ n < f.size, Connected f.states f.start n
  leaving : ∀ n < f.size, ∃ k a, Connected f.states n k ∧ (f.state k).accept = some a

theorem useful_ofRegex {r : Regex} (hr : r.Proper) {f : Fragment} (h : ofRegex r = .ok f) :
    f.Useful := by
  unfold ofRegex at h
  split at h
  · cases h
  · rename_i exit states hbuild
    obtain rfl := Except.ok.inj h
    have hj := connects_build hr _ _ _ _ Nat.zero_lt_one hbuild
    have hstate := States.state_modify states hj.exit_lt
      fun s => { s with accept := some .untagged }
    -- The mark of the exit changes no edges.
    have hkept : ∀ n u m, Step states n u m →
        Step (states.modify exit fun s => { s with accept := some .untagged }) n u m := by
      intro n u m hs
      rw [Step, hstate]
      split
      · exact hs
      · exact hs
    have hsize : Fragment.size ⟨states.modify exit fun s =>
        { s with accept := some .untagged }, 0⟩ = states.size := Array.size_modify
    refine ⟨fun n hn => ?_, fun n hn => ⟨exit, .untagged, ?_, ?_⟩⟩
    · by_cases hzero : n = 0
      · rw [hzero]
        exact Connected.refl _ 0
      · exact (hj.reached n (Nat.pos_of_ne_zero hzero) (by omega)).mono hkept
    · by_cases hzero : n = 0
      · rw [hzero]
        exact hj.through.mono hkept
      · exact (hj.leaving n (Nat.pos_of_ne_zero hzero) (by omega)).mono hkept
    · rw [← state_states, hstate, if_pos rfl]

theorem Useful.stamp {f : Fragment} (hf : f.Useful) (tag : String) (priority : Nat) :
    (f.stamp tag priority).Useful := by
  have hsize : (f.stamp tag priority).size = f.size := by simp [Fragment.stamp, size]
  have hkept : ∀ n u m, Step f.states n u m → Step (f.stamp tag priority).states n u m := by
    intro n u m hs
    rw [Step, state_states, state_stamp]
    exact hs
  refine ⟨fun n hn => (hf.reached n (by omega)).mono hkept, fun n hn => ?_⟩
  obtain ⟨k, a, hk, ha⟩ := hf.leaving n (by omega)
  refine ⟨k, ⟨tag, priority⟩, hk.mono hkept, ?_⟩
  rw [state_stamp, ha]
  rfl

section

variable {f g : Fragment}

theorem exists_accepting_union_left (hf : f.WellFormed) (hf' : f.Useful) {n : Nat}
    (hn : n < f.size) :
    ∃ k a, Connected (f.union g).states n k ∧ ((f.union g).state k).accept = some a := by
  obtain ⟨k, a, ⟨w, hw⟩, ha⟩ := hf'.leaving n hn
  refine ⟨k, a, ⟨w, (path_union_left hf hn).2 hw⟩, ?_⟩
  rw [state_union_left (Path.target_lt hf.closed hw hn), ha]

theorem exists_accepting_union_right (hg : g.WellFormed) (hg' : g.Useful) {n : Nat}
    (hn : n < g.size) :
    ∃ k a, Connected (f.union g).states (n + f.size) k ∧
      ((f.union g).state k).accept = some a := by
  obtain ⟨k, a, ⟨w, hw⟩, ha⟩ := hg'.leaving n hn
  refine ⟨k + f.size, a, ⟨w, (path_union_right hg hn).2 ⟨k, rfl, hw⟩⟩, ?_⟩
  rw [state_union_right (Path.target_lt hg.closed hw hn)]
  exact ha

theorem Useful.union (hf : f.WellFormed) (hg : g.WellFormed) (hf' : f.Useful) (hg' : g.Useful) :
    (f.union g).Useful := by
  constructor
  · intro n hn
    rcases union_cases f g n with hn | ⟨m, hm, rfl⟩ | rfl | hle
    · obtain ⟨w, hw⟩ := hf'.reached n hn
      exact ⟨w, (reaches_union hf hg).2 (.inr (.inl hw))⟩
    · obtain ⟨w, hw⟩ := hg'.reached m hm
      exact ⟨w, (reaches_union hf hg).2 (.inr (.inr ⟨m, rfl, hw⟩))⟩
    · exact Connected.refl _ _
    · omega
  · intro n hn
    rcases union_cases f g n with hn | ⟨m, hm, rfl⟩ | rfl | hle
    · exact exists_accepting_union_left hf hf' hn
    · exact exists_accepting_union_right hg hg' hm
    · -- The new start goes on to that of the first part.
      obtain ⟨k, a, ⟨w, hw⟩, ha⟩ := exists_accepting_union_left hf hf' hf.start_lt
      refine ⟨k, a, ⟨w, .epsilon (m := f.start) ?_ hw⟩, ha⟩
      rw [state_states, state_union_start]
      exact List.mem_cons_self
    · omega

end

/-- No state of a built fragment is there for nothing. -/
theorem Built.useful {f : Fragment} (h : f.Built) : f.Useful := by
  induction h with
  | compile h =>
    obtain ⟨r, -, hr, h⟩ := compile_spec h
    exact useful_ofRegex hr h
  | stamp _ tag priority ih => exact ih.stamp tag priority
  | union hf hg ihf ihg => exact Useful.union hf.wellFormed hg.wellFormed ihf ihg

/-! ### The deterministic automaton -/

theorem exists_tagOf? {f : Fragment} {members : List Nat} {n : Nat} {a : Accept} (hn : n ∈ members)
    (ha : (f.state n).accept = some a) : ∃ tag, f.tagOf? members = some tag := by
  have hmem : a ∈ members.filterMap fun n => (f.state n).accept :=
    List.mem_filterMap.2 ⟨n, hn, ha⟩
  cases hs : strongest (members.filterMap fun n => (f.state n).accept) with
  | none =>
    rw [strongest_eq_none.1 hs] at hmem
    cases hmem
  | some b => exact ⟨b.tag, by rw [tagOf?, hs]; rfl⟩

/-- A set of useful states goes on to an accepting set, along the way of any of its members. -/
theorem mem_live_determinise {f : Fragment} (hf : f.WellFormed) (hf' : f.Useful) {t : StateTable}
    (ht : f.determinise = .ok t) {n : Nat} (hn : n < t.size) : n ∈ t.live := by
  rw [StateTable.mem_live (wellFormed_determinise ht)]
  obtain ⟨x, hx, rfl⟩ := determinise_eq_ok ht
  rw [size_table _ hx] at hn
  obtain ⟨S, hS⟩ : ∃ S, x.numbering.states[n]? = some S := ⟨_, Array.getElem?_eq_getElem hn⟩
  have hmeets : f.Meets S := hx.reached S (Numbering.mem_of_getElem? hS)
  obtain ⟨s, hs⟩ := hmeets.exists_mem
  obtain ⟨k, a, ⟨w, hw⟩, ha⟩ := hf'.leaving s (hmeets.lt_size hf hs)
  have hk := (mem_follow? hmeets.epsilonClosed w k).2 ⟨s, hs, hw⟩
  refine ⟨w, ?_⟩
  rw [hx.tagFrom?_table _ (fun S _ => sorted_successors f S) hS]
  cases hT : follow? (f.successors f.epsilonCount) S w with
  | none =>
    rw [hT] at hk
    cases hk
  | some T =>
    rw [hT] at hk
    exact exists_tagOf? hk ha

/-- Every state of a built fragment is reached from the start and leads to an accepting state, and
the start, the targets of all edges and the members of all sets that determinisation meets are
states. So in the deterministic automaton every state is live, and trimming changes nothing. -/
theorem built_useful_live {f : Fragment} (hf : f.Built) :
    f.start < f.size ∧
    (∀ n, (∀ e ∈ (f.state n).edges, e.target < f.size) ∧
      ∀ m ∈ (f.state n).epsilons, m < f.size) ∧
    (∀ S, f.Meets S → ∀ n ∈ S, n < f.size) ∧
    (∀ n < f.size, (∃ w, Path f.states f.start w n) ∧
      ∃ w k a, Path f.states n w k ∧ (f.state k).accept = some a) ∧
    ∀ t, f.determinise = .ok t → (∀ n < t.size, n ∈ t.live) ∧ t.trim = t := by
  have hw := hf.wellFormed
  have hu := hf.useful
  refine ⟨hw.start_lt, fun n => ⟨hw.closed.edge_lt n, hw.closed.epsilon_lt n⟩,
    fun S hS n hn => hS.lt_size hw hn, fun n hn => ⟨hu.reached n hn, ?_⟩, fun t ht => ?_⟩
  · obtain ⟨k, a, ⟨w, hw⟩, ha⟩ := hu.leaving n hn
    exact ⟨w, k, a, hw, ha⟩
  · have hlive : ∀ n < t.size, n ∈ t.live := fun n hn => mem_live_determinise hw hu ht hn
    exact ⟨hlive, StateTable.trim_eq_self (wellFormed_determinise ht) hlive⟩

/-- A repeat that never takes its body keeps a state for the way past it. -/
theorem built_useful_live_never : ∃ f t, compile "a\x7b0\x7d|b".toList = .ok f ∧
    f.determinise = .ok t ∧ f.start < f.size ∧
    (∀ n < f.size, (∃ w, Path f.states f.start w n) ∧
      ∃ w k a, Path f.states n w k ∧ (f.state k).accept = some a) ∧
    (∀ n < t.size, n ∈ t.live) ∧ t.trim = t := by
  have hcompile : compile "a\x7b0\x7d|b".toList = .ok ⟨#[{ epsilons := [2, 4] },
      { accept := some .untagged }, { epsilons := [3] }, { epsilons := [1] },
      { edges := [⟨⟨'b', 'b'⟩, 5⟩] }, { epsilons := [1] }], 0⟩ := by decide +kernel
  have hbuilt := Built.compile hcompile
  obtain ⟨u, hu⟩ := exists_toTable hbuilt.wellFormed (by decide)
  obtain ⟨t, ht, -⟩ := toTable_eq_ok hu
  obtain ⟨hstart, -, -, huseful, htrim⟩ := built_useful_live hbuilt
  exact ⟨_, t, hcompile, ht, hstart, huseful, htrim t ht⟩

end Fragment

end LexerGen.Nfa
