import LexerGen.Nfa.Compile
import LexerGen.Proofs.Minimise
import LexerGen.Proofs.Nfa.Built
import LexerGen.Proofs.Nfa.Determinise
import LexerGen.Proofs.TableParts
import Mathlib.Data.List.Sort
import Mathlib.Data.List.Sublists

/-! The table of a fragment. It gives every text the tag that the text resolves to, it passes all
checks on tables, it has no state and no edge too many, and it depends on nothing but the tags:
fragments that resolve every text alike have the same table. -/

namespace LexerGen.Nfa.Fragment

open Exploration

variable {f g : Fragment} {t u : StateTable}

/-- A text that is accepted resolves to a tag. -/
theorem exists_resolves {w : List Char} {a : Accept} (h : f.Accepts w a) :
    ∃ tag, f.Resolves w tag := by
  classical
  -- The lowest priority first, then the lowest number among the states with it.
  have hpriority : ∃ p n b, f.Reaches w n ∧ (f.state n).accept = some b ∧ b.priority = p := by
    obtain ⟨n, hn, ha⟩ := h
    exact ⟨a.priority, n, a, hn, ha, rfl⟩
  have hstate : ∃ n b, f.Reaches w n ∧ (f.state n).accept = some b ∧
      b.priority = Nat.find hpriority := Nat.find_spec hpriority
  obtain ⟨b, hreaches, hb, hp⟩ := Nat.find_spec hstate
  refine ⟨b.tag, Nat.find hstate, b, hreaches, hb, rfl, fun m d hm hd => ?_⟩
  have hle := Nat.find_min' hpriority ⟨m, d, hm, hd, rfl⟩
  rcases Nat.lt_or_eq_of_le hle with hlt | heq
  · exact .inl (by omega)
  · exact .inr ⟨by omega, Nat.find_min' hstate ⟨d, hm, hd, heq.symm⟩⟩

/-- The texts of a pattern resolve to the empty tag, and no others resolve. -/
theorem resolves_compile {cs : List Char} {r : Regex} (h : compile cs = .ok f)
    (hr : Regex.parse cs = .ok r) (w : List Char) (tag : String) :
    f.Resolves w tag ↔ tag = "" ∧ w ∈ r.language := by
  obtain ⟨r', hr', hproper, hof⟩ := compile_spec h
  obtain rfl := Except.ok.inj (hr.symm.trans hr')
  constructor
  · rintro ⟨n, a, hn, ha, rfl, -⟩
    obtain ⟨rfl, hw⟩ := (accepts_ofRegex hproper hof w a).1 ⟨n, hn, ha⟩
    exact ⟨rfl, hw⟩
  · rintro ⟨rfl, hw⟩
    obtain ⟨tag, hresolves⟩ := exists_resolves ((accepts_ofRegex hproper hof w _).2 ⟨rfl, hw⟩)
    have ⟨n, a, hn, ha, htag, _⟩ := hresolves
    obtain ⟨rfl, -⟩ := (accepts_ofRegex hproper hof w a).1 ⟨n, hn, ha⟩
    rwa [← htag] at hresolves

theorem Resolves.accepts {w : List Char} {tag : String} (h : f.Resolves w tag) :
    ∃ a, f.Accepts w a := by
  obtain ⟨n, a, hn, ha, -⟩ := h
  exact ⟨a, n, hn, ha⟩

/-! ### The passes together -/

theorem toTable_eq_ok (h : f.toTable = .ok t) :
    ∃ t₁, f.determinise = .ok t₁ ∧ t = t₁.trim.minimise := by
  unfold toTable at h
  cases hd : f.determinise with
  | error e => rw [hd] at h; cases h
  | ok t₁ =>
    rw [hd] at h
    exact ⟨t₁, rfl, (Except.ok.inj h).symm⟩

theorem wellFormed_toTable (h : f.toTable = .ok t) : t.WellFormed := by
  obtain ⟨t₁, h₁, rfl⟩ := toTable_eq_ok h
  have hw := wellFormed_determinise h₁
  exact StateTable.wellFormed_minimise (StateTable.wellFormed_trim hw) (StateTable.live_trim hw)

theorem entry_toTable (h : f.toTable = .ok t) : t.entry = 0 := by
  obtain ⟨t₁, h₁, rfl⟩ := toTable_eq_ok h
  have hw := wellFormed_determinise h₁
  exact StateTable.entry_minimise (StateTable.wellFormed_trim hw) (StateTable.live_trim hw)

theorem size_toTable_le (h : f.toTable = .ok t) : t.size ≤ Limits.maxDfaStates := by
  obtain ⟨t₁, h₁, rfl⟩ := toTable_eq_ok h
  have hw := wellFormed_determinise h₁
  have hle := StateTable.size_minimise_le (StateTable.wellFormed_trim hw) (StateTable.live_trim hw)
  rw [StateTable.size_trim] at hle
  exact Nat.le_trans hle (size_determinise_le h₁)

theorem tagFrom?_trim_determinise {t₁ : StateTable} (h : f.determinise = .ok t₁) (w : List Char)
    (tag : String) :
    t₁.trim.tagFrom? t₁.trim.entry w = some tag ↔ f.Resolves w tag := by
  rw [StateTable.tagFrom?_trim (wellFormed_determinise h)]
  exact tagFrom?_determinise h w tag

/-- The table gives a text the tag that it resolves to. -/
theorem tagFrom?_toTable (h : f.toTable = .ok t) (w : List Char) (tag : String) :
    t.tagFrom? t.entry w = some tag ↔ f.Resolves w tag := by
  obtain ⟨t₁, h₁, rfl⟩ := toTable_eq_ok h
  have hw := wellFormed_determinise h₁
  rw [StateTable.tagFrom?_minimise (StateTable.wellFormed_trim hw) (StateTable.live_trim hw)]
  exact tagFrom?_trim_determinise h₁ w tag

/-- A set of states that can be reached holds states of the fragment only, in increasing order. -/
theorem sublist_range_of_follows (hf : f.WellFormed) {S : List Nat}
    (h : Follows (f.successors f.epsilonCount) (f.closure f.epsilonCount [f.start]) S) :
    S.Sublist (List.range f.size) := by
  have hclosure : ∀ seeds : List Nat, (∀ n ∈ seeds, n < f.size) →
      (f.closure f.epsilonCount seeds).Sublist (List.range f.size) := by
    intro seeds hseeds
    have hpairwise := pairwise_closure f f.epsilonCount seeds
    have hsubset : f.closure f.epsilonCount seeds ⊆ List.range f.size := by
      intro n hn
      obtain ⟨s, hs, hp⟩ := mem_closure.1 hn
      exact List.mem_range.2 (Path.target_lt hf.closed hp (hseeds s hs))
    have hnodup : (f.closure f.epsilonCount seeds).Nodup := hpairwise.imp Nat.ne_of_lt
    exact List.sublist_of_subperm_of_pairwise (hnodup.subperm hsubset) (hpairwise.imp Nat.le_of_lt)
      List.pairwise_le_range
  induction h with
  | refl => exact hclosure [f.start] fun n hn => List.mem_singleton.1 hn ▸ hf.start_lt
  | @tail a b _ hab _ =>
    obtain ⟨⟨r, S⟩, hS, rfl⟩ := List.mem_map.1 hab
    obtain ⟨-, -, rfl⟩ := mem_successors hS
    refine hclosure _ fun n hn => ?_
    obtain ⟨e, he, rfl⟩ := List.mem_map.1 hn
    obtain ⟨m, -, hm⟩ := List.mem_flatMap.1 (List.mem_filter.1 he).1
    exact hf.closed.edge_lt m e hm

/-- A fragment with few states is never too large. -/
theorem exists_toTable (hf : f.WellFormed) (hsize : 2 ^ f.size ≤ Limits.maxDfaStates) :
    ∃ t, f.toTable = .ok t := by
  cases hd : f.determinise with
  | ok t => exact ⟨t.trim.minimise, by rw [toTable, hd]; rfl⟩
  | error e =>
    unfold determinise at hd
    simp only at hd
    split at hd
    · rename_i hrun
      obtain ⟨l, hnodup, hlength, hfollows⟩ := run_eq_none hrun
      have hsubset : l ⊆ (List.range f.size).sublists := fun S hS =>
        List.mem_sublists.2 (sublist_range_of_follows hf (hfollows S hS))
      have hle := (hnodup.subperm hsubset).length_le
      rw [List.length_sublists, List.length_range] at hle
      omega
    · cases hd

/-- Following a text ends in a state with the tag of the strongest accepting state that the text
leads to, and if there is none it gets stuck or ends in a state that does not accept. -/
theorem toTable_resolves (h : f.toTable = .ok t) (w : List Char) :
    (∀ tag, (∃ s, t.runFrom? t.entry w = some s ∧ t.tag? s = some tag) ↔ f.Resolves w tag) ∧
    ((∃ s tag, t.runFrom? t.entry w = some s ∧ t.tag? s = some tag) ↔
      ∃ n a, f.Reaches w n ∧ (f.state n).accept = some a) ∧
    ((¬∃ n a, f.Reaches w n ∧ (f.state n).accept = some a) →
      t.runFrom? t.entry w = none ∨ ∃ s, t.runFrom? t.entry w = some s ∧ t.tag? s = none) := by
  have htag : ∀ tag, (∃ s, t.runFrom? t.entry w = some s ∧ t.tag? s = some tag) ↔
      f.Resolves w tag := by
    intro tag
    rw [← tagFrom?_toTable h, StateTable.tagFrom?, Option.bind_eq_some_iff]
  have haccept : (∃ s tag, t.runFrom? t.entry w = some s ∧ t.tag? s = some tag) ↔
      ∃ n a, f.Reaches w n ∧ (f.state n).accept = some a := by
    constructor
    · rintro ⟨s, tag, hs⟩
      obtain ⟨a, n, hn, ha⟩ := ((htag tag).1 ⟨s, hs⟩).accepts
      exact ⟨n, a, hn, ha⟩
    · rintro ⟨n, a, hn, ha⟩
      obtain ⟨tag, hresolves⟩ := exists_resolves ⟨n, hn, ha⟩
      obtain ⟨s, hs⟩ := (htag tag).2 hresolves
      exact ⟨s, tag, hs⟩
  refine ⟨htag, haccept, fun hnone => ?_⟩
  cases hrun : t.runFrom? t.entry w with
  | none => exact .inl rfl
  | some s =>
    refine .inr ⟨s, rfl, ?_⟩
    cases hs : t.tag? s with
    | none => rfl
    | some tag => exact absurd (haccept.1 ⟨s, tag, hrun, hs⟩) hnone

/-- The patterns `[a-c]+` and `c` have the same priority, so the first of them takes `c`, and both
yield `ab` to the pattern that has a lower one. -/
theorem toTable_resolves_overlap : ∃ f g h t, compile "[a-c]+".toList = .ok f ∧
    compile "ab".toList = .ok g ∧ compile "c".toList = .ok h ∧
    (((f.stamp "X" 1).union (g.stamp "Y" 0)).union (h.stamp "Z" 1)).toTable = .ok t ∧
    (∃ s, t.runFrom? t.entry "ab".toList = some s ∧ t.tag? s = some "Y") ∧
    (∃ s, t.runFrom? t.entry "aba".toList = some s ∧ t.tag? s = some "X") ∧
    (∃ s, t.runFrom? t.entry "c".toList = some s ∧ t.tag? s = some "X") ∧
    ¬∃ s tag, t.runFrom? t.entry "cd".toList = some s ∧ t.tag? s = some tag := by
  have hf : compile "[a-c]+".toList = .ok ⟨#[{ edges := [⟨⟨'a', 'c'⟩, 1⟩] }, { epsilons := [2] },
      { edges := [⟨⟨'a', 'c'⟩, 3⟩], accept := some .untagged }, { epsilons := [2] }], 0⟩ := by
    decide +kernel
  have hg : compile "ab".toList = .ok ⟨#[{ edges := [⟨⟨'a', 'a'⟩, 1⟩] },
      { edges := [⟨⟨'b', 'b'⟩, 2⟩] }, { accept := some .untagged }], 0⟩ := by decide +kernel
  have hh : compile "c".toList = .ok
      ⟨#[{ edges := [⟨⟨'c', 'c'⟩, 1⟩] }, { accept := some .untagged }], 0⟩ := by decide +kernel
  have hbuilt := (((Built.compile hf).stamp "X" 1).union ((Built.compile hg).stamp "Y" 0)).union
    ((Built.compile hh).stamp "Z" 1)
  obtain ⟨t, ht⟩ := exists_toTable hbuilt.wellFormed (by decide +kernel)
  refine ⟨_, _, _, t, hf, hg, hh, ht, ((toTable_resolves ht _).1 _).2 (by decide +kernel),
    ((toTable_resolves ht _).1 _).2 (by decide +kernel),
    ((toTable_resolves ht _).1 _).2 (by decide +kernel), ?_⟩
  rintro ⟨s, tag, hs⟩
  have hresolves : ∃ tag, Resolves _ "cd".toList tag :=
    ⟨tag, ((toTable_resolves ht _).1 tag).1 ⟨s, hs⟩⟩
  revert hresolves
  decide +kernel

/-- The table of a fragment is put together without any checks, but all of them hold: there is a
state, the entry is the first one, every state has its edges and its tag, no range is empty, every
target is a state, the edges of a state lie one behind the other, and from its parts the checked
construction gives the very same table. -/
theorem toTable_passes_checks (h : f.toTable = .ok t) :
    0 < t.size ∧ t.entry = 0 ∧
    t.transitions.length = t.size ∧ (t.rows.map Row.tag).size = t.size ∧
    (∀ es ∈ t.transitions, (∀ e ∈ es, e.range.lo ≤ e.range.hi ∧ e.target < t.size) ∧
      es.Pairwise fun e e' => e.range.hi < e'.range.lo) ∧
    StateTable.ofParts t.entry t.transitions t.accepting = .ok t := by
  have hw := wellFormed_toTable h
  obtain ⟨hentry, hedges⟩ := (StateTable.wellFormed_iff t).1 hw
  refine ⟨Nat.zero_lt_of_lt hentry, entry_toTable h, StateTable.length_transitions t,
    Array.size_map, fun es hes => ?_, StateTable.ofParts_transitions hw⟩
  obtain ⟨hsorted, htargets⟩ := hedges es hes
  exact ⟨fun e he => ⟨hsorted.proper e he, htargets e he⟩, hsorted.increasing⟩

/-- A set on both sides of the surrogates. -/
theorem toTable_passes_checks_set : ∃ f t, compile "[^a]".toList = .ok f ∧ f.toTable = .ok t ∧
    0 < t.size ∧ t.entry = 0 ∧
    t.transitions.length = t.size ∧ (t.rows.map Row.tag).size = t.size ∧
    (∀ es ∈ t.transitions, (∀ e ∈ es, e.range.lo ≤ e.range.hi ∧ e.target < t.size) ∧
      es.Pairwise fun e e' => e.range.hi < e'.range.lo) ∧
    StateTable.ofParts t.entry t.transitions t.accepting = .ok t := by
  have hcompile : compile "[^a]".toList = .ok ⟨#[{ edges := [⟨⟨'\x00', '`'⟩, 1⟩,
      ⟨⟨'b', Char.ofNat 0x10ffff⟩, 1⟩] }, { accept := some .untagged }], 0⟩ := by decide +kernel
  obtain ⟨t, ht⟩ := exists_toTable (Built.compile hcompile).wellFormed (by decide)
  exact ⟨_, t, hcompile, ht, toTable_passes_checks ht⟩

/-- The table of a built fragment is minimal, and built fragments have the same table exactly if
every text resolves to the same tag in both. -/
theorem toTable_canonical (hf : f.Built) (h : f.toTable = .ok t) :
    t.Minimal ∧ ∀ (g : Fragment) (u : StateTable), g.Built → g.toTable = .ok u →
      (t = u ↔ ∀ w tag, f.Resolves w tag ↔ g.Resolves w tag) := by
  refine ⟨?_, fun g u _ hu => ⟨?_, fun hsame => ?_⟩⟩
  · obtain ⟨w, a, ha⟩ := hf.exists_accepts
    obtain ⟨tag, hresolves⟩ := exists_resolves ha
    obtain ⟨t₁, h₁, rfl⟩ := toTable_eq_ok h
    have hw := wellFormed_determinise h₁
    exact StateTable.minimal_minimise (StateTable.wellFormed_trim hw) (StateTable.live_trim hw)
      ⟨w, tag, (tagFrom?_trim_determinise h₁ w tag).2 hresolves⟩
  · rintro rfl w tag
    rw [← tagFrom?_toTable h, ← tagFrom?_toTable hu]
  · obtain ⟨t₁, h₁, rfl⟩ := toTable_eq_ok h
    obtain ⟨u₁, hu₁, rfl⟩ := toTable_eq_ok hu
    have hw := wellFormed_determinise h₁
    have hw' := wellFormed_determinise hu₁
    refine StateTable.minimise_eq (StateTable.wellFormed_trim hw) (StateTable.live_trim hw)
      (StateTable.wellFormed_trim hw') (StateTable.live_trim hw') fun w => Option.ext fun tag => ?_
    rw [tagFrom?_trim_determinise h₁, tagFrom?_trim_determinise hu₁]
    exact hsame w tag

/-- Repeating a repeat adds nothing, so it has the same table. -/
theorem toTable_canonical_star : ∃ f g t, compile "a*".toList = .ok f ∧
    compile "(a*)*".toList = .ok g ∧ t.Minimal ∧ f.toTable = .ok t ∧ g.toTable = .ok t := by
  have hf : compile "a*".toList = .ok ⟨#[{ epsilons := [1] },
      { edges := [⟨⟨'a', 'a'⟩, 2⟩], accept := some .untagged }, { epsilons := [1] }], 0⟩ := by
    decide +kernel
  have hg : compile "(a*)*".toList = .ok ⟨#[{ epsilons := [1] },
      { epsilons := [2], accept := some .untagged },
      { edges := [⟨⟨'a', 'a'⟩, 3⟩], epsilons := [1] }, { epsilons := [2] }], 0⟩ := by
    decide +kernel
  have hparse : (match Regex.parse "a*".toList, Regex.parse "(a*)*".toList with
      | .ok (.repeated (.set s) 0 none _), .ok (.repeated (.repeated (.set t) 0 none _) 0 none _) =>
        s == t
      | _, _ => false) = true := by decide +kernel
  split at hparse
  case h_2 => cases hparse
  case h_1 hstar hstars =>
  obtain rfl := eq_of_beq hparse
  obtain ⟨t, ht⟩ := exists_toTable (Built.compile hf).wellFormed (by decide)
  obtain ⟨u, hu⟩ := exists_toTable (Built.compile hg).wellFormed (by decide)
  obtain ⟨hminimal, hcanonical⟩ := toTable_canonical (Built.compile hf) ht
  obtain rfl := (hcanonical _ u (Built.compile hg) hu).2 fun w tag => by
    rw [resolves_compile hf hstar, resolves_compile hg hstars, Regex.language_star,
      Regex.language_star, Regex.language_star, kstar_idem]
  exact ⟨_, _, t, hf, hg, hminimal, ht, hu⟩

end LexerGen.Nfa.Fragment
