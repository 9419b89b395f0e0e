import LexerGen.Exploration
import Mathlib.Data.List.Forall2
import Mathlib.Data.List.Nodup
import Mathlib.Data.List.Perm.Subperm
import Mathlib.Logic.Relation
import Mathlib.Logic.Relator

/-! Exploration of a successor function. The states found are the reachable ones, each once, and
the edges of each lead to the numbers of its successors; it fails only if there are too many states.
The numbers depend on the shape of the automaton alone: two explorations whose states and successors
correspond give the same edges. -/

namespace LexerGen

/-- Related lists hold related entries at the same places. -/
theorem rel_getElem? {α β : Type} {R : α → β → Prop} {as : List α} {bs : List β}
    (h : List.Forall₂ R as bs) (i : Nat) : Option.Rel R as[i]? bs[i]? := by
  induction h generalizing i with
  | nil => simp
  | cons hab _ ih =>
    cases i with
    | zero => simpa using Option.Rel.some hab
    | succ i => simpa using ih i

/-- A list without repetitions is no longer than one that holds a partner of each of its entries, if
no two entries share a partner. -/
theorem length_le_of_partners {α β : Type} {R : α → β → Prop} (hR : Relator.LeftUnique R)
    {as : List α} {bs : List β} (hnodup : as.Nodup) (h : ∀ a ∈ as, ∃ b, R a b ∧ b ∈ bs) :
    as.length ≤ bs.length := by
  cases as with
  | nil => exact Nat.zero_le _
  | cons a as =>
    have hnonempty : Nonempty β := ⟨(h a List.mem_cons_self).choose⟩
    choose! partner hpartner using h
    have hmap : ((a :: as).map partner).Nodup := hnodup.map_on fun b hb c hc heq =>
      hR (hpartner b hb).1 (heq ▸ (hpartner c hc).1)
    have hsubset : (a :: as).map partner ⊆ bs := by
      intro b hb
      obtain ⟨c, hc, rfl⟩ := List.mem_map.1 hb
      exact (hpartner c hc).2
    have hle := (hmap.subperm hsubset).length_le
    rwa [List.length_map] at hle

variable {σ : Type} [BEq σ] [Hashable σ]

/-- `b` can be reached from `a` along successors. -/
abbrev Follows (next : σ → List (CharRange × σ)) : σ → σ → Prop :=
  Relation.ReflTransGen fun a b => b ∈ (next a).map Prod.snd

namespace Numbering

/-- The index and the array hold the same pairs. -/
def Valid (m : Numbering σ) : Prop :=
  ∀ (s : σ) (n : Nat), m.number[s]? = some n ↔ m.states[n]? = some s

/-- The edges `es` lead over the ranges of `xs` to the numbers of the states there. -/
def Numbers (states : Array σ) (xs : List (CharRange × σ)) (es : List Edge) : Prop :=
  List.Forall₂ (fun x e => e.range = x.1 ∧ states[e.target]? = some x.2) xs es

theorem valid_empty : (empty : Numbering σ).Valid := by
  intro s n
  simp [empty]

theorem Valid.unique {m : Numbering σ} (h : m.Valid) {s : σ} {i j : Nat}
    (hi : m.states[i]? = some s) (hj : m.states[j]? = some s) : i = j :=
  Option.some.inj (((h s i).2 hi).symm.trans ((h s j).2 hj))

theorem Valid.nodup {m : Numbering σ} (h : m.Valid) : m.states.toList.Nodup := by
  rw [List.nodup_iff_getElem?_ne_getElem?]
  intro i j hij hj heq
  obtain ⟨s, hs⟩ : ∃ s, m.states.toList[j]? = some s := ⟨_, List.getElem?_eq_getElem hj⟩
  rw [hs] at heq
  rw [Array.getElem?_toList] at heq hs
  have := h.unique heq hs
  omega

theorem mem_of_getElem? {m : Numbering σ} {s : σ} {n : Nat} (h : m.states[n]? = some s) :
    s ∈ m.states.toList := Array.mem_toList_iff.2 (Array.mem_of_getElem? h)

theorem getElem?_mono {m m' : Numbering σ} (h : m.states.toList <+: m'.states.toList) {s : σ}
    {n : Nat} (hn : m.states[n]? = some s) : m'.states[n]? = some s := by
  rw [← Array.getElem?_toList] at hn ⊢
  obtain ⟨news, hnews⟩ := h
  rw [← hnews, List.getElem?_append_left (List.getElem?_eq_some_iff.1 hn).1]
  exact hn

theorem Numbers.mono {m m' : Numbering σ} (h : m.states.toList <+: m'.states.toList)
    {xs : List (CharRange × σ)} {es : List Edge} (hn : Numbers m.states xs es) :
    Numbers m'.states xs es :=
  hn.imp fun _ _ ⟨hr, ht⟩ => ⟨hr, getElem?_mono h ht⟩

/-- Interning fails only for a new state past the limit. -/
theorem intern_eq_none {limit : Nat} {m : Numbering σ} {s : σ} (hm : m.Valid)
    (h : m.intern limit s = none) : s ∉ m.states.toList ∧ limit ≤ m.states.size := by
  unfold intern at h
  split at h
  · cases h
  · rename_i hnone
    simp only at h
    split at h
    · cases h
    · rename_i hlimit
      refine ⟨fun hmem => ?_, by omega⟩
      obtain ⟨i, hi⟩ := List.mem_iff_getElem?.1 hmem
      rw [Array.getElem?_toList] at hi
      rw [(hm s i).2 hi] at hnone
      cases hnone

/-- What interning the successors `xs` makes of the numbering `m`. -/
structure Grows (limit : Nat) (m m' : Numbering σ) (xs : List (CharRange × σ)) : Prop where
  valid : m'.Valid
  prefixOf : m.states.toList <+: m'.states.toList
  source : ∀ s ∈ m'.states.toList, s ∈ m.states.toList ∨ s ∈ xs.map Prod.snd
  size_le : m.states.size ≤ limit → m'.states.size ≤ limit

theorem Grows.refl {limit : Nat} {m : Numbering σ} (h : m.Valid) : Grows limit m m [] :=
  ⟨h, List.prefix_rfl, fun _ hs => .inl hs, id⟩

variable [LawfulBEq σ]

/-- A state keeps its number, or gets the next one. -/
theorem intern_cases {limit n : Nat} {m m' : Numbering σ} {s : σ} (hm : m.Valid)
    (h : m.intern limit s = some (n, m')) :
    (m.states[n]? = some s ∧ m' = m) ∨
      (s ∉ m.states.toList ∧ n = m.states.size ∧ m.states.size < limit ∧
        m'.states = m.states.push s ∧ m'.Valid) := by
  unfold intern at h
  split at h
  · rename_i k hk
    obtain ⟨rfl, rfl⟩ := Prod.mk.inj (Option.some.inj h)
    exact .inl ⟨(hm s k).1 hk, rfl⟩
  · rename_i hnone
    have hs : ∀ i, m.states[i]? ≠ some s := fun i hi => by
      rw [(hm s i).2 hi] at hnone
      cases hnone
    simp only at h
    split at h
    · rename_i hlimit
      obtain ⟨rfl, rfl⟩ := Prod.mk.inj (Option.some.inj h)
      refine .inr ⟨fun hmem => ?_, rfl, hlimit, rfl, fun t k => ?_⟩
      · obtain ⟨i, hi⟩ := List.mem_iff_getElem?.1 hmem
        exact hs i (by rwa [Array.getElem?_toList] at hi)
      · rw [Std.HashMap.getElem?_insert, Array.getElem?_push]
        by_cases ht : s = t
        · subst ht
          by_cases hk : k = m.states.size
          · simp [hk]
          · simp [hk, hs k, Ne.symm hk]
        · by_cases hk : k = m.states.size
          · subst hk
            have : m.number[t]? ≠ some m.states.size := fun hn => by
              have := (hm t _).1 hn
              simp at this
            simp [ht, this]
          · simp [hk, ht, hm t k]
    · cases h

/-- Interning one more state before the others. -/
theorem Grows.cons {limit n : Nat} {m m₁ m₂ : Numbering σ} {range : CharRange} {s : σ}
    {xs : List (CharRange × σ)} (hm : m.Valid) (h₁ : m.intern limit s = some (n, m₁))
    (h₂ : m₁.Valid → Grows limit m₁ m₂ xs) : Grows limit m m₂ ((range, s) :: xs) := by
  rcases intern_cases hm h₁ with ⟨-, rfl⟩ | ⟨-, -, hlimit, hpush, hvalid⟩
  · have h := h₂ hm
    exact ⟨h.valid, h.prefixOf, fun t ht => (h.source t ht).imp_right (List.mem_cons_of_mem _),
      h.size_le⟩
  · have h := h₂ hvalid
    refine ⟨h.valid, List.IsPrefix.trans ⟨[s], by simp [hpush]⟩ h.prefixOf, fun t ht => ?_,
      fun _ => h.size_le (by rw [hpush, Array.size_push]; omega)⟩
    rcases h.source t ht with ht | ht
    · rw [hpush, Array.toList_push, List.mem_append, List.mem_singleton] at ht
      rcases ht with ht | rfl
      · exact .inl ht
      · exact .inr List.mem_cons_self
    · exact .inr (List.mem_cons_of_mem _ ht)

theorem internEdges_grows {limit : Nat} {m m' : Numbering σ} {xs : List (CharRange × σ)}
    {es : List Edge} (hm : m.Valid) (h : m.internEdges limit xs = some (es, m')) :
    Grows limit m m' xs ∧ Numbers m'.states xs es := by
  induction xs generalizing m es with
  | nil =>
    obtain ⟨rfl, rfl⟩ := Prod.mk.inj (Option.some.inj h)
    exact ⟨Grows.refl hm, .nil⟩
  | cons x xs ih =>
    obtain ⟨range, s⟩ := x
    rw [internEdges] at h
    split at h
    · cases h
    · rename_i n m₁ h₁
      split at h
      · cases h
      · rename_i es' m₂ h₂
        obtain ⟨rfl, rfl⟩ := Prod.mk.inj (Option.some.inj h)
        refine ⟨Grows.cons hm h₁ fun hm₁ => (ih hm₁ h₂).1, ?_⟩
        rcases intern_cases hm h₁ with ⟨hn, rfl⟩ | ⟨-, rfl, -, hpush, hvalid⟩
        · obtain ⟨hgrows, hnumbers⟩ := ih hm h₂
          exact .cons ⟨rfl, getElem?_mono hgrows.prefixOf hn⟩ hnumbers
        · obtain ⟨hgrows, hnumbers⟩ := ih hvalid h₂
          exact .cons ⟨rfl, getElem?_mono hgrows.prefixOf (by simp [hpush])⟩ hnumbers

/-- Interning successors fails only if they and the states before are too many. -/
theorem internEdges_eq_none {limit : Nat} {m : Numbering σ} {xs : List (CharRange × σ)}
    (hm : m.Valid) (h : m.internEdges limit xs = none) :
    ∃ l : List σ, l.Nodup ∧ limit < l.length ∧
      ∀ s ∈ l, s ∈ m.states.toList ∨ s ∈ xs.map Prod.snd := by
  induction xs generalizing m with
  | nil => cases h
  | cons x xs ih =>
    obtain ⟨range, s⟩ := x
    rw [internEdges] at h
    split at h
    · rename_i h₁
      obtain ⟨hs, hlimit⟩ := intern_eq_none hm h₁
      have hnodup := List.nodup_cons.2 ⟨hs, hm.nodup⟩
      refine ⟨s :: m.states.toList, hnodup, by simp; omega, fun t ht => ?_⟩
      rcases List.mem_cons.1 ht with rfl | ht
      · exact .inr List.mem_cons_self
      · exact .inl ht
    · rename_i n m₁ h₁
      split at h
      · rename_i h₂
        have hgrows : Grows limit m m₁ [(range, s)] := Grows.cons hm h₁ fun hm₁ => Grows.refl hm₁
        obtain ⟨l, hnodup, hlength, hl⟩ := ih hgrows.valid h₂
        refine ⟨l, hnodup, hlength, fun t ht => ?_⟩
        rcases hl t ht with ht | ht
        · rcases hgrows.source t ht with ht | ht
          · exact .inl ht
          · rw [List.map_singleton, List.mem_singleton] at ht
            exact .inr (ht ▸ List.mem_cons_self)
        · exact .inr (List.mem_cons_of_mem _ ht)
      · cases h

end Numbering

namespace Exploration

open LexerGen.Numbering

/-- The rounds of an exploration from one stage to the end. -/
inductive Rounds (next : σ → List (CharRange × σ)) (limit : Nat) :
    Exploration σ → Exploration σ → Prop
  | done {x : Exploration σ} (h : x.numbering.states[x.edges.size]? = none) :
      Rounds next limit x x
  | round {x y : Exploration σ} {s : σ} {edges : List Edge} {numbering : Numbering σ}
      (hs : x.numbering.states[x.edges.size]? = some s)
      (h : x.numbering.internEdges limit (next s) = some (edges, numbering))
      (rest : Rounds next limit ⟨numbering, x.edges.push (Edge.coalesce edges)⟩ y) :
      Rounds next limit x y

/-- What holds at every stage: the states that have numbers are reachable, and the first of them
have their edges. -/
structure Stage (next : σ → List (CharRange × σ)) (limit : Nat) (start : σ) (x : Exploration σ) :
    Prop where
  valid : x.numbering.Valid
  entry : x.numbering.states[0]? = some start
  reached : ∀ s ∈ x.numbering.states.toList, Follows next start s
  edges_le : x.edges.size ≤ x.numbering.states.size
  size_le : x.numbering.states.size ≤ limit
  row : ∀ (i : Nat) (s : σ), i < x.edges.size → x.numbering.states[i]? = some s →
    ∃ es, Numbers x.numbering.states (next s) es ∧ x.edges[i]? = some (Edge.coalesce es)

variable {next : σ → List (CharRange × σ)} {limit : Nat} {start : σ}

theorem Rounds.complete {x y : Exploration σ} (h : Rounds next limit x y) :
    y.numbering.states.size ≤ y.edges.size := by
  induction h with
  | done h => simpa using h
  | round _ _ _ ih => exact ih

/-- The result of an exploration: every reachable state has one number, and its row holds its joined
edges to the numbers of its successors. -/
structure Complete (next : σ → List (CharRange × σ)) (limit : Nat) (start : σ)
    (x : Exploration σ) : Prop extends Stage next limit start x where
  size_eq : x.edges.size = x.numbering.states.size

variable [LawfulBEq σ]

/-- One round keeps what holds at every stage. -/
theorem Stage.round {x : Exploration σ} (hx : Stage next limit start x) {s : σ}
    {edges : List Edge} {numbering : Numbering σ}
    (hs : x.numbering.states[x.edges.size]? = some s)
    (h : x.numbering.internEdges limit (next s) = some (edges, numbering)) :
    Stage next limit start ⟨numbering, x.edges.push (Edge.coalesce edges)⟩ := by
  obtain ⟨hgrows, hnumbers⟩ := internEdges_grows hx.valid h
  have hlt : x.edges.size < x.numbering.states.size := (Array.getElem?_eq_some_iff.1 hs).1
  have hle : x.numbering.states.size ≤ numbering.states.size := by
    simpa using hgrows.prefixOf.length_le
  refine ⟨hgrows.valid, getElem?_mono hgrows.prefixOf hx.entry, fun t ht => ?_, ?_,
    hgrows.size_le hx.size_le, fun i t hi ht => ?_⟩
  · rcases hgrows.source t ht with ht | ht
    · exact hx.reached t ht
    · exact (hx.reached s (mem_of_getElem? hs)).tail ht
  · simp only [Array.size_push]
    omega
  · rw [Array.size_push] at hi
    rcases Nat.lt_or_eq_of_le (Nat.le_of_lt_succ hi) with hi | rfl
    · -- A row of an earlier round: its state has kept its number, and so have its successors.
      obtain ⟨t', ht'⟩ : ∃ t', x.numbering.states[i]? = some t' :=
        ⟨_, Array.getElem?_eq_getElem (Nat.lt_trans hi hlt)⟩
      obtain rfl := Option.some.inj (ht.symm.trans (getElem?_mono hgrows.prefixOf ht'))
      obtain ⟨es, hes, hrow⟩ := hx.row i t hi ht'
      refine ⟨es, hes.mono hgrows.prefixOf, ?_⟩
      simp only [Array.getElem?_push]
      rw [if_neg (by omega)]
      exact hrow
    · obtain rfl := Option.some.inj (ht.symm.trans (getElem?_mono hgrows.prefixOf hs))
      exact ⟨edges, hnumbers, by simp⟩

theorem Rounds.stage {x y : Exploration σ} (h : Rounds next limit x y)
    (hx : Stage next limit start x) : Stage next limit start y := by
  induction h with
  | done => exact hx
  | round hs h _ ih => exact ih (hx.round hs h)

/-- As many rounds as there may be states go through to the end. -/
theorem rounds_eq_some {fuel : Nat} {x y : Exploration σ} (hx : Stage next limit start x)
    (hfuel : limit ≤ x.edges.size + fuel) (h : rounds next limit fuel x = some y) :
    Rounds next limit x y := by
  induction fuel generalizing x with
  | zero =>
    obtain rfl := Option.some.inj h
    have := hx.size_le
    exact .done (by simp; omega)
  | succ fuel ih =>
    rw [rounds] at h
    split at h
    · rename_i hnone
      obtain rfl := Option.some.inj h
      exact .done hnone
    · rename_i s hs
      split at h
      · cases h
      · rename_i edges numbering h₁
        exact .round hs h₁ (ih (hx.round hs h₁) (by simp only [Array.size_push]; omega) h)

theorem rounds_eq_none {fuel : Nat} {x : Exploration σ} (hx : Stage next limit start x)
    (h : rounds next limit fuel x = none) :
    ∃ l : List σ, l.Nodup ∧ limit < l.length ∧ ∀ s ∈ l, Follows next start s := by
  induction fuel generalizing x with
  | zero => cases h
  | succ fuel ih =>
    rw [rounds] at h
    split at h
    · cases h
    · rename_i s hs
      split at h
      · rename_i h₁
        obtain ⟨l, hnodup, hlength, hl⟩ := internEdges_eq_none hx.valid h₁
        refine ⟨l, hnodup, hlength, fun t ht => ?_⟩
        rcases hl t ht with ht | ht
        · exact hx.reached t ht
        · exact (hx.reached s (mem_of_getElem? hs)).tail ht
      · rename_i edges numbering h₁
        exact ih (hx.round hs h₁) h

/-- The stage at which only the start has a number. -/
theorem stage_start (next : σ → List (CharRange × σ)) {n : Nat} {numbering : Numbering σ}
    (h : Numbering.empty.intern limit start = some (n, numbering)) :
    numbering.states = #[start] ∧ Stage next limit start ⟨numbering, #[]⟩ := by
  rcases intern_cases valid_empty h with ⟨hn, -⟩ | ⟨-, -, hlimit, hpush, hvalid⟩
  · simp [Numbering.empty] at hn
  · have hstates : numbering.states = #[start] := by simpa [Numbering.empty] using hpush
    have hlimit' : 0 < limit := by simpa [Numbering.empty] using hlimit
    refine ⟨hstates, hvalid, by simp [hstates], fun s hs => ?_, by simp, by simpa [hstates],
      fun i s hi => by simp at hi⟩
    obtain rfl : s = start := by simpa [hstates] using hs
    exact .refl

theorem run_eq_some {x : Exploration σ} (h : run next limit start = some x) :
    Complete next limit start x := by
  unfold run at h
  split at h
  · cases h
  · rename_i n numbering h₁
    obtain ⟨-, hstage⟩ := stage_start next h₁
    have hrounds := rounds_eq_some hstage (by simp) h
    have hend := hrounds.stage hstage
    exact ⟨hend, Nat.le_antisymm hend.edges_le hrounds.complete⟩

omit [LawfulBEq σ] in
/-- Every reachable state has a number. -/
theorem Complete.mem_of_follows {x : Exploration σ} (h : Complete next limit start x) {s : σ}
    (hs : Follows next start s) : s ∈ x.numbering.states.toList := by
  induction hs with
  | refl => exact mem_of_getElem? h.entry
  | @tail a b _ hab ih =>
    obtain ⟨i, hi⟩ := List.mem_iff_getElem?.1 ih
    rw [Array.getElem?_toList] at hi
    have hlt : i < x.edges.size := by
      rw [h.size_eq]
      exact (Array.getElem?_eq_some_iff.1 hi).1
    obtain ⟨es, hes, -⟩ := h.row i a hlt hi
    obtain ⟨⟨range, s⟩, hs, rfl⟩ := List.mem_map.1 hab
    obtain ⟨j, hj⟩ := List.mem_iff_getElem?.1 hs
    have hrel := rel_getElem? hes j
    rw [hj] at hrel
    generalize es[j]? = e at hrel
    cases hrel with
    | some he => exact mem_of_getElem? he.2

/-- An exploration fails only if there are more reachable states than its limit. -/
theorem run_eq_none (h : run next limit start = none) :
    ∃ l : List σ, l.Nodup ∧ limit < l.length ∧ ∀ s ∈ l, Follows next start s := by
  unfold run at h
  split at h
  · rename_i h₁
    obtain ⟨-, hlimit⟩ := intern_eq_none valid_empty h₁
    refine ⟨[start], by simp, by simpa [Numbering.empty] using Nat.lt_succ_of_le hlimit, ?_⟩
    intro s hs
    obtain rfl := List.mem_singleton.1 hs
    exact .refl
  · rename_i n numbering h₁
    exact rounds_eq_none (stage_start next h₁).2 h

/-! ### Corresponding explorations -/

section Correspondence

variable {τ : Type} [BEq τ] [Hashable τ] [LawfulBEq τ] {R : σ → τ → Prop}

omit [LawfulBEq σ] [LawfulBEq τ] in
/-- Related states have the same number in related numberings. -/
theorem number_of_related {m : Numbering σ} {m' : Numbering τ} (hR : Relator.RightUnique R)
    (h : List.Forall₂ R m.states.toList m'.states.toList) {s : σ} {t : τ} (hst : R s t) {n : Nat}
    (hn : m.states[n]? = some s) : m'.states[n]? = some t := by
  have := rel_getElem? h n
  rw [Array.getElem?_toList, Array.getElem?_toList, hn] at this
  generalize m'.states[n]? = o at this ⊢
  cases this with
  | some hst' => rw [hR hst hst']

theorem intern_related {limit' n n' : Nat} {m m₁ : Numbering σ} {m' m₁' : Numbering τ}
    (hR : Relator.BiUnique R) (hm : m.Valid) (hm' : m'.Valid)
    (h : List.Forall₂ R m.states.toList m'.states.toList) {s : σ} {t : τ} (hst : R s t)
    (hs : m.intern limit s = some (n, m₁)) (ht : m'.intern limit' t = some (n', m₁')) :
    n = n' ∧ List.Forall₂ R m₁.states.toList m₁'.states.toList := by
  rcases intern_cases hm hs with ⟨hn, rfl⟩ | ⟨hnew, rfl, -, hpush, -⟩
  · have hn' := number_of_related hR.2 h hst hn
    rcases intern_cases hm' ht with ⟨hn'', rfl⟩ | ⟨hnew, -⟩
    · exact ⟨hm'.unique hn' hn'', h⟩
    · exact absurd (mem_of_getElem? hn') hnew
  · rcases intern_cases hm' ht with ⟨hn', rfl⟩ | ⟨-, rfl, -, hpush', -⟩
    · have hn := number_of_related (R := fun b a => R a b) (fun _ _ _ h h' => hR.1 h h') h.flip hst
        hn'
      exact absurd (mem_of_getElem? hn) hnew
    · refine ⟨by simpa using h.length_eq, ?_⟩
      rw [hpush, hpush', Array.toList_push, Array.toList_push]
      exact List.rel_append h (.cons hst .nil)

/-- Related successors get the same edges. -/
theorem internEdges_related {limit' : Nat} {m m₁ : Numbering σ} {m' m₁' : Numbering τ}
    (hR : Relator.BiUnique R) (hm : m.Valid) (hm' : m'.Valid)
    (h : List.Forall₂ R m.states.toList m'.states.toList) {xs : List (CharRange × σ)}
    {ys : List (CharRange × τ)} (hxy : List.Forall₂ (fun x y => x.1 = y.1 ∧ R x.2 y.2) xs ys)
    {es es' : List Edge} (hx : m.internEdges limit xs = some (es, m₁))
    (hy : m'.internEdges limit' ys = some (es', m₁')) :
    es = es' ∧ List.Forall₂ R m₁.states.toList m₁'.states.toList := by
  induction hxy generalizing m m' es es' with
  | nil =>
    obtain ⟨rfl, rfl⟩ := Prod.mk.inj (Option.some.inj hx)
    obtain ⟨rfl, rfl⟩ := Prod.mk.inj (Option.some.inj hy)
    exact ⟨rfl, h⟩
  | @cons x y xs ys hxy _ ih =>
    obtain ⟨range, s⟩ := x
    obtain ⟨_, t⟩ := y
    obtain ⟨rfl, hst⟩ := hxy
    rw [internEdges] at hx hy
    split at hx
    · cases hx
    · rename_i n m₂ hs
      split at hy
      · cases hy
      · rename_i n' m₂' ht
        obtain ⟨rfl, h₂⟩ := intern_related hR hm hm' h hst hs ht
        have hm₂ : Grows limit m m₂ [(range, s)] := Grows.cons hm hs Grows.refl
        have hm₂' : Grows limit' m' m₂' [(range, t)] := Grows.cons hm' ht Grows.refl
        split at hx
        · cases hx
        · rename_i es₁ m₃ hx'
          split at hy
          · cases hy
          · rename_i es₁' m₃' hy'
            obtain ⟨rfl, rfl⟩ := Prod.mk.inj (Option.some.inj hx)
            obtain ⟨rfl, rfl⟩ := Prod.mk.inj (Option.some.inj hy)
            obtain ⟨rfl, h₃⟩ := ih hm₂.valid hm₂'.valid h₂ hx' hy'
            exact ⟨rfl, h₃⟩

variable {next' : τ → List (CharRange × τ)} {limit' : Nat} {start' : τ}

/-- Rounds from corresponding stages end in corresponding stages with the same edges. -/
theorem Rounds.related (hR : Relator.BiUnique R)
    (hnext : ∀ s t, R s t → List.Forall₂ (fun x y => x.1 = y.1 ∧ R x.2 y.2) (next s) (next' t))
    {x y : Exploration σ} {x' y' : Exploration τ} (h : Rounds next limit x y)
    (h' : Rounds next' limit' x' y') (hx : x.numbering.Valid) (hx' : x'.numbering.Valid)
    (hstates : List.Forall₂ R x.numbering.states.toList x'.numbering.states.toList)
    (hedges : x.edges = x'.edges) :
    List.Forall₂ R y.numbering.states.toList y'.numbering.states.toList ∧ y.edges = y'.edges := by
  induction h generalizing x' with
  | @done x hdone =>
    cases h' with
    | done => exact ⟨hstates, hedges⟩
    | round hs' =>
      have := hstates.length_eq
      have hlt := (Array.getElem?_eq_some_iff.1 hs').1
      simp [hedges] at hdone
      simp at this
      omega
  | @round x y s edges numbering hs hround _ ih =>
    cases h' with
    | done hdone =>
      have := hstates.length_eq
      have hlt := (Array.getElem?_eq_some_iff.1 hs).1
      simp [← hedges] at hdone
      simp at this
      omega
    | @round _ _ t edges' numbering' hs' hround' rest' =>
      have hst : R s t := by
        have := rel_getElem? hstates x.edges.size
        rw [Array.getElem?_toList, Array.getElem?_toList, hs, hedges, hs'] at this
        cases this with
        | some hst => exact hst
      obtain ⟨rfl, hstates'⟩ :=
        internEdges_related hR hx hx' hstates (hnext s t hst) hround hround'
      exact ih rest' (internEdges_grows hx hround).1.valid (internEdges_grows hx' hround').1.valid
        hstates' (by rw [hedges])

/-- Explorations of corresponding automata give corresponding states and the same edges. -/
theorem run_related (hR : Relator.BiUnique R)
    (hnext : ∀ s t, R s t → List.Forall₂ (fun x y => x.1 = y.1 ∧ R x.2 y.2) (next s) (next' t))
    (hstart : R start start') {x : Exploration σ} {x' : Exploration τ}
    (h : run next limit start = some x) (h' : run next' limit' start' = some x') :
    List.Forall₂ R x.numbering.states.toList x'.numbering.states.toList ∧ x.edges = x'.edges := by
  unfold run at h h'
  split at h
  · cases h
  · rename_i n numbering h₁
    split at h'
    · cases h'
    · rename_i n' numbering' h₁'
      obtain ⟨hstates, hstage⟩ := stage_start next h₁
      obtain ⟨hstates', hstage'⟩ := stage_start next' h₁'
      refine (rounds_eq_some hstage (by simp) h).related hR hnext
        (rounds_eq_some hstage' (by simp) h') hstage.valid hstage'.valid ?_ rfl
      simp [hstates, hstates', hstart]

omit [BEq σ] [Hashable σ] [LawfulBEq σ] [BEq τ] [Hashable τ] [LawfulBEq τ] in
/-- What can be reached corresponds. -/
theorem exists_follows_related
    (hnext : ∀ s t, R s t → List.Forall₂ (fun x y => x.1 = y.1 ∧ R x.2 y.2) (next s) (next' t))
    (hstart : R start start') {s : σ} (hs : Follows next start s) :
    ∃ t, R s t ∧ Follows next' start' t := by
  induction hs with
  | refl => exact ⟨start', hstart, .refl⟩
  | @tail a b _ hab ih =>
    obtain ⟨t, hat, ht⟩ := ih
    obtain ⟨y, hy, rfl⟩ := List.mem_map.1 hab
    obtain ⟨j, hj⟩ := List.mem_iff_getElem?.1 hy
    have hrel := rel_getElem? (hnext a t hat) j
    rw [hj] at hrel
    generalize hz : (next' t)[j]? = z at hrel
    cases hrel with
    | @some _ z hyz =>
      exact ⟨z.2, hyz.2, ht.tail (List.mem_map_of_mem (List.mem_of_getElem? hz))⟩

/-- Where an exploration stays within its limit, so does a corresponding one: it has no more states
than the other. -/
theorem exists_run_of_related (hR : Relator.BiUnique R)
    (hnext : ∀ s t, R s t → List.Forall₂ (fun x y => x.1 = y.1 ∧ R x.2 y.2) (next s) (next' t))
    (hstart : R start start') {x' : Exploration τ} (h' : run next' limit start' = some x') :
    ∃ x, run next limit start = some x := by
  cases h : run next limit start with
  | some x => exact ⟨x, rfl⟩
  | none =>
    obtain ⟨l, hnodup, hlength, hl⟩ := run_eq_none h
    have hcomplete := run_eq_some h'
    have hpartner : ∀ s ∈ l, ∃ t, R s t ∧ t ∈ x'.numbering.states.toList := by
      intro s hs
      obtain ⟨t, hst, ht⟩ := exists_follows_related hnext hstart (hl s hs)
      exact ⟨t, hst, hcomplete.mem_of_follows ht⟩
    have hle := length_le_of_partners hR.1 hnodup hpartner
    have hlimit := hcomplete.size_le
    have hsize : x'.numbering.states.toList.length = x'.numbering.states.size := Array.length_toList
    omega

end Correspondence

end Exploration

end LexerGen
