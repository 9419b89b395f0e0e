import LexerGen.Edge
import Mathlib.Data.List.Basic
import Mathlib.Data.List.Chain
import Mathlib.Data.List.Forall2
import Mathlib.Logic.Relator
import Mathlib.Order.Basic

/-! Edge lists as functions of a character. A sorted list gives every character at most one target,
joining the edges that meet does not change it, and a list with nothing left to join is the only
such list for its function. -/

namespace LexerGen

open Text

/-- Ranges in increasing order, none of them empty. -/
structure CharRange.Sorted (rs : List CharRange) : Prop where
  proper : ∀ r ∈ rs, r.lo ≤ r.hi
  increasing : rs.Pairwise fun r s => r.hi < s.lo

namespace Edge

/-- The target of the first edge with `c`. -/
def lookup (es : List Edge) (c : Char) : Option Nat := (es.find? (·.contains c)).map Edge.target

/-- The ranges are in increasing order, and none of them is empty. -/
structure Sorted (es : List Edge) : Prop where
  proper : ∀ e ∈ es, e.range.lo ≤ e.range.hi
  increasing : es.Pairwise fun e f => e.range.hi < f.range.lo

theorem sorted_iff {es : List Edge} : Sorted es ↔ CharRange.Sorted (es.map Edge.range) :=
  ⟨fun h => ⟨fun r hr => by
    obtain ⟨e, he, rfl⟩ := List.mem_map.1 hr
    exact h.proper e he, List.pairwise_map.2 h.increasing⟩,
  fun h => ⟨fun e he => h.proper e.range (List.mem_map_of_mem he),
    List.pairwise_map.1 h.increasing⟩⟩

/-- A sorted list with no neighbours that could be joined. -/
structure Normal (es : List Edge) : Prop extends Sorted es where
  apart : es.IsChain fun e f => e.meets f = false

theorem contains_iff {e : Edge} {c : Char} :
    e.contains c = true ↔ index e.range.lo ≤ index c ∧ index c ≤ index e.range.hi := by
  simp [contains, CharRange.contains, index_le_index]

theorem meets_iff {e f : Edge} :
    e.meets f = true ↔ e.target = f.target ∧ index e.range.hi + 1 = index f.range.lo := by
  simp [meets]

@[simp] theorem lookup_nil (c : Char) : lookup [] c = none := rfl

theorem lookup_cons (e : Edge) (es : List Edge) (c : Char) :
    lookup (e :: es) c = if e.contains c then some e.target else lookup es c := by
  by_cases h : e.contains c <;> simp [lookup, h]

theorem lookup_cons_of_mem {e : Edge} {es : List Edge} {c : Char} (h : e.contains c = true) :
    lookup (e :: es) c = some e.target := by
  rw [lookup_cons, if_pos h]

theorem lookup_eq_none_iff {es : List Edge} {c : Char} :
    lookup es c = none ↔ ∀ e ∈ es, e.contains c = false := by
  simp [lookup]

theorem exists_of_lookup {es : List Edge} {c : Char} {t : Nat} (h : lookup es c = some t) :
    ∃ e ∈ es, e.contains c = true ∧ e.target = t := by
  obtain ⟨e, he, ht⟩ := Option.map_eq_some_iff.1 h
  exact ⟨e, List.mem_of_find?_eq_some he, by simpa using List.find?_some he, ht⟩

/-- A character below every range has no target. -/
theorem lookup_eq_none_of_lt {es : List Edge} {c : Char} (h : ∀ e ∈ es, c < e.range.lo) :
    lookup es c = none := by
  refine lookup_eq_none_iff.2 fun e he => ?_
  have := index_lt_index.2 (h e he)
  rw [Bool.eq_false_iff, ne_eq, contains_iff]
  omega

namespace Sorted

theorem nil : Sorted [] := ⟨by simp, .nil⟩

theorem of_cons {e : Edge} {es : List Edge} (h : Sorted (e :: es)) : Sorted es :=
  ⟨fun f hf => h.proper f (List.mem_cons_of_mem _ hf), (List.pairwise_cons.1 h.increasing).2⟩

theorem head_lt {e : Edge} {es : List Edge} (h : Sorted (e :: es)) :
    ∀ f ∈ es, e.range.hi < f.range.lo := (List.pairwise_cons.1 h.increasing).1

theorem head_le {e : Edge} {es : List Edge} (h : Sorted (e :: es)) : e.range.lo ≤ e.range.hi :=
  h.proper e List.mem_cons_self

theorem head_contains {e : Edge} {es : List Edge} (h : Sorted (e :: es)) :
    e.contains e.range.lo = true :=
  contains_iff.2 ⟨Nat.le_refl _, index_le_index.2 h.head_le⟩

/-- The later edges do not reach back into the first range. -/
theorem lookup_tail {e : Edge} {es : List Edge} (h : Sorted (e :: es)) {c : Char}
    (hc : e.contains c = true) : lookup es c = none := by
  apply lookup_eq_none_of_lt
  intro f hf
  have hlt := index_lt_index.2 (h.head_lt f hf)
  rw [contains_iff] at hc
  exact index_lt_index.1 (by omega)

theorem cons {e : Edge} {es : List Edge} (he : e.range.lo ≤ e.range.hi)
    (hlt : ∀ f ∈ es, e.range.hi < f.range.lo) (h : Sorted es) : Sorted (e :: es) :=
  ⟨fun f hf => by
    rcases List.mem_cons.1 hf with rfl | hf
    · exact he
    · exact h.proper f hf, List.pairwise_cons.2 ⟨hlt, h.increasing⟩⟩

theorem sublist {es fs : List Edge} (h : Sorted fs) (hs : es.Sublist fs) : Sorted es :=
  ⟨fun e he => h.proper e (hs.subset he), h.increasing.sublist hs⟩

/-- Targets play no part in the order. -/
theorem map_target {es : List Edge} (h : Sorted es) (g : Nat → Nat) :
    Sorted (es.map fun e => { e with target := g e.target }) :=
  ⟨fun f hf => by
    obtain ⟨e, he, rfl⟩ := List.mem_map.1 hf
    exact h.proper e he, List.pairwise_map.2 h.increasing⟩

/-- In a sorted list it does not matter which edge with `c` is asked for its target. -/
theorem lookup_of_mem {es : List Edge} (h : Sorted es) {e : Edge} {c : Char} (he : e ∈ es)
    (hc : e.contains c = true) : lookup es c = some e.target := by
  induction es with
  | nil => simp at he
  | cons f es ih =>
    rcases List.mem_cons.1 he with rfl | he
    · exact lookup_cons_of_mem hc
    · have hlt := index_lt_index.2 (h.head_lt e he)
      have hf : ¬f.contains c = true := by
        rw [contains_iff] at hc ⊢
        omega
      rw [lookup_cons, if_neg hf]
      exact ih h.of_cons he

theorem lookup_eq_some_iff {es : List Edge} (h : Sorted es) {c : Char} {t : Nat} :
    lookup es c = some t ↔ ∃ e ∈ es, e.contains c = true ∧ e.target = t := by
  refine ⟨exists_of_lookup, ?_⟩
  rintro ⟨e, he, hc, rfl⟩
  exact h.lookup_of_mem he hc

end Sorted

theorem lookup_map_target (es : List Edge) (g : Nat → Nat) (c : Char) :
    lookup (es.map fun e => { e with target := g e.target }) c = (lookup es c).map g := by
  induction es with
  | nil => rfl
  | cons e es ih =>
    simp only [List.map_cons, lookup_cons, ih]
    by_cases h : e.contains c = true
    · rw [if_pos h]
      exact (if_pos h).trans rfl
    · rw [if_neg h]
      exact if_neg h

/-! ### Joining -/

/-- Every range of the joined list starts where a range of the list starts. -/
theorem exists_lo_of_mem_coalesce {es : List Edge} {f : Edge} (h : f ∈ coalesce es) :
    ∃ e ∈ es, e.range.lo = f.range.lo ∧ e.target = f.target := by
  induction es generalizing f with
  | nil => simp [coalesce] at h
  | cons e rest ih =>
    unfold coalesce at h
    split at h
    · obtain rfl := List.mem_singleton.1 h
      exact ⟨f, List.mem_cons_self, rfl, rfl⟩
    · rename_i g tail hg
      have later : ∀ f ∈ coalesce rest, ∃ e' ∈ e :: rest,
          e'.range.lo = f.range.lo ∧ e'.target = f.target := fun f hf => by
        obtain ⟨e', he', hlo⟩ := ih hf
        exact ⟨e', List.mem_cons_of_mem _ he', hlo⟩
      split at h
      · rcases List.mem_cons.1 h with rfl | h
        · exact ⟨e, List.mem_cons_self, rfl, rfl⟩
        · exact later f (hg ▸ List.mem_cons_of_mem _ h)
      · rcases List.mem_cons.1 h with rfl | h
        · exact ⟨f, List.mem_cons_self, rfl, rfl⟩
        · exact later f (hg ▸ h)

theorem lt_lo_of_mem_coalesce {es : List Edge} {c : Char} (h : ∀ e ∈ es, c < e.range.lo) :
    ∀ f ∈ coalesce es, c < f.range.lo := by
  intro f hf
  obtain ⟨e, he, hlo, -⟩ := exists_lo_of_mem_coalesce hf
  exact hlo ▸ h e he

theorem sorted_coalesce {es : List Edge} (h : Sorted es) : Sorted (coalesce es) := by
  induction es with
  | nil => exact Sorted.nil
  | cons e rest ih =>
    have hrest := ih h.of_cons
    have hlt := lt_lo_of_mem_coalesce h.head_lt
    unfold coalesce
    split
    · exact Sorted.cons h.head_le (by simp) Sorted.nil
    · rename_i f tail hf
      rw [hf] at hrest hlt
      split
      · have hef := index_lt_index.2 (hlt f List.mem_cons_self)
        have hle := index_le_index.2 h.head_le
        have hfle := index_le_index.2 hrest.head_le
        exact Sorted.cons (index_le_index.1 (by simp only; omega)) hrest.head_lt hrest.of_cons
      · exact Sorted.cons h.head_le hlt hrest

/-- Joining keeps every character's target. -/
theorem lookup_coalesce {es : List Edge} (h : Sorted es) (c : Char) :
    lookup (coalesce es) c = lookup es c := by
  induction es with
  | nil => rfl
  | cons e rest ih =>
    have hrest := ih h.of_cons
    have hsorted := sorted_coalesce h.of_cons
    have hle := index_le_index.2 h.head_le
    rw [lookup_cons, ← hrest, coalesce]
    split
    · rename_i hnil
      rw [hnil, lookup_cons]
    · rename_i f tail hf
      rw [hf] at hsorted
      have hfle := index_le_index.2 hsorted.head_le
      rw [hf]
      split
      · rename_i hmeets
        obtain ⟨ht, hadj⟩ := meets_iff.1 hmeets
        simp only [lookup_cons, contains_iff, ht]
        split_ifs <;> first | rfl | omega
      · rw [lookup_cons]

theorem isChain_coalesce (es : List Edge) :
    (coalesce es).IsChain fun e f => e.meets f = false := by
  induction es with
  | nil => simp [coalesce]
  | cons e rest ih =>
    unfold coalesce
    split
    · simp
    · rename_i f tail hf
      rw [hf] at ih
      split
      · -- The joined edge ends where `f` ended and has its target, so it meets what `f` met.
        rename_i hmeets
        obtain ⟨ht, -⟩ := meets_iff.1 hmeets
        cases tail with
        | nil => simp
        | cons g tail =>
          obtain ⟨hfg, hrest⟩ := List.isChain_cons_cons.1 ih
          exact List.isChain_cons_cons.2 ⟨by simpa [meets, ht] using hfg, hrest⟩
      · rename_i hmeets
        exact List.isChain_cons_cons.2 ⟨by simpa using hmeets, ih⟩

theorem normal_coalesce {es : List Edge} (h : Sorted es) : Normal (coalesce es) :=
  ⟨sorted_coalesce h, isChain_coalesce es⟩

/-! ### Uniqueness -/

theorem exists_index {n : Nat} (h : n < Char.numCodePoints) : ∃ c, index c = n :=
  ⟨Char.ofOrdinal ⟨n, h⟩, index_ofOrdinal n h⟩

/-- An edge of a sorted list that starts right behind the first edge is the second one. -/
theorem Sorted.eq_head_of_adjacent {e f g : Edge} {es : List Edge} (h : Sorted (e :: g :: es))
    (hf : f ∈ g :: es) (hadj : index e.range.hi + 1 = index f.range.lo) : f = g := by
  rcases List.mem_cons.1 hf with rfl | hf
  · rfl
  · have h₁ := index_lt_index.2 (h.head_lt g List.mem_cons_self)
    have h₂ := index_le_index.2 h.of_cons.head_le
    have h₃ := index_lt_index.2 (h.of_cons.head_lt f hf)
    omega

/-- Right behind the first edge of a normal list, no edge leads to the same target. -/
theorem Normal.lookup_behind_head {e : Edge} {es : List Edge} (h : Normal (e :: es)) {c : Char}
    (hc : index e.range.hi + 1 = index c) : lookup (e :: es) c ≠ some e.target := by
  intro hl
  obtain ⟨f, hf, hfc, ht⟩ := exists_of_lookup hl
  rw [contains_iff] at hfc
  rcases List.mem_cons.1 hf with rfl | hf
  · omega
  · have hlt := index_lt_index.2 (h.head_lt f hf)
    have hadj : index e.range.hi + 1 = index f.range.lo := by omega
    cases es with
    | nil => simp at hf
    | cons g es =>
      obtain rfl := h.eq_head_of_adjacent hf hadj
      have := (List.isChain_cons_cons.1 h.apart).1
      rw [Bool.eq_false_iff, ne_eq, meets_iff] at this
      exact this ⟨ht.symm, hadj⟩

theorem Normal.of_cons {e : Edge} {es : List Edge} (h : Normal (e :: es)) : Normal es :=
  ⟨h.toSorted.of_cons, h.apart.tail⟩

section

variable {R : Nat → Nat → Prop}

theorem rel_swap {a b : Option Nat} (h : Option.Rel R a b) :
    Option.Rel (fun b a => R a b) b a := by
  cases h with
  | none => exact .none
  | some h => exact .some h

/-- The first ranges of two normal lists start together if related targets are found for the same
characters. -/
theorem lo_le_of_related {e f : Edge} {es fs : List Edge} (he : Sorted (e :: es))
    (hf : Sorted (f :: fs)) (h : ∀ c, Option.Rel R (lookup (e :: es) c) (lookup (f :: fs) c)) :
    index f.range.lo ≤ index e.range.lo := by
  by_contra hlt
  have hself := he.head_contains
  have hnone : lookup (f :: fs) e.range.lo = none := by
    refine lookup_eq_none_of_lt fun g hg => index_lt_index.1 ?_
    rcases List.mem_cons.1 hg with rfl | hg
    · omega
    · have := index_lt_index.2 (hf.head_lt g hg)
      have := index_le_index.2 hf.head_le
      omega
  have := h e.range.lo
  rw [lookup_cons_of_mem hself, hnone] at this
  cases this

/-- The first range of a normal list does not end before that of another one with related targets,
if each target is related to one target only. -/
theorem hi_le_of_related {e f : Edge} {es fs : List Edge}
    (hR : Relator.LeftUnique R) (he : Normal (e :: es))
    (hlo : index e.range.lo = index f.range.lo)
    (h : ∀ c, Option.Rel R (lookup (e :: es) c) (lookup (f :: fs) c)) :
    index f.range.hi ≤ index e.range.hi := by
  by_contra hlt
  have hele := index_le_index.2 he.head_le
  have hself : e.contains e.range.lo = true := contains_iff.2 ⟨Nat.le_refl _, hele⟩
  have hself' : f.contains e.range.lo = true := contains_iff.2 ⟨by omega, by omega⟩
  have htargets := h e.range.lo
  rw [lookup_cons_of_mem hself, lookup_cons_of_mem hself'] at htargets
  cases htargets with
  | some hef =>
    -- The character behind the first edge goes to the target of `f`, so it goes to that of `e`.
    obtain ⟨c, hc⟩ := exists_index (n := index e.range.hi + 1)
      (by have := index_lt f.range.hi; omega)
    have hfc : f.contains c = true := contains_iff.2 ⟨by omega, by omega⟩
    have hbehind := h c
    rw [lookup_cons_of_mem hfc] at hbehind
    cases hl : lookup (e :: es) c with
    | none => rw [hl] at hbehind; cases hbehind
    | some t =>
      rw [hl] at hbehind
      cases hbehind with
      | some htf => exact he.lookup_behind_head hc.symm (by rw [hl, hR htf hef])

theorem range_eq_of_related (hR : Relator.BiUnique R) {e f : Edge} {es fs : List Edge}
    (he : Normal (e :: es)) (hf : Normal (f :: fs))
    (h : ∀ c, Option.Rel R (lookup (e :: es) c) (lookup (f :: fs) c)) : e.range = f.range := by
  have hlo : index e.range.lo = index f.range.lo :=
    Nat.le_antisymm (lo_le_of_related hf.toSorted he.toSorted fun c => rel_swap (h c))
      (lo_le_of_related he.toSorted hf.toSorted h)
  have hhi : index e.range.hi = index f.range.hi :=
    Nat.le_antisymm
      (hi_le_of_related (R := fun b a => R a b) (fun _ _ _ h h' => hR.2 h h') hf hlo.symm
        fun c => rel_swap (h c))
      (hi_le_of_related hR.1 he hlo h)
  rw [show e.range = ⟨e.range.lo, e.range.hi⟩ from rfl, index_inj.1 hlo, index_inj.1 hhi]

/-- Two normal lists in which every character has related targets, or none in both, have the same
ranges and related targets. -/
theorem forall₂_of_related (hR : Relator.BiUnique R) {es fs : List Edge} (he : Normal es)
    (hf : Normal fs) (h : ∀ c, Option.Rel R (lookup es c) (lookup fs c)) :
    List.Forall₂ (fun e f => e.range = f.range ∧ R e.target f.target) es fs := by
  induction es generalizing fs with
  | nil =>
    cases fs with
    | nil => exact .nil
    | cons f fs =>
      have hfirst := h f.range.lo
      rw [lookup_cons_of_mem hf.head_contains] at hfirst
      cases hfirst
  | cons e es ih =>
    cases fs with
    | nil =>
      have hfirst := h e.range.lo
      rw [lookup_cons_of_mem he.head_contains] at hfirst
      cases hfirst
    | cons f fs =>
      have hrange := range_eq_of_related hR he hf h
      have hcontains : ∀ c, f.contains c = e.contains c := fun c => by
        rw [contains, contains, hrange]
      refine .cons ⟨hrange, ?_⟩ (ih he.of_cons hf.of_cons fun c => ?_)
      · have hself := he.head_contains
        have hfirst := h e.range.lo
        rw [lookup_cons_of_mem hself, lookup_cons_of_mem ((hcontains _).trans hself)] at hfirst
        cases hfirst with
        | some hef => exact hef
      · by_cases hc : e.contains c = true
        · rw [he.lookup_tail hc, hf.lookup_tail ((hcontains c).trans hc)]
          exact .none
        · have hrest := h c
          rwa [lookup_cons, lookup_cons, hcontains c, if_neg hc, if_neg hc] at hrest

end

/-- A normal list is determined by the target of every character. -/
theorem Normal.ext {es fs : List Edge} (he : Normal es) (hf : Normal fs)
    (h : ∀ c, lookup es c = lookup fs c) : es = fs := by
  have hrel : ∀ c, Option.Rel (· = ·) (lookup es c) (lookup fs c) := fun c => by
    rw [h c]
    cases lookup fs c with
    | none => exact .none
    | some t => exact .some rfl
  have := forall₂_of_related
    ⟨fun _ _ _ h h' => h.trans h'.symm, fun _ _ _ h h' => h.symm.trans h'⟩ he hf hrel
  refine List.forall₂_eq_eq_eq ▸ this.imp fun e f ⟨hr, ht⟩ => ?_
  cases e
  cases f
  simp_all

end Edge

end LexerGen
