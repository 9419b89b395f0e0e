import LexerGen.Proofs.Trim
import LexerGen.Table.Minimise
import Mathlib.Data.Finset.Card
import Mathlib.Data.Finset.Image
import Mathlib.Data.Finset.Range

/-! Blocks of states. Splitting only ever separates states that some text tells apart, and it stops
when the number of blocks stays the same, which means that no block was split: then two states of a
block have the same tag and go to the same block on every character. -/

namespace LexerGen.StateTable

open Edge

/-- The blocks `b` of the states below `size` hold the states with the same key together, and each
is named by its lowest state. -/
structure Blocks.By {κ : Type} (b : Blocks) (size : Nat) (key : Nat → κ) : Prop where
  of_le : ∀ s < size, b.of s ≤ s
  key_of : ∀ s < size, key (b.of s) = key s
  of_eq : ∀ s < size, ∀ s' < size, key s = key s' → b.of s = b.of s'
  count_eq : b.count = ((Finset.range size).image b.of).card

namespace Blocks.By

variable {κ : Type} {b : Blocks} {size : Nat} {key : Nat → κ}

theorem of_lt (h : b.By size key) {s : Nat} (hs : s < size) : b.of s < size :=
  Nat.lt_of_le_of_lt (h.of_le s hs) hs

theorem of_of (h : b.By size key) {s : Nat} (hs : s < size) : b.of (b.of s) = b.of s :=
  h.of_eq _ (h.of_lt hs) _ hs (h.key_of s hs)

theorem of_eq_iff (h : b.By size key) {s s' : Nat} (hs : s < size) (hs' : s' < size) :
    b.of s = b.of s' ↔ key s = key s' :=
  ⟨fun heq => by rw [← h.key_of s hs, heq, h.key_of s' hs'], h.of_eq s hs s' hs'⟩

theorem count_le (h : b.By size key) : b.count ≤ size := by
  rw [h.count_eq]
  exact Finset.card_image_le.trans (by simp)

theorem count_pos (h : b.By size key) (hsize : 0 < size) : 0 < b.count := by
  rw [h.count_eq, Finset.card_pos]
  exact ⟨b.of 0, Finset.mem_image_of_mem _ (Finset.mem_range.2 hsize)⟩

end Blocks.By

/-! ### Building blocks -/

section

variable {κ : Type} [BEq κ] [Hashable κ]

/-- The leaders after the states below `n`, with the index of their keys. -/
structure Led (key : Nat → κ) (n : Nat) (leader : Array Nat) (leaders : Std.HashMap κ Nat) :
    Prop where
  size_eq : leader.size = n
  indexed : ∀ s < n, leaders[key s]? = leader[s]?
  sound : ∀ (k : κ) (v : Nat), leaders[k]? = some v → v < n ∧ key v = k
  least : ∀ (s v : Nat), leader[s]? = some v → v ≤ s
  count_eq : leaders.size = ((Finset.range n).image fun s => leader.getD s s).card

/-- One state more, with the leader of its key if there is one and as a leader otherwise. -/
def lead (key : Nat → κ) (p : Array Nat × Std.HashMap κ Nat) (state : Nat) :
    Array Nat × Std.HashMap κ Nat :=
  match p.2[key state]? with
  | some first => (p.1.push first, p.2)
  | none => (p.1.push state, p.2.insert (key state) state)

theorem image_push (leader : Array Nat) (v : Nat) :
    ((Finset.range (leader.size + 1)).image fun s => (leader.push v).getD s s) =
      insert v ((Finset.range leader.size).image fun s => leader.getD s s) := by
  rw [Finset.range_add_one, Finset.image_insert]
  congr 1
  · simp [Array.getD_eq_getD_getElem?]
  · refine Finset.image_congr fun s hs => ?_
    have hs : s < leader.size := by simpa using hs
    simp [Array.getD_eq_getD_getElem?, Array.getElem?_push, Nat.ne_of_lt hs]

theorem blocksBy_eq (size : Nat) (key : Nat → κ) :
    blocksBy size key =
      let p := (List.range size).foldl (lead key) (Array.emptyWithCapacity size, ∅)
      ⟨p.1, p.2.size⟩ := rfl

theorem Led.least_push {key : Nat → κ} {n v : Nat} {leader : Array Nat}
    {leaders : Std.HashMap κ Nat} (h : Led key n leader leaders) (hv : v ≤ n) (s u : Nat)
    (hu : (leader.push v)[s]? = some u) : u ≤ s := by
  obtain rfl := h.size_eq
  rw [Array.getElem?_push] at hu
  split at hu
  · obtain rfl := Option.some.inj hu
    omega
  · exact h.least s u hu

/-- A state whose key has a leader follows it. -/
theorem Led.follow {key : Nat → κ} {n first : Nat} {leader : Array Nat}
    {leaders : Std.HashMap κ Nat} (h : Led key n leader leaders)
    (hfirst : leaders[key n]? = some first) : Led key (n + 1) (leader.push first) leaders := by
  obtain ⟨hlt, hkey⟩ := h.sound _ _ hfirst
  have hleast := h.least_push (Nat.le_of_lt hlt)
  obtain rfl := h.size_eq
  have hself : leader[first]? = some first := by rw [← h.indexed first hlt, hkey, hfirst]
  refine ⟨by simp, fun s hs => ?_, fun k v hv => ?_, hleast, ?_⟩
  · rw [Array.getElem?_push]
    by_cases heq : s = leader.size
    · rw [if_pos heq, heq, hfirst]
    · rw [if_neg heq]
      exact h.indexed s (by omega)
  · obtain ⟨hv, hk⟩ := h.sound k v hv
    exact ⟨by omega, hk⟩
  · rw [h.count_eq, image_push, Finset.insert_eq_of_mem]
    refine Finset.mem_image.2 ⟨first, Finset.mem_range.2 hlt, ?_⟩
    simp [Array.getD_eq_getD_getElem?, hself]

variable [LawfulBEq κ]

/-- A state with a new key leads itself. -/
theorem Led.found {key : Nat → κ} {n : Nat} {leader : Array Nat} {leaders : Std.HashMap κ Nat}
    (h : Led key n leader leaders) (hnone : leaders[key n]? = none) :
    Led key (n + 1) (leader.push n) (leaders.insert (key n) n) := by
  have hleast := h.least_push (Nat.le_refl n)
  obtain rfl := h.size_eq
  refine ⟨by simp, fun s hs => ?_, fun k v hv => ?_, hleast, ?_⟩
  · rw [Std.HashMap.getElem?_insert, Array.getElem?_push]
    by_cases heq : s = leader.size
    · simp [heq]
    · have hlt : s < leader.size := by omega
      have hne : key leader.size ≠ key s := fun hk => by
        rw [hk, h.indexed s hlt] at hnone
        simp [hlt] at hnone
      simp [heq, hne, h.indexed s hlt]
  · rw [Std.HashMap.getElem?_insert] at hv
    split at hv
    · rename_i hk
      obtain rfl := Option.some.inj hv
      exact ⟨Nat.lt_succ_self _, by simpa using hk⟩
    · obtain ⟨hv, hk⟩ := h.sound k v hv
      exact ⟨by omega, hk⟩
  · have hnew : leader.size ∉ (Finset.range leader.size).image fun s => leader.getD s s := by
      intro hmem
      obtain ⟨s, hs, hv⟩ := Finset.mem_image.1 hmem
      have hs : s < leader.size := Finset.mem_range.1 hs
      have hle := h.least s leader[s] (by simp [hs])
      simp [Array.getD_eq_getD_getElem?, hs] at hv
      omega
    have hmem : key leader.size ∉ leaders := by
      rw [Std.HashMap.mem_iff_isSome_getElem?, hnone]
      simp
    rw [Std.HashMap.size_insert, if_neg hmem, h.count_eq, image_push,
      Finset.card_insert_of_notMem hnew]

theorem Led.lead {key : Nat → κ} {n : Nat} {p : Array Nat × Std.HashMap κ Nat}
    (h : Led key n p.1 p.2) :
    Led key (n + 1) (lead key p n).1 (lead key p n).2 := by
  unfold StateTable.lead
  split
  · rename_i first hfirst
    exact h.follow hfirst
  · rename_i hnone
    exact h.found hnone

/-- The blocks by a key hold the states with the same key together. -/
theorem blocksBy_by (size : Nat) (key : Nat → κ) : (blocksBy size key).By size key := by
  have hled : ∀ n, Led key n
      ((List.range n).foldl (lead key) (Array.emptyWithCapacity size, ∅)).1
      ((List.range n).foldl (lead key) (Array.emptyWithCapacity size, ∅)).2 := by
    intro n
    induction n with
    | zero => exact ⟨by simp, by simp, by simp, by simp, by simp⟩
    | succ n ih =>
      rw [List.range_succ, List.foldl_append]
      exact ih.lead
  have h := hled size
  rw [blocksBy_eq]
  generalize (List.range size).foldl (lead key) (Array.emptyWithCapacity size, ∅) = p at h ⊢
  have hof : ∀ s < size, p.1[s]? = some (Blocks.of ⟨p.1, p.2.size⟩ s) := by
    intro s hs
    have hs : s < p.1.size := by rw [h.size_eq]; exact hs
    simp [Blocks.of, Array.getD_eq_getD_getElem?, hs]
  have hleast := fun s hs => h.least s _ (hof s hs)
  refine ⟨hleast, fun s hs => ?_, fun s hs s' hs' hkey => ?_, h.count_eq⟩
  · exact (h.sound (key s) _ ((h.indexed s hs).trans (hof s hs))).2
  · have := h.indexed s hs
    rw [hkey, h.indexed s' hs', hof s hs, hof s' hs'] at this
    exact (Option.some.inj this).symm

end

/-! ### Splitting -/

theorem WellFormed.next?_lt {t : StateTable} (ht : t.WellFormed) {s m : Nat} {c : Char}
    (h : t.next? s c = some m) : m < t.size := by
  rw [next?_eq_lookup (ht.sorted s)] at h
  obtain ⟨e, he, -, rfl⟩ := exists_of_lookup h
  exact ht.target_lt s e he

theorem Live.next? {t : StateTable} (hl : t.Live) (ht : t.WellFormed) {s m : Nat} {c : Char}
    (h : t.next? s c = some m) : ∃ w tag, t.tagFrom? m w = some tag := by
  rw [next?_eq_lookup (ht.sorted s)] at h
  obtain ⟨e, he, -, rfl⟩ := exists_of_lookup h
  exact hl s e he

theorem lookup_blockEdges {t : StateTable} (ht : t.WellFormed) (b : Blocks) (s : Nat) (c : Char) :
    lookup (t.blockEdges b s) c = (t.next? s c).map b.of := by
  rw [blockEdges, lookup_coalesce ((ht.sorted s).map_target b.of), lookup_map_target,
    next?_eq_lookup (ht.sorted s)]

theorem normal_blockEdges {t : StateTable} (ht : t.WellFormed) (b : Blocks) (s : Nat) :
    Normal (t.blockEdges b s) := normal_coalesce ((ht.sorted s).map_target b.of)

theorem blockEdges_congr {t : StateTable} (ht : t.WellFormed) {b b' : Blocks}
    (h : ∀ s < t.size, b.of s = b'.of s) (s : Nat) : t.blockEdges b s = t.blockEdges b' s := by
  rw [blockEdges, blockEdges]
  congr 1
  refine List.map_congr_left fun e he => ?_
  rw [h e.target (ht.target_lt s e he)]

/-- What holds of the blocks while they are split: the states of a block have one tag, and states of
different blocks are told apart by some text. -/
structure Sound (t : StateTable) (b : Blocks) : Prop extends b.By t.size b.of where
  tag_eq : ∀ s < t.size, ∀ s' < t.size, b.of s = b.of s' → t.tag? s = t.tag? s'
  told : ∀ s < t.size, ∀ s' < t.size, b.of s ≠ b.of s' → ∃ w, t.tagFrom? s w ≠ t.tagFrom? s' w

theorem Blocks.By.self {κ : Type} {b : Blocks} {size : Nat} {key : Nat → κ} (h : b.By size key) :
    b.By size b.of :=
  ⟨h.of_le, fun _ hs => h.of_of hs, fun _ _ _ _ => id, h.count_eq⟩

theorem sound_tags (t : StateTable) : t.Sound (blocksBy t.size t.tag?) := by
  have hby := blocksBy_by t.size t.tag?
  refine ⟨hby.self, fun s hs s' hs' h => (hby.of_eq_iff hs hs').1 h, fun s hs s' hs' h => ⟨[], ?_⟩⟩
  rw [tagFrom?_nil, tagFrom?_nil]
  exact fun htag => h ((hby.of_eq_iff hs hs').2 htag)

theorem split_by (t : StateTable) (b : Blocks) :
    (t.split b).By t.size fun state => (b.of state, t.blockEdges b state) := blocksBy_by t.size _

theorem of_split_eq_iff {t : StateTable} {b : Blocks} {s s' : Nat} (hs : s < t.size)
    (hs' : s' < t.size) : (t.split b).of s = (t.split b).of s' ↔
      b.of s = b.of s' ∧ t.blockEdges b s = t.blockEdges b s' := by
  rw [(split_by t b).of_eq_iff hs hs', Prod.mk.injEq]

theorem exists_told_of_blockEdges {t : StateTable} (ht : t.WellFormed) (hl : t.Live) {b : Blocks}
    (hb : t.Sound b) {s s' : Nat} (h : t.blockEdges b s ≠ t.blockEdges b s') :
    ∃ w, t.tagFrom? s w ≠ t.tagFrom? s' w := by
  obtain ⟨c, hc⟩ : ∃ c, lookup (t.blockEdges b s) c ≠ lookup (t.blockEdges b s') c := by
    by_contra hall
    push Not at hall
    exact h ((normal_blockEdges ht b s).ext (normal_blockEdges ht b s') hall)
  rw [lookup_blockEdges ht, lookup_blockEdges ht] at hc
  -- A state that is stuck on `c` accepts nothing behind it, and the other one accepts something.
  cases hm : t.next? s c with
  | none =>
    cases hm' : t.next? s' c with
    | none => simp [hm, hm'] at hc
    | some m' =>
      obtain ⟨w, tag, hw⟩ := hl.next? ht hm'
      exact ⟨c :: w, by simp [tagFrom?_cons, hm, hm', hw]⟩
  | some m =>
    cases hm' : t.next? s' c with
    | none =>
      obtain ⟨w, tag, hw⟩ := hl.next? ht hm
      exact ⟨c :: w, by simp [tagFrom?_cons, hm, hm', hw]⟩
    | some m' =>
      rw [hm, hm'] at hc
      obtain ⟨w, hw⟩ := hb.told m (ht.next?_lt hm) m' (ht.next?_lt hm') fun heq => hc (by
        rw [Option.map_some, Option.map_some, heq])
      exact ⟨c :: w, by simpa [tagFrom?_cons, hm, hm'] using hw⟩

theorem Sound.split {t : StateTable} (ht : t.WellFormed) (hl : t.Live) {b : Blocks}
    (hb : t.Sound b) : t.Sound (t.split b) := by
  refine ⟨(split_by t b).self, fun s hs s' hs' h => ?_, fun s hs s' hs' h => ?_⟩
  · exact hb.tag_eq s hs s' hs' ((of_split_eq_iff hs hs').1 h).1
  · rw [ne_eq, of_split_eq_iff hs hs', not_and_or] at h
    rcases h with h | h
    · exact hb.told s hs s' hs' h
    · exact exists_told_of_blockEdges ht hl hb h

/-! ### The end of the splitting -/

/-- States of a block have the same edges between blocks. -/
def Stable (t : StateTable) (b : Blocks) : Prop :=
  ∀ s < t.size, ∀ s' < t.size, b.of s = b.of s' → t.blockEdges b s = t.blockEdges b s'

theorem of_of_split {t : StateTable} {b : Blocks} {s : Nat} (hs : s < t.size) :
    b.of ((t.split b).of s) = b.of s :=
  have hby := split_by t b
  ((of_split_eq_iff (hby.of_lt hs) hs).1 (hby.of_of hs)).1

theorem image_of_split (t : StateTable) (b : Blocks) :
    ((Finset.range t.size).image (t.split b).of).image b.of = (Finset.range t.size).image b.of := by
  rw [Finset.image_image]
  exact Finset.image_congr fun s hs => of_of_split (Finset.mem_range.1 hs)

theorem count_le_split {t : StateTable} {b : Blocks} (hb : t.Sound b) :
    b.count ≤ (t.split b).count := by
  rw [hb.count_eq, (split_by t b).count_eq, ← image_of_split t b]
  exact Finset.card_image_le

/-- If there are no more blocks after the splitting, they are the blocks from before it. -/
theorem of_split_eq {t : StateTable} {b : Blocks} (hb : t.Sound b)
    (hcount : (t.split b).count = b.count) {s : Nat} (hs : s < t.size) :
    (t.split b).of s = b.of s := by
  have hby := split_by t b
  have hinj : Set.InjOn b.of ((Finset.range t.size).image (t.split b).of) := by
    rw [← Finset.card_image_iff, image_of_split, ← hb.count_eq, ← hby.count_eq, hcount]
  have hmem : ∀ {n}, n < t.size →
      (t.split b).of n ∈ ((Finset.range t.size).image (t.split b).of : Set Nat) := fun hn =>
    Finset.mem_coe.2 (Finset.mem_image_of_mem _ (Finset.mem_range.2 hn))
  -- The leader from before lies in the block from after it, so neither leader is below the other.
  have hleader : (t.split b).of (b.of s) = (t.split b).of s :=
    hinj (hmem (hb.of_lt hs)) (hmem hs) (by
      rw [of_of_split hs, of_of_split (hb.of_lt hs), hb.of_of hs])
  have hle : (t.split b).of s ≤ b.of s := hleader ▸ hby.of_le _ (hb.of_lt hs)
  have hge : b.of s ≤ (t.split b).of s := of_of_split (b := b) hs ▸ hb.of_le _ (hby.of_lt hs)
  omega

theorem stable_split {t : StateTable} (ht : t.WellFormed) {b : Blocks} (hb : t.Sound b)
    (hcount : (t.split b).count = b.count) : t.Stable (t.split b) := by
  intro s hs s' hs' h
  have hcongr := blockEdges_congr ht fun n hn => of_split_eq hb hcount hn
  rw [hcongr s, hcongr s']
  exact ((of_split_eq_iff hs hs').1 h).2

theorem refine_sound {t : StateTable} (ht : t.WellFormed) (hl : t.Live) {fuel : Nat} {b : Blocks}
    (hb : t.Sound b) (hfuel : t.size < b.count + fuel) :
    t.Sound (t.refine fuel b) ∧ t.Stable (t.refine fuel b) := by
  induction fuel generalizing b with
  | zero =>
    have := hb.count_le
    omega
  | succ fuel ih =>
    rw [refine]
    split
    · rename_i hcount
      exact ⟨hb.split ht hl, stable_split ht hb hcount⟩
    · rename_i hcount
      have := count_le_split hb
      exact ih (hb.split ht hl) (by omega)

theorem blocks_sound {t : StateTable} (ht : t.WellFormed) (hl : t.Live) :
    t.Sound t.blocks ∧ t.Stable t.blocks := by
  have hpos := (sound_tags t).count_pos (Nat.zero_lt_of_lt ht.entry_lt)
  exact refine_sound ht hl (sound_tags t) (by omega)

theorem map_next?_of_stable {t : StateTable} (ht : t.WellFormed) {b : Blocks} (hb : t.Stable b)
    {s s' : Nat} (hs : s < t.size) (hs' : s' < t.size) (h : b.of s = b.of s') (c : Char) :
    (t.next? s c).map b.of = (t.next? s' c).map b.of := by
  rw [← lookup_blockEdges ht, ← lookup_blockEdges ht, hb s hs s' hs' h]

/-- Two states are in one block exactly if no text tells them apart. -/
theorem of_blocks_eq_iff {t : StateTable} (ht : t.WellFormed) (hl : t.Live) {s s' : Nat}
    (hs : s < t.size) (hs' : s' < t.size) :
    t.blocks.of s = t.blocks.of s' ↔ ∀ w, t.tagFrom? s w = t.tagFrom? s' w := by
  obtain ⟨hsound, hstable⟩ := blocks_sound ht hl
  constructor
  · intro h w
    induction w generalizing s s' with
    | nil => exact hsound.tag_eq s hs s' hs' h
    | cons c w ih =>
      have hnext := map_next?_of_stable ht hstable hs hs' h c
      rw [tagFrom?_cons, tagFrom?_cons]
      cases hm : t.next? s c with
      | none =>
        rw [hm, Option.map_none, eq_comm, Option.map_eq_none_iff] at hnext
        rw [hnext]
      | some m =>
        rw [hm, Option.map_some, eq_comm, Option.map_eq_some_iff] at hnext
        obtain ⟨m', hm', hof⟩ := hnext
        rw [hm']
        exact ih (ht.next?_lt hm) (ht.next?_lt hm') hof.symm
  · intro h
    by_contra hne
    obtain ⟨w, hw⟩ := hsound.told s hs s' hs' hne
    exact hw (h w)

end LexerGen.StateTable
