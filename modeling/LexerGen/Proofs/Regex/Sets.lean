import LexerGen.Proofs.Regex.Grammar
import LexerGen.Proofs.Regex.Proper
import LexerGen.Proofs.Text.Reading

/-! Sets of characters and quantifiers are read as the grammar has them: each reader succeeds
exactly on the texts of its part of the grammar, whatever stands behind them. -/

namespace LexerGen.Regex

open Text Grammar

/-! ### Escapes -/

theorem hexPair?_eq_some_iff {c c' : Cursor} {z : Char} :
    hexPair? c = some (z, c') ↔ ∃ x y, c.Reads [x, y] c' ∧ Hex 0 [x, y] z.toNat := by
  simp only [hexPair?, Option.bind_eq_bind, Option.bind_eq_some_iff, Prod.exists,
    Cursor.next?_eq_some_iff, scalar?_eq_some_iff]
  constructor
  · rintro ⟨x, c₁, h₁, a, ha, y, c₂, h₂, b, hb, z, hz, heq⟩
    obtain ⟨rfl, rfl⟩ := Prod.mk.inj (Option.some.inj heq)
    refine ⟨x, y, h₁.trans h₂, .cons ha (.cons hb ?_)⟩
    rw [hz, Nat.zero_mul, Nat.zero_add]
    exact .nil _
  · rintro ⟨x, y, h, hhex⟩
    obtain ⟨c₁, h₁, h₂⟩ := Cursor.Reads.cons_iff.1 h
    obtain ⟨n, hn⟩ : ∃ n, n = z.toNat := ⟨_, rfl⟩
    rw [← hn] at hhex
    obtain _ | ⟨ha, _ | ⟨hb, ⟨⟩⟩⟩ := hhex
    refine ⟨x, c₁, h₁, _, ha, y, c', h₂, _, hb, z, ?_, rfl⟩
    rw [← hn, Nat.zero_mul, Nat.zero_add]

theorem hexDigit?_brace : hexDigit? '\x7d' = none := by decide

/-- The digits in braces make up the number, together with those before them. -/
theorem bracedDigits?_eq_some_iff {room n : Nat} {value : Option Nat} {c c' : Cursor} :
    bracedDigits? room value c = some (n, c') ↔
      ∃ ds, ds.length ≤ room ∧ (ds = [] → value.isSome = true) ∧
        c.Reads (ds ++ ['\x7d']) c' ∧ Hex (value.getD 0) ds n := by
  constructor
  · intro h
    induction room generalizing value c with
    | zero =>
      rw [bracedDigits?] at h
      split at h
      · cases h
      · rename_i x c₁ hnext
        split at h
        · rename_i hx
          obtain ⟨m, rfl, heq⟩ := Option.map_eq_some_iff.1 h
          obtain ⟨rfl, rfl⟩ := Prod.mk.inj heq
          refine ⟨[], Nat.le_refl _, fun _ => rfl, ?_, .nil m⟩
          rw [← hx]
          exact Cursor.reads_of_next? hnext
        · simp at h
    | succ room ih =>
      rw [bracedDigits?] at h
      split at h
      · cases h
      · rename_i x c₁ hnext
        split at h
        · rename_i hx
          obtain ⟨m, rfl, heq⟩ := Option.map_eq_some_iff.1 h
          obtain ⟨rfl, rfl⟩ := Prod.mk.inj heq
          refine ⟨[], Nat.zero_le _, fun _ => rfl, ?_, .nil m⟩
          rw [← hx]
          exact Cursor.reads_of_next? hnext
        · split at h
          · rename_i room' digit heq hdigit
            obtain rfl := Nat.succ.inj heq
            obtain ⟨ds, hlength, -, hreads, hhex⟩ := ih h
            refine ⟨x :: ds, by simpa using hlength, by simp, ?_, .cons hdigit hhex⟩
            exact (Cursor.reads_of_next? hnext).trans hreads
          · cases h
  · rintro ⟨ds, hlength, hsome, hreads, hhex⟩
    induction ds generalizing room value c with
    | nil =>
      obtain ⟨m, rfl⟩ := Option.isSome_iff_exists.1 (hsome rfl)
      cases hhex
      rw [bracedDigits?.eq_def, Cursor.next?_eq_some_iff.2 hreads]
      simp
    | cons x ds ih =>
      obtain ⟨c₁, h₁, h₂⟩ := Cursor.Reads.cons_iff.1 hreads
      cases hhex with
      | cons hx rest =>
        obtain ⟨room, rfl⟩ : ∃ m, room = m + 1 := ⟨room - 1, by simp at hlength; omega⟩
        have hne : x ≠ '\x7d' := by
          rintro rfl
          rw [hexDigit?_brace] at hx
          cases hx
        rw [bracedDigits?.eq_def, Cursor.next?_eq_some_iff.2 h₁]
        simp only [hne, if_false, hx]
        exact ih (by simpa using hlength) (fun _ => rfl) h₂ rest

theorem bracedCodePoint?_eq_some_iff {c c' : Cursor} {z : Char} :
    bracedCodePoint? c = some (z, c') ↔
      ∃ ds, ds ≠ [] ∧ ds.length ≤ 6 ∧ c.Reads ('\x7b' :: (ds ++ ['\x7d'])) c' ∧
        Hex 0 ds z.toNat := by
  simp only [bracedCodePoint?, Option.bind_eq_bind, Option.bind_eq_some_iff, Prod.exists,
    Cursor.next?_eq_some_iff, bracedDigits?_eq_some_iff, scalar?_eq_some_iff]
  constructor
  · rintro ⟨x, c₁, h₁, _, hguard, n, c₂, ⟨ds, hlength, hne, hreads, hhex⟩, z, rfl, heq⟩
    obtain ⟨rfl, rfl⟩ := Prod.mk.inj (Option.some.inj heq)
    have hx : x = '\x7b' := by
      by_contra hx
      simp [hx] at hguard
    subst hx
    exact ⟨ds, fun h => by simpa using hne h, hlength, h₁.trans hreads, hhex⟩
  · rintro ⟨ds, hne, hlength, hreads, hhex⟩
    obtain ⟨c₁, h₁, h₂⟩ := Cursor.Reads.cons_iff.1 hreads
    exact ⟨_, c₁, h₁, (), by simp, _, c', ⟨ds, hlength, fun h => absurd h hne, h₂, hhex⟩, z, rfl,
      rfl⟩

theorem escape?_eq_some_iff {c c' : Cursor} {s : CharSet} :
    escape? c = some (s, c') ↔ ∃ t, c.Reads t c' ∧ Escape t s := by
  simp only [escape?, Option.bind_eq_bind, Option.bind_eq_some_iff, Prod.exists,
    Cursor.next?_eq_some_iff]
  constructor
  · rintro ⟨x, c₁, h₁, h⟩
    have hnamed : ∀ {y : Char} {t : CharSet}, (y, t) ∈ named → c.Reads [y] c₁ →
        some (t, c₁) = some (s, c') → ∃ t, c.Reads t c' ∧ Escape t s := by
      intro y t hy hreads heq
      obtain ⟨rfl, rfl⟩ := Prod.mk.inj (Option.some.inj heq)
      exact ⟨[y], hreads, .named hy⟩
    split at h
    case h_7 =>
      obtain ⟨⟨z, c₂⟩, hpair, heq⟩ := Option.map_eq_some_iff.1 h
      obtain ⟨rfl, rfl⟩ := Prod.mk.inj heq
      obtain ⟨x, y, h₂, hhex⟩ := hexPair?_eq_some_iff.1 hpair
      exact ⟨['x', x, y], h₁.trans h₂, .hexPair hhex⟩
    case h_8 =>
      obtain ⟨⟨z, c₂⟩, hpoint, heq⟩ := Option.map_eq_some_iff.1 h
      obtain ⟨rfl, rfl⟩ := Prod.mk.inj heq
      obtain ⟨ds, hne, hlength, h₂, hhex⟩ := bracedCodePoint?_eq_some_iff.1 hpoint
      exact ⟨'u' :: '\x7b' :: (ds ++ ['\x7d']), h₁.trans h₂, .codePoint hne hlength hhex⟩
    case h_15 =>
      split at h
      · cases h
      · rename_i hx
        obtain ⟨rfl, rfl⟩ := Prod.mk.inj (Option.some.inj h)
        exact ⟨[x], h₁, .itself (by simpa using hx)⟩
    all_goals
      refine hnamed ?_ h₁ h
      simp [named]
  · rintro ⟨t, h, hescape⟩
    cases hescape with
    | @named x s hx =>
      refine ⟨x, c', h, ?_⟩
      simp only [named, List.mem_cons, Prod.mk.injEq, List.not_mem_nil, or_false] at hx
      rcases hx with ⟨rfl, rfl⟩ | ⟨rfl, rfl⟩ | ⟨rfl, rfl⟩ | ⟨rfl, rfl⟩ | ⟨rfl, rfl⟩ | ⟨rfl, rfl⟩ |
        ⟨rfl, rfl⟩ | ⟨rfl, rfl⟩ | ⟨rfl, rfl⟩ | ⟨rfl, rfl⟩ | ⟨rfl, rfl⟩ | ⟨rfl, rfl⟩ <;> rfl
    | @hexPair x y z hhex =>
      obtain ⟨c₁, h₁, h₂⟩ := Cursor.Reads.cons_iff.1 h
      refine ⟨'x', c₁, h₁, ?_⟩
      simp [hexPair?_eq_some_iff.2 ⟨x, y, h₂, hhex⟩]
    | @codePoint ds z hne hlength hhex =>
      obtain ⟨c₁, h₁, h₂⟩ := Cursor.Reads.cons_iff.1 h
      refine ⟨'u', c₁, h₁, ?_⟩
      simp [bracedCodePoint?_eq_some_iff.2 ⟨ds, hne, hlength, h₂, hhex⟩]
    | @itself x hx =>
      refine ⟨x, c', h, ?_⟩
      split
      case h_15 => simp [hx]
      all_goals exact absurd hx (by decide +kernel)

/-! ### Classes -/

theorem Grammar.ClassChar.ne_nil {t : List Char} {z : Char} (h : ClassChar t z) : t ≠ [] := by
  cases h <;> simp

theorem Grammar.Item.ne_nil {rest t : List Char} {s : CharSet} (h : Item rest t s) : t ≠ [] := by
  cases h with
  | char h => exact h.ne_nil
  | range => simp
  | set => simp

theorem Grammar.Items.ne_nil {t : List Char} {ss : List CharSet} (h : Items t ss) : t ≠ [] := by
  cases h with
  | close => simp
  | item hitem => simp [hitem.ne_nil]

/-- Whether a range follows can be told inside the class. -/
theorem rangeFollows_append {t tail : List Char} {ss : List CharSet} (h : Items t ss) :
    RangeFollows (t ++ tail) ↔ RangeFollows t := by
  cases h with
  | close => simp [RangeFollows]
  | @item u rest s ss hitem _ hrest =>
    obtain ⟨x, u, rfl⟩ := List.exists_cons_of_ne_nil hitem.ne_nil
    obtain ⟨y, more, hmore⟩ : ∃ y more, u ++ rest = y :: more :=
      List.exists_cons_of_ne_nil (by simp [hrest.ne_nil])
    simp [RangeFollows, hmore]

theorem item_append_iff {t u tail : List Char} {s : CharSet} {ss : List CharSet} (h : Items t ss) :
    Item (t ++ tail) u s ↔ Item t u s := by
  constructor
  · rintro (⟨hchar, hrest⟩ | ⟨hlo, hhi, hclose, hle⟩ | ⟨hs, hset⟩)
    · exact .char hchar (mt (rangeFollows_append h).2 hrest)
    · exact .range hlo hhi hclose hle
    · exact .set hs hset
  · rintro (⟨hchar, hrest⟩ | ⟨hlo, hhi, hclose, hle⟩ | ⟨hs, hset⟩)
    · exact .char hchar (mt (rangeFollows_append h).1 hrest)
    · exact .range hlo hhi hclose hle
    · exact .set hs hset

theorem classAtom_eq_char_iff {pos : Nat} {x z : Char} {c c' : Cursor} :
    classAtom pos x c = .ok (.char z, c') ↔ ∃ t, c.Reads t c' ∧ ClassChar (x :: t) z := by
  constructor
  · intro h
    unfold classAtom at h
    split at h
    · rename_i hx
      split at h
      · rename_i s c₁ hescape
        obtain ⟨hset, rfl⟩ := Prod.mk.inj (Except.ok.inj h)
        obtain ⟨t, ht, hs⟩ := escape?_eq_some_iff.1 hescape
        unfold ClassAtom.ofSet at hset
        split at hset
        · rename_i y hy
          obtain rfl := ClassAtom.char.inj hset
          rw [CharSet.single?_eq_some_iff.1 hy] at hs
          rw [hx]
          exact ⟨t, ht, .escape hs⟩
        · cases hset
      · cases h
    · rename_i hx
      obtain ⟨hchar, rfl⟩ := Prod.mk.inj (Except.ok.inj h)
      obtain rfl := ClassAtom.char.inj hchar
      exact ⟨[], .refl c, .itself hx⟩
  · rintro ⟨t, ht, h⟩
    cases h with
    | itself hx =>
      rw [classAtom, if_neg hx, Cursor.Reads.nil_iff.1 ht]
    | escape hs =>
      rw [classAtom, if_pos rfl, escape?_eq_some_iff.2 ⟨t, ht, hs⟩]
      simp [ClassAtom.ofSet, CharSet.single?_eq_some_iff.2 rfl]

theorem classAtom_eq_set_iff {pos : Nat} {x : Char} {s : CharSet} {c c' : Cursor} :
    classAtom pos x c = .ok (.set s, c') ↔
      ∃ t, c.Reads t c' ∧ x = '\\' ∧ Escape t s ∧ ∀ z, s ≠ .singleton z := by
  constructor
  · intro h
    unfold classAtom at h
    split at h
    · rename_i hx
      split at h
      · rename_i s' c₁ hescape
        obtain ⟨hset, rfl⟩ := Prod.mk.inj (Except.ok.inj h)
        obtain ⟨t, ht, hs⟩ := escape?_eq_some_iff.1 hescape
        unfold ClassAtom.ofSet at hset
        split at hset
        · cases hset
        · rename_i hnone
          obtain rfl := ClassAtom.set.inj hset
          refine ⟨t, ht, hx, hs, fun z hz => ?_⟩
          rw [CharSet.single?_eq_some_iff.2 hz] at hnone
          cases hnone
      · cases h
    · cases h
  · rintro ⟨t, ht, rfl, hs, hset⟩
    have hnone : s.single? = none :=
      Option.eq_none_iff_forall_ne_some.2 fun z hz => hset z (CharSet.single?_eq_some_iff.1 hz)
    rw [classAtom, if_pos rfl, escape?_eq_some_iff.2 ⟨t, ht, hs⟩]
    simp [ClassAtom.ofSet, hnone]

theorem exists_rangeEnd?_iff {y : Char} {c c' : Cursor} :
    (∃ pos, rangeEnd? c = some (pos, y, c')) ↔ c.Reads ['-', y] c' ∧ y ≠ ']' := by
  simp only [rangeEnd?, Option.bind_eq_bind, Option.bind_eq_some_iff, Prod.exists,
    Cursor.next?_eq_some_iff]
  constructor
  · rintro ⟨pos, x, c₁, h₁, _, hdash, y, c₂, h₂, _, hclose, heq⟩
    obtain ⟨-, heq⟩ := Prod.mk.inj (Option.some.inj heq)
    obtain ⟨rfl, rfl⟩ := Prod.mk.inj heq
    obtain rfl : x = '-' := by
      by_contra hx
      simp [hx] at hdash
    refine ⟨h₁.trans h₂, ?_⟩
    rintro rfl
    simp at hclose
  · rintro ⟨h, hy⟩
    obtain ⟨c₁, h₁, h₂⟩ := Cursor.Reads.cons_iff.1 h
    exact ⟨c₁.pos, '-', c₁, h₁, (), by simp, y, c', h₂, (), by simp [hy], rfl⟩

theorem rangeEnd?_eq_none_iff {c : Cursor} : rangeEnd? c = none ↔ ¬RangeFollows c.rest := by
  rw [Option.eq_none_iff_forall_ne_some, ← not_exists, not_iff_not]
  constructor
  · rintro ⟨⟨pos, y, c'⟩, h⟩
    obtain ⟨hreads, hy⟩ := exists_rangeEnd?_iff.1 ⟨pos, h⟩
    exact ⟨y, c'.rest, hreads.rest, hy⟩
  · rintro ⟨y, more, hrest, hy⟩
    have hreads : c.Reads ['-', y] ⟨c.pos + byteLength ['-', y], more⟩ := ⟨hrest, rfl⟩
    obtain ⟨pos, h⟩ := exists_rangeEnd?_iff.2 ⟨hreads, hy⟩
    exact ⟨_, h⟩

theorem classItem_eq_ok_iff {chars chars' : CharSet} {pos : Nat} {x : Char} {c c' : Cursor} :
    classItem chars pos x c = .ok (chars', c') ↔
      ∃ t s, c.Reads t c' ∧ Item c'.rest (x :: t) s ∧ chars' = chars.union s := by
  constructor
  · intro h
    unfold classItem at h
    split at h
    · cases h
    · rename_i s c₁ hatom
      obtain ⟨rfl, rfl⟩ := Prod.mk.inj (Except.ok.inj h)
      obtain ⟨t, ht, rfl, hs, hset⟩ := classAtom_eq_set_iff.1 hatom
      exact ⟨t, s, ht, .set hs hset, rfl⟩
    · rename_i lo c₁ hatom
      obtain ⟨t, ht, hlo⟩ := classAtom_eq_char_iff.1 hatom
      split at h
      · rename_i hnone
        obtain ⟨rfl, rfl⟩ := Prod.mk.inj (Except.ok.inj h)
        exact ⟨t, .singleton lo, ht, .char hlo (rangeEnd?_eq_none_iff.1 hnone),
          (CharSet.union_singleton chars lo).symm⟩
      · rename_i pos' y c₂ hend
        obtain ⟨hdash, hy⟩ := exists_rangeEnd?_iff.1 ⟨pos', hend⟩
        split at h
        · cases h
        · cases h
        · rename_i hi c₃ hatom'
          obtain ⟨u, hu, hhi⟩ := classAtom_eq_char_iff.1 hatom'
          split at h
          · rename_i hle
            obtain ⟨rfl, rfl⟩ := Prod.mk.inj (Except.ok.inj h)
            refine ⟨t ++ (['-', y] ++ u), .ofRange lo hi, ht.trans (hdash.trans hu), ?_,
              (CharSet.union_ofRange chars hle).symm⟩
            exact .range hlo hhi (by simpa using hy) hle
          · cases h
  · rintro ⟨t, s, ht, hitem, rfl⟩
    generalize htext : x :: t = text at hitem
    cases hitem with
    | @char _ z hchar hrest =>
      rw [← htext] at hchar
      rw [classItem, classAtom_eq_char_iff.2 ⟨t, ht, hchar⟩, CharSet.union_singleton]
      simp only [rangeEnd?_eq_none_iff.2 hrest]
    | @range t₁ t₂ lo hi hlo hhi hclose hle =>
      obtain ⟨x', t₁, rfl⟩ := List.exists_cons_of_ne_nil hlo.ne_nil
      obtain ⟨y, t₂, rfl⟩ := List.exists_cons_of_ne_nil hhi.ne_nil
      obtain ⟨rfl, rfl⟩ := List.cons.inj htext
      obtain ⟨c₁, h₁, h⟩ := Cursor.Reads.append_iff.1 ht
      obtain ⟨c₂, h₂, h₃⟩ : ∃ c₂, c₁.Reads ['-', y] c₂ ∧ c₂.Reads t₂ c' :=
        Cursor.Reads.append_iff.1 h
      obtain ⟨pos', hend⟩ := exists_rangeEnd?_iff.2 ⟨h₂, by simpa using hclose⟩
      rw [classItem, classAtom_eq_char_iff.2 ⟨t₁, h₁, hlo⟩, CharSet.union_ofRange chars hle]
      simp only [hend, classAtom_eq_char_iff.2 ⟨t₂, h₃, hhi⟩, hle, if_true]
    | @set u _ hs hset =>
      obtain ⟨rfl, rfl⟩ := List.cons.inj htext
      rw [classItem, classAtom_eq_set_iff.2 ⟨t, ht, rfl, hs, hset⟩]

theorem classItems_of_close {opened : Nat} {chars : CharSet} {c c' : Cursor}
    (h : c.Reads [']'] c') : classItems opened chars c = .ok (chars, c') := by
  rw [classItems]
  split
  · rename_i hnone
    rw [Cursor.next?_eq_some_iff.2 h] at hnone
    cases hnone
  · rename_i x c₁ hnext
    rw [Cursor.next?_eq_some_iff.2 h] at hnext
    obtain ⟨rfl, rfl⟩ := Prod.mk.inj (Option.some.inj hnext)
    simp

theorem classItems_of_item {opened : Nat} {chars chars' : CharSet} {x : Char} {c c₁ c₂ : Cursor}
    (h : c.Reads [x] c₁) (hx : x ≠ ']') (hitem : classItem chars c.pos x c₁ = .ok (chars', c₂)) :
    classItems opened chars c = classItems opened chars' c₂ := by
  conv_lhs => rw [classItems]
  split
  · rename_i hnone
    rw [Cursor.next?_eq_some_iff.2 h] at hnone
    cases hnone
  · rename_i y c₃ hnext
    rw [Cursor.next?_eq_some_iff.2 h] at hnext
    obtain ⟨rfl, rfl⟩ := Prod.mk.inj (Option.some.inj hnext)
    rw [if_neg hx]
    split
    · rename_i e herror
      rw [hitem] at herror
      cases herror
    · rename_i chars₁ c₃ hok
      rw [hitem] at hok
      obtain ⟨rfl, rfl⟩ := Prod.mk.inj (Except.ok.inj hok)
      rfl

theorem classItems_eq_ok_iff {opened : Nat} {chars chars' : CharSet} {c c' : Cursor} :
    classItems opened chars c = .ok (chars', c') ↔
      ∃ t ss, c.Reads t c' ∧ Items t ss ∧ chars' = ss.foldl .union chars := by
  constructor
  · intro h
    fun_induction classItems opened chars c with
    | case1 => cases h
    | case2 chars c c₁ hnext =>
      obtain ⟨rfl, rfl⟩ := Prod.mk.inj (Except.ok.inj h)
      exact ⟨_, [], Cursor.reads_of_next? hnext, .close, rfl⟩
    | case3 => cases h
    | case4 chars c x c₁ hnext hx chars₁ c₂ hitem _ ih =>
      obtain ⟨u, s, hu, hs, rfl⟩ := classItem_eq_ok_iff.1 hitem
      obtain ⟨t, ss, ht, hss, rfl⟩ := ih h
      rw [ht.rest, item_append_iff hss] at hs
      exact ⟨(x :: u) ++ t, s :: ss, ((Cursor.reads_of_next? hnext).trans hu).trans ht,
        .item hs (by simpa using hx) hss, rfl⟩
  · rintro ⟨t, ss, ht, hss, rfl⟩
    induction hss generalizing chars c with
    | close => exact classItems_of_close ht
    | @item u rest s ss hitem hclose hrest ih =>
      obtain ⟨x, u, rfl⟩ := List.exists_cons_of_ne_nil hitem.ne_nil
      obtain ⟨c₂, h, hrest'⟩ := Cursor.Reads.append_iff.1 ht
      obtain ⟨c₁, hx, hu⟩ := Cursor.Reads.cons_iff.1 h
      rw [← item_append_iff hrest, ← hrest'.rest] at hitem
      have hread : classItem chars c.pos x c₁ = .ok (chars.union s, c₂) :=
        classItem_eq_ok_iff.2 ⟨u, s, hu, hitem, rfl⟩
      rw [classItems_of_item hx (by simpa using hclose) hread]
      exact ih hrest'

theorem negation_eq_true_iff {c c' : Cursor} : negation c = (true, c') ↔ c.Reads ['^'] c' := by
  rw [← Cursor.next?_eq_some_iff, negation]
  split
  · rename_i c₁ hnext
    simp [hnext]
  · rename_i hne
    exact iff_of_false (by simp) (hne c')

theorem negation_eq_false_iff {c c' : Cursor} :
    negation c = (false, c') ↔ c' = c ∧ c.peek? ≠ some '^' := by
  rw [negation]
  split
  · rename_i c₁ hnext
    have hpeek : c.peek? = some '^' := by
      rw [Cursor.peek?, (Cursor.reads_of_next? hnext).rest]
      rfl
    simp [hpeek]
  · rename_i hne
    have hpeek : c.peek? ≠ some '^' := by
      intro hpeek
      obtain ⟨more, hmore⟩ := List.head?_eq_some_iff.1 hpeek
      exact hne ⟨c.pos + byteLength ['^'], more⟩ (Cursor.next?_eq_some_iff.2 ⟨hmore, rfl⟩)
    simp [hpeek, eq_comm]

theorem eq_of_nonEmpty {opened : Nat} {s s' : CharSet} {c c' : Cursor}
    (h : nonEmpty opened s c = .ok (s', c')) : s' = s := by
  unfold nonEmpty at h
  split at h
  · cases h
  · exact (Prod.mk.inj (Except.ok.inj h)).1.symm

theorem nonEmpty_of_contains {opened : Nat} {s : CharSet} {x : Char} {c : Cursor}
    (h : s.contains x = true) : nonEmpty opened s c = .ok (s, c) := by
  simp [nonEmpty, CharSet.isEmpty_of_contains h]

/-- What stands behind the opening bracket and the caret, if there is one. -/
theorem charClass_eq_ok_iff_items {opened : Nat} {chars : CharSet} {negated : Bool}
    {c c₀ c' : Cursor} (hneg : negation c = (negated, c₀)) :
    charClass opened c = .ok (chars, c') ↔
      ∃ t rest s ss, c₀.Reads (t ++ rest) c' ∧ Item rest t s ∧ Items rest ss ∧
        chars = (if negated then (CharSet.members (s :: ss)).complement
          else CharSet.members (s :: ss)) ∧
        ∃ x, chars.contains x = true := by
  constructor
  · intro h
    have hne := exists_contains_of_charClass h
    simp only [charClass, hneg] at h
    split at h
    · cases h
    · rename_i x c₁ hnext
      split at h
      · cases h
      · rename_i chars₁ c₂ hitem
        obtain ⟨u, s, hu, hs, rfl⟩ := classItem_eq_ok_iff.1 hitem
        split at h
        · cases h
        · rename_i chars₂ c₃ hitems
          obtain ⟨t, ss, ht, hss, rfl⟩ := classItems_eq_ok_iff.1 hitems
          obtain rfl := cursor_of_nonEmpty h
          rw [ht.rest, item_append_iff hss] at hs
          exact ⟨x :: u, t, s, ss, ((Cursor.reads_of_next? hnext).trans hu).trans ht, hs, hss,
            eq_of_nonEmpty h, hne⟩
  · rintro ⟨t, rest, s, ss, ht, hitem, hitems, rfl, y, hy⟩
    obtain ⟨x, u, rfl⟩ := List.exists_cons_of_ne_nil hitem.ne_nil
    obtain ⟨c₂, hxu, hrest⟩ := Cursor.Reads.append_iff.1 ht
    obtain ⟨c₁, hx, hu⟩ := Cursor.Reads.cons_iff.1 hxu
    rw [← item_append_iff hitems, ← hrest.rest] at hitem
    simp only [charClass, hneg, Cursor.next?_eq_some_iff.2 hx,
      classItem_eq_ok_iff.2 ⟨u, s, hu, hitem, rfl⟩,
      classItems_eq_ok_iff.2 ⟨rest, ss, hrest, hitems, rfl⟩]
    exact nonEmpty_of_contains hy

theorem charClass_eq_ok_iff {opened : Nat} {chars : CharSet} {c c' : Cursor} :
    charClass opened c = .ok (chars, c') ↔ ∃ t, c.Reads t c' ∧ Class ('[' :: t) chars := by
  constructor
  · intro h
    rcases hneg : negation c with ⟨negated, c₀⟩
    obtain ⟨t, rest, s, ss, ht, hitem, hitems, rfl, hne⟩ := (charClass_eq_ok_iff_items hneg).1 h
    cases negated with
    | true =>
      exact ⟨'^' :: (t ++ rest), (negation_eq_true_iff.1 hneg).trans ht,
        .negated hitem hitems (CharSet.denotes_members _).complement hne⟩
    | false =>
      obtain ⟨rfl, hpeek⟩ := negation_eq_false_iff.1 hneg
      refine ⟨t ++ rest, ht, .plain hitem ?_ hitems (CharSet.denotes_members _) hne⟩
      obtain ⟨x, u, rfl⟩ := List.exists_cons_of_ne_nil hitem.ne_nil
      rw [Cursor.peek?, ht.rest] at hpeek
      simpa using hpeek
  · rintro ⟨t, ht, hclass⟩
    cases hclass with
    | @plain t rest s chars ss hitem hcaret hitems hchars hne =>
      have hneg : negation c = (false, c) := by
        refine negation_eq_false_iff.2 ⟨rfl, ?_⟩
        obtain ⟨x, u, rfl⟩ := List.exists_cons_of_ne_nil hitem.ne_nil
        rw [Cursor.peek?, ht.rest]
        simpa using hcaret
      exact (charClass_eq_ok_iff_items hneg).2 ⟨t, rest, s, ss, ht, hitem, hitems,
        hchars.unique (CharSet.denotes_members _), hne⟩
    | @negated t rest s chars ss hitem hitems hchars hne =>
      obtain ⟨c₀, hcaret, h⟩ := Cursor.Reads.cons_iff.1 ht
      exact (charClass_eq_ok_iff_items (negation_eq_true_iff.2 hcaret)).2 ⟨t, rest, s, ss, h, hitem,
        hitems, hchars.unique (CharSet.denotes_members _).complement, hne⟩

/-! ### Quantifiers -/

theorem count_eq_none_iff {opened : Nat} {c c' : Cursor} :
    count opened c = .ok (none, c') ↔ c' = c ∧ c.StopsAt isDecimalDigit := by
  constructor
  · intro h
    rcases htake : c.takeWhile isDecimalDigit with ⟨ds, c₁⟩
    obtain ⟨hreads, -, hstop⟩ := Cursor.takeWhile_eq_iff.1 htake
    simp only [count, htake] at h
    split at h
    · rename_i hnil
      obtain rfl := List.isEmpty_iff.1 hnil
      obtain ⟨-, rfl⟩ := Prod.mk.inj (Except.ok.inj h)
      obtain rfl := Cursor.Reads.nil_iff.1 hreads
      exact ⟨rfl, hstop⟩
    · split at h <;> cases h
  · rintro ⟨rfl, hstop⟩
    have htake : c'.takeWhile isDecimalDigit = ([], c') :=
      Cursor.takeWhile_eq_iff.2 ⟨.refl c', by simp, hstop⟩
    simp [count, htake]

theorem count_eq_some_iff {opened n : Nat} {c c' : Cursor} :
    count opened c = .ok (some n, c') ↔
      ∃ ds, Count ds n ∧ c.Reads ds c' ∧ c'.StopsAt isDecimalDigit := by
  constructor
  · intro h
    rcases htake : c.takeWhile isDecimalDigit with ⟨ds, c₁⟩
    obtain ⟨hreads, hdigits, hstop⟩ := Cursor.takeWhile_eq_iff.1 htake
    simp only [count, htake] at h
    split at h
    · cases h
    · rename_i hne
      split at h
      · cases h
      · rename_i hle
        obtain ⟨hn, rfl⟩ := Prod.mk.inj (Except.ok.inj h)
        obtain rfl := Option.some.inj hn
        exact ⟨ds, ⟨by simpa using hne, hdigits, rfl, Nat.not_lt.1 hle⟩, hreads, hstop⟩
  · rintro ⟨ds, ⟨hne, hdigits, rfl, hle⟩, hreads, hstop⟩
    have htake : c.takeWhile isDecimalDigit = (ds, c') :=
      Cursor.takeWhile_eq_iff.2 ⟨hreads, hdigits, hstop⟩
    simp [count, htake, hne, hle]

theorem closeBounds_eq_ok_iff {opened : Nat} {b b' : Bounds} {c c' : Cursor} :
    closeBounds opened b c = .ok (b', c') ↔
      b' = b ∧ c.Reads ['\x7d'] c' ∧ ∀ m, b.max = some m → b.min ≤ m := by
  constructor
  · intro h
    have hle := min_le_of_closeBounds h
    unfold closeBounds at h
    split at h
    · cases h
    · rename_i c₁ hnext
      split at h
      · cases h
      · obtain ⟨rfl, rfl⟩ := Prod.mk.inj (Except.ok.inj h)
        exact ⟨rfl, Cursor.reads_of_next? hnext, hle⟩
    · cases h
  · rintro ⟨rfl, hreads, hle⟩
    have hmax : b'.max.any (· < b'.min) = false := by
      cases hmax : b'.max with
      | none => rfl
      | some m => simpa using hle m hmax
    rw [closeBounds, Cursor.next?_eq_some_iff.2 hreads]
    simp [hmax]

theorem isDecimalDigit_brace : isDecimalDigit '\x7d' = false := by decide

theorem isDecimalDigit_comma : isDecimalDigit ',' = false := by decide

theorem bracedBounds_eq_ok_iff {opened : Nat} {b : Bounds} {c c' : Cursor} :
    bracedBounds opened c = .ok (b, c') ↔ ∃ t, c.Reads t c' ∧ Quantifier ('\x7b' :: t) b := by
  constructor
  · intro h
    unfold bracedBounds at h
    split at h
    · cases h
    · cases h
    · rename_i min c₁ hmin
      obtain ⟨ds, hds, h₁, -⟩ := count_eq_some_iff.1 hmin
      split at h
      · rename_i c₂ hcomma
        have h₂ := h₁.trans (Cursor.reads_of_next? hcomma)
        split at h
        · cases h
        · rename_i max c₃ hmax
          obtain ⟨rfl, hclose, hle⟩ := closeBounds_eq_ok_iff.1 h
          cases max with
          | none =>
            obtain ⟨rfl, -⟩ := count_eq_none_iff.1 hmax
            refine ⟨ds ++ [',', '\x7d'], ?_, .atLeast hds⟩
            simpa using h₂.trans hclose
          | some n =>
            obtain ⟨es, hes, h₃, -⟩ := count_eq_some_iff.1 hmax
            refine ⟨ds ++ ',' :: (es ++ ['\x7d']), ?_, .between hds hes (hle n rfl)⟩
            simpa using h₂.trans (h₃.trans hclose)
      · obtain ⟨rfl, hclose, -⟩ := closeBounds_eq_ok_iff.1 h
        exact ⟨ds ++ ['\x7d'], h₁.trans hclose, .exactly hds⟩
  · rintro ⟨t, ht, hquantifier⟩
    unfold bracedBounds
    cases hquantifier with
    | @exactly ds m hm =>
      obtain ⟨c₁, h₁, hclose⟩ := Cursor.Reads.append_iff.1 ht
      rw [count_eq_some_iff.2 ⟨ds, hm, h₁, hclose.stopsAt isDecimalDigit_brace⟩]
      simp only [Cursor.next?_eq_some_iff.2 hclose]
      simpa using closeBounds_eq_ok_iff.2 ⟨rfl, hclose, by simp⟩
    | @atLeast ds m hm =>
      obtain ⟨c₁, h₁, h⟩ := Cursor.Reads.append_iff.1 ht
      obtain ⟨c₂, hcomma, hclose⟩ := Cursor.Reads.cons_iff.1 h
      rw [count_eq_some_iff.2 ⟨ds, hm, h₁, hcomma.stopsAt isDecimalDigit_comma⟩]
      simp only [Cursor.next?_eq_some_iff.2 hcomma,
        count_eq_none_iff.2 ⟨rfl, hclose.stopsAt isDecimalDigit_brace⟩]
      exact closeBounds_eq_ok_iff.2 ⟨rfl, hclose, by simp⟩
    | @between ds es m n hm hn hle =>
      obtain ⟨c₁, h₁, h⟩ := Cursor.Reads.append_iff.1 ht
      obtain ⟨c₂, hcomma, h⟩ := Cursor.Reads.cons_iff.1 h
      obtain ⟨c₃, h₂, hclose⟩ := Cursor.Reads.append_iff.1 h
      rw [count_eq_some_iff.2 ⟨ds, hm, h₁, hcomma.stopsAt isDecimalDigit_comma⟩]
      simp only [Cursor.next?_eq_some_iff.2 hcomma,
        count_eq_some_iff.2 ⟨es, hn, h₂, hclose.stopsAt isDecimalDigit_brace⟩]
      exact closeBounds_eq_ok_iff.2 ⟨rfl, hclose, by simpa using hle⟩

/-- Only a brace can go on behind its first character. -/
theorem Grammar.Quantifier.eq_of_sign {y : Char} {t : List Char} {b b' : Bounds}
    (hy : Quantifier [y] b') (hne : y ≠ '\x7b') (h : Quantifier (y :: t) b) : t = [] ∧ b = b' := by
  generalize htext : [y] = text at hy
  generalize htext' : y :: t = text' at h
  cases hy <;> cases h <;> simp_all

theorem bounds_eq_ok_iff {pos : Nat} {x : Char} {b : Bounds} {c c' : Cursor}
    (hx : isQuantifierStart x = true) :
    bounds pos x c = .ok (b, c') ↔ ∃ t, c.Reads t c' ∧ Quantifier (x :: t) b := by
  have hsign : ∀ {y : Char} {b' : Bounds}, Quantifier [y] b' → y ≠ '\x7b' →
      (Except.ok (b', c) = (.ok (b, c') : Except Error (Bounds × Cursor)) ↔
        ∃ t, c.Reads t c' ∧ Quantifier (y :: t) b) := by
    intro y b' hy hne
    constructor
    · intro h
      obtain ⟨rfl, rfl⟩ := Prod.mk.inj (Except.ok.inj h)
      exact ⟨[], .refl c, hy⟩
    · rintro ⟨t, ht, h⟩
      obtain ⟨rfl, rfl⟩ := hy.eq_of_sign hne h
      rw [Cursor.Reads.nil_iff.1 ht]
  simp only [isQuantifierStart, Bool.or_eq_true, decide_eq_true_eq] at hx
  rcases hx with ((rfl | rfl) | rfl) | rfl
  · exact hsign .star (by decide)
  · exact hsign .plus (by decide)
  · exact hsign .mark (by decide)
  · exact bracedBounds_eq_ok_iff

/-! ### Sets -/

theorem atom_eq_ok_iff {pos : Nat} {x : Char} {s : CharSet} {c c' : Cursor}
    (hx : x ∉ ['(', ')', '|']) (hq : isQuantifierStart x = false) :
    State.atom pos x c = .ok (s, c') ↔ ∃ t, c.Reads t c' ∧ SetText (x :: t) s := by
  constructor
  · intro h
    unfold State.atom at h
    split at h
    · obtain ⟨t, ht, hclass⟩ := charClass_eq_ok_iff.1 h
      exact ⟨t, ht, .bracket hclass⟩
    · cases h
    · cases h
    · obtain ⟨rfl, rfl⟩ := Prod.mk.inj (Except.ok.inj h)
      exact ⟨[], .refl c, .dot⟩
    · split at h
      · rename_i r hescape
        obtain rfl := Except.ok.inj h
        obtain ⟨t, ht, hs⟩ := escape?_eq_some_iff.1 hescape
        exact ⟨t, ht, .escape hs⟩
      · cases h
    · obtain ⟨rfl, rfl⟩ := Prod.mk.inj (Except.ok.inj h)
      refine ⟨[], .refl c, .itself ?_⟩
      simp_all [special, isQuantifierStart]
  · rintro ⟨t, ht, htext⟩
    generalize hcons : x :: t = text at htext
    cases htext with
    | @itself y hy =>
      obtain ⟨rfl, rfl⟩ := List.cons.inj hcons
      rw [Cursor.Reads.nil_iff.1 ht]
      unfold State.atom
      split <;> simp_all [special]
    | dot =>
      obtain ⟨rfl, rfl⟩ := List.cons.inj hcons
      rw [Cursor.Reads.nil_iff.1 ht]
      rfl
    | @escape u _ hs =>
      obtain ⟨rfl, rfl⟩ := List.cons.inj hcons
      simp [State.atom, escape?_eq_some_iff.2 ⟨t, ht, hs⟩]
    | bracket hclass =>
      obtain rfl : x = '[' := by
        cases hclass <;> exact (List.cons.inj hcons).1
      rw [← hcons] at hclass
      exact charClass_eq_ok_iff.2 ⟨t, ht, hclass⟩

end LexerGen.Regex
