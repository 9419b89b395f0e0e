import LexerGen.Proofs.Regex.Sets

/-! The reader of patterns accepts just the texts of the grammar, and gives back what they stand
for. `State.Step` says what one step can do; both halves rest on it. A derivation is followed by the
steps that read its text, and the state after any number of steps describes the text read so far. -/

namespace LexerGen.Regex

open Text Grammar

/-! ### Levels -/

namespace Level

theorem branch?_eq_some_iff {l : Level} {r : Regex} :
    l.branch? = some r ↔ l.items ≠ [] ∧ r = concatOf l.items.reverse := by
  unfold branch?
  split
  · rename_i hitems
    simp [hitems]
  · rename_i hitems
    simp [hitems, concatOf, eq_comm]
  · rename_i hnil hsingle
    have hconcat : concatOf l.items.reverse = .concat l.items.reverse := by
      unfold concatOf
      split
      · rename_i r hr
        exact absurd (List.reverse_eq_iff.1 hr) (hsingle r)
      · rfl
    have hne : l.items ≠ [] := hnil
    simp [hconcat, hne, eq_comm]

/-- The branches of the level, together with the one being read. -/
def alternatives (l : Level) : List Regex := l.branches.reverse ++ [concatOf l.items.reverse]

theorem bar?_eq_some_iff {l l' : Level} :
    l.bar? = some l' ↔ l.items ≠ [] ∧ l' = ⟨l.alternatives.reverse, []⟩ := by
  simp only [bar?, Option.map_eq_some_iff, branch?_eq_some_iff, alternatives,
    List.reverse_append, List.reverse_reverse]
  constructor
  · rintro ⟨r, ⟨hitems, rfl⟩, rfl⟩
    exact ⟨hitems, rfl⟩
  · rintro ⟨hitems, rfl⟩
    exact ⟨_, ⟨hitems, rfl⟩, rfl⟩

theorem close?_eq_some_iff {l : Level} {r : Regex} :
    l.close? = some r ↔ l.items ≠ [] ∧ r = alternateOf l.alternatives := by
  have hclose : l.close? = l.branch?.map fun q => alternateOf (l.branches.reverse ++ [q]) := by
    refine congrArg (Option.map · l.branch?) (funext fun q => ?_)
    cases l.branches with
    | nil => rfl
    | cons b bs =>
      symm
      unfold alternateOf
      split
      · rename_i heq
        simpa using congrArg List.length heq
      · simp
  simp only [hclose, Option.map_eq_some_iff, branch?_eq_some_iff]
  constructor
  · rintro ⟨q, ⟨hitems, rfl⟩, rfl⟩
    exact ⟨hitems, rfl⟩
  · rintro ⟨hitems, rfl⟩
    exact ⟨_, ⟨hitems, rfl⟩, rfl⟩

end Level

/-! ### Steps -/

/-- The first character tells the text of a set from everything else. -/
theorem Grammar.SetText.start {x : Char} {t : List Char} {s : CharSet} (h : SetText (x :: t) s) :
    x ∉ ['(', ')', '|'] ∧ isQuantifierStart x = false := by
  generalize htext : x :: t = text at h
  cases h with
  | itself hx =>
    obtain ⟨rfl, rfl⟩ := List.cons.inj htext
    simp_all [special, isQuantifierStart]
  | dot =>
    obtain ⟨rfl, rfl⟩ := List.cons.inj htext
    decide
  | escape =>
    obtain ⟨rfl, rfl⟩ := List.cons.inj htext
    decide
  | bracket hclass =>
    cases hclass <;> obtain ⟨rfl, rfl⟩ := List.cons.inj htext <;> decide

theorem Grammar.Quantifier.start {x : Char} {t : List Char} {b : Bounds}
    (h : Quantifier (x :: t) b) : x ∉ ['(', ')', '|'] ∧ isQuantifierStart x = true := by
  generalize htext : x :: t = text at h
  cases h <;> obtain ⟨rfl, rfl⟩ := List.cons.inj htext <;> decide

theorem Grammar.SetText.ne_nil {t : List Char} {s : CharSet} (h : SetText t s) : t ≠ [] := by
  cases h with
  | bracket hclass => cases hclass <;> simp
  | _ => simp

theorem Grammar.Quantifier.ne_nil {t : List Char} {b : Bounds} (h : Quantifier t b) : t ≠ [] := by
  cases h <;> simp

theorem map_eq_ok_iff {α β : Type} {r : Except Error α} {f : α → β} {b : β} :
    r.map f = .ok b ↔ ∃ a, r = .ok a ∧ f a = b := by
  cases r <;> simp [Except.map]

namespace State

/-- What one step makes of the text at `pos`, with `next` for the character behind that text. -/
inductive Step (s : State) (pos : Nat) (next : Option Char) : List Char → State → Prop
  | set {t : List Char} {chars : CharSet} (h : SetText t chars) :
      Step s pos next t (s.push (.set chars))
  | quantifier {t : List Char} {b : Bounds} {r : Regex} {items : List Regex} (h : Quantifier t b)
      (hitems : s.level.items = r :: items)
      (hstacked : s.stacked + s.quantified.toNat ≤ Limits.maxDepth) :
      Step s pos next t ⟨⟨s.level.branches, .repeated r b.min b.max pos :: items⟩, s.outer,
        s.stacked + s.quantified.toNat, true⟩
  | bar (hitems : s.level.items ≠ []) :
      Step s pos next ['|'] ⟨⟨s.level.alternatives.reverse, []⟩, s.outer, s.stacked, false⟩
  | openGroup (hnext : next ≠ some ')') (hdepth : s.outer.length < Limits.maxDepth) :
      Step s pos next ['('] ⟨.empty, (pos, s.level) :: s.outer, s.stacked, false⟩
  | closeGroup {opened : Nat} {level : Level} {outer : List (Nat × Level)}
      (hitems : s.level.items ≠ []) (houter : s.outer = (opened, level) :: outer) :
      Step s pos next [')']
        ⟨level.push (alternateOf s.level.alternatives), outer, s.stacked, false⟩

theorem openGroup_eq_ok_iff {s s' : State} {pos : Nat} {c : Cursor} :
    s.openGroup pos c = .ok s' ↔ c.peek? ≠ some ')' ∧ s.outer.length < Limits.maxDepth ∧
      s' = ⟨.empty, (pos, s.level) :: s.outer, s.stacked, false⟩ := by
  unfold openGroup
  split
  · simp_all
  · split
    · rename_i hdepth
      simp [Nat.not_lt.2 hdepth]
    · simp_all [eq_comm]

theorem closeGroup_eq_ok_iff {s s' : State} {pos : Nat} :
    s.closeGroup pos = .ok s' ↔ ∃ opened level outer, s.level.items ≠ [] ∧
      s.outer = (opened, level) :: outer ∧
      s' = ⟨level.push (alternateOf s.level.alternatives), outer, s.stacked, false⟩ := by
  constructor
  · intro h
    unfold closeGroup at h
    split at h
    · cases h
    · cases h
    · rename_i r opened level outer hclose houter
      obtain ⟨hitems, rfl⟩ := Level.close?_eq_some_iff.1 hclose
      obtain rfl := Except.ok.inj h
      exact ⟨opened, level, outer, hitems, houter, rfl⟩
  · rintro ⟨opened, level, outer, hitems, houter, rfl⟩
    rw [closeGroup, Level.close?_eq_some_iff.2 ⟨hitems, rfl⟩, houter]
    rfl

theorem bar_eq_ok_iff {s s' : State} {pos : Nat} :
    s.bar pos = .ok s' ↔ s.level.items ≠ [] ∧
      s' = ⟨⟨s.level.alternatives.reverse, []⟩, s.outer, s.stacked, false⟩ := by
  constructor
  · intro h
    unfold bar at h
    split at h
    · cases h
    · rename_i level hbar
      obtain ⟨hitems, rfl⟩ := Level.bar?_eq_some_iff.1 hbar
      exact ⟨hitems, (Except.ok.inj h).symm⟩
  · rintro ⟨hitems, rfl⟩
    rw [bar, Level.bar?_eq_some_iff.2 ⟨hitems, rfl⟩]

theorem repeatItem_eq_ok_iff {s s' : State} {r : Regex} {items : List Regex} {pos : Nat}
    {b : Bounds} :
    s.repeatItem r items pos b = .ok s' ↔ s.stacked + s.quantified.toNat ≤ Limits.maxDepth ∧
      s' = ⟨⟨s.level.branches, .repeated r b.min b.max pos :: items⟩, s.outer,
        s.stacked + s.quantified.toNat, true⟩ := by
  have hstacked : (if s.quantified then s.stacked + 1 else s.stacked) =
      s.stacked + s.quantified.toNat := by
    cases s.quantified <;> rfl
  simp only [repeatItem, hstacked]
  split
  · rename_i hlt
    simp [Nat.not_le.2 hlt]
  · rename_i hle
    simp [Nat.not_lt.1 hle, eq_comm]

theorem quantify_eq_ok_iff {s s' : State} {pos : Nat} {x : Char} {c c' : Cursor}
    (hx : isQuantifierStart x = true) :
    s.quantify pos x c = .ok (s', c') ↔ ∃ t b r items, c.Reads t c' ∧ Quantifier (x :: t) b ∧
      s.level.items = r :: items ∧ s.repeatItem r items pos b = .ok s' := by
  constructor
  · intro h
    unfold quantify at h
    split at h
    · cases h
    · rename_i r items hitems
      split at h
      · cases h
      · rename_i b c₁ hbounds
        obtain ⟨s₁, hs₁, heq⟩ := map_eq_ok_iff.1 h
        obtain ⟨rfl, rfl⟩ := Prod.mk.inj heq
        obtain ⟨t, ht, hb⟩ := (bounds_eq_ok_iff hx).1 hbounds
        exact ⟨t, b, r, items, ht, hb, hitems, hs₁⟩
  · rintro ⟨t, b, r, items, ht, hb, hitems, hs'⟩
    rw [quantify, hitems]
    simp only [(bounds_eq_ok_iff hx).2 ⟨t, ht, hb⟩]
    exact map_eq_ok_iff.2 ⟨s', hs', rfl⟩

theorem step_eq_ok_iff {s s' : State} {x : Char} {pos : Nat} {c c' : Cursor} :
    s.step pos x c = .ok (s', c') ↔ ∃ t, c.Reads t c' ∧ Step s pos c'.peek? (x :: t) s' := by
  constructor
  · intro h
    unfold step at h
    split at h
    · obtain ⟨s₁, hs₁, heq⟩ := map_eq_ok_iff.1 h
      obtain ⟨rfl, rfl⟩ := Prod.mk.inj heq
      obtain ⟨hnext, hdepth, rfl⟩ := openGroup_eq_ok_iff.1 hs₁
      exact ⟨[], .refl c, .openGroup hnext hdepth⟩
    · obtain ⟨s₁, hs₁, heq⟩ := map_eq_ok_iff.1 h
      obtain ⟨rfl, rfl⟩ := Prod.mk.inj heq
      obtain ⟨opened, level, outer, hitems, houter, rfl⟩ := closeGroup_eq_ok_iff.1 hs₁
      exact ⟨[], .refl c, .closeGroup hitems houter⟩
    · obtain ⟨s₁, hs₁, heq⟩ := map_eq_ok_iff.1 h
      obtain ⟨rfl, rfl⟩ := Prod.mk.inj heq
      obtain ⟨hitems, rfl⟩ := bar_eq_ok_iff.1 hs₁
      exact ⟨[], .refl c, .bar hitems⟩
    · rename_i hopen hclose hbar
      split at h
      · rename_i hx
        obtain ⟨t, b, r, items, ht, hb, hitems, hs'⟩ := (quantify_eq_ok_iff hx).1 h
        obtain ⟨hstacked, rfl⟩ := repeatItem_eq_ok_iff.1 hs'
        exact ⟨t, ht, .quantifier hb hitems hstacked⟩
      · rename_i hx
        obtain ⟨⟨chars, c₁⟩, hatom, heq⟩ := map_eq_ok_iff.1 h
        obtain ⟨rfl, rfl⟩ := Prod.mk.inj heq
        have hsign : x ∉ ['(', ')', '|'] := by
          simpa using ⟨hopen, hclose, hbar⟩
        obtain ⟨t, ht, htext⟩ := (atom_eq_ok_iff hsign (by simpa using hx)).1 hatom
        exact ⟨t, ht, .set htext⟩
  · rintro ⟨t, ht, hstep⟩
    have hother : x ∉ ['(', ')', '|'] → s.step pos x c = if isQuantifierStart x then
        s.quantify pos x c else (atom pos x c).map fun r => (s.push (.set r.1), r.2) := by
      intro hx
      unfold step
      split <;> simp_all
    generalize htext : x :: t = text at hstep
    cases hstep with
    | set h =>
      rw [← htext] at h
      obtain ⟨hx, hq⟩ := h.start
      rw [hother hx, hq]
      exact map_eq_ok_iff.2 ⟨_, (atom_eq_ok_iff hx hq).2 ⟨t, ht, h⟩, rfl⟩
    | quantifier h hitems hstacked =>
      rw [← htext] at h
      obtain ⟨hx, hq⟩ := h.start
      rw [hother hx, hq]
      exact (quantify_eq_ok_iff hq).2
        ⟨t, _, _, _, ht, h, hitems, repeatItem_eq_ok_iff.2 ⟨hstacked, rfl⟩⟩
    | bar hitems =>
      obtain ⟨rfl, rfl⟩ := List.cons.inj htext
      obtain rfl := Cursor.Reads.nil_iff.1 ht
      exact map_eq_ok_iff.2 ⟨_, bar_eq_ok_iff.2 ⟨hitems, rfl⟩, rfl⟩
    | openGroup hnext hdepth =>
      obtain ⟨rfl, rfl⟩ := List.cons.inj htext
      obtain rfl := Cursor.Reads.nil_iff.1 ht
      exact map_eq_ok_iff.2 ⟨_, openGroup_eq_ok_iff.2 ⟨hnext, hdepth, rfl⟩, rfl⟩
    | closeGroup hitems houter =>
      obtain ⟨rfl, rfl⟩ := List.cons.inj htext
      obtain rfl := Cursor.Reads.nil_iff.1 ht
      exact map_eq_ok_iff.2 ⟨_, closeGroup_eq_ok_iff.2 ⟨_, _, _, hitems, houter, rfl⟩, rfl⟩

theorem finish_eq_ok_iff {s : State} {pos : Nat} {r : Regex} :
    s.finish pos = .ok r ↔ s.outer = [] ∧ s.level.close? = some r := by
  unfold finish
  split <;> simp_all

theorem run_of_end {s : State} {c : Cursor} (h : c.rest = []) : s.run c = s.finish c.pos := by
  rw [run]
  split
  · rfl
  · rename_i hnext
    rw [Cursor.next?_eq_none.2 h] at hnext
    cases hnext

theorem Step.ne_nil {s s' : State} {pos : Nat} {next : Option Char} {t : List Char}
    (h : Step s pos next t s') : t ≠ [] := by
  cases h with
  | set h => exact h.ne_nil
  | quantifier h => exact h.ne_nil
  | _ => simp

theorem run_of_step {s s' : State} {pos : Nat} {t rest : List Char}
    (h : Step s pos rest.head? t s') :
    s.run ⟨pos, t ++ rest⟩ = s'.run ⟨pos + byteLength t, rest⟩ := by
  obtain ⟨x, t, rfl⟩ := List.exists_cons_of_ne_nil h.ne_nil
  have hreads : Cursor.Reads ⟨pos, x :: t ++ rest⟩ (x :: t) ⟨pos + byteLength (x :: t), rest⟩ :=
    ⟨rfl, rfl⟩
  obtain ⟨c₁, hx, ht⟩ := Cursor.Reads.cons_iff.1 hreads
  have hstep := step_eq_ok_iff.2 ⟨t, ht, h⟩
  conv_lhs => rw [run]
  split
  · rename_i hnone
    rw [Cursor.next?_eq_some_iff.2 hx] at hnone
    cases hnone
  · rename_i y c₂ hnext
    rw [Cursor.next?_eq_some_iff.2 hx] at hnext
    obtain ⟨rfl, rfl⟩ := Prod.mk.inj (Option.some.inj hnext)
    split
    · rename_i e herror
      rw [hstep] at herror
      cases herror
    · rename_i s₁ c₂ hok
      rw [hstep] at hok
      obtain ⟨rfl, rfl⟩ := Prod.mk.inj (Except.ok.inj hok)
      rfl

/-- The text `t` at `pos` leads from `s` to `s'`, whatever stands behind it. -/
def Leads (s : State) (pos : Nat) (t : List Char) (s' : State) : Prop :=
  ∀ rest, s.run ⟨pos, t ++ rest⟩ = s'.run ⟨pos + byteLength t, rest⟩

theorem Leads.trans {s s₁ s' : State} {pos : Nat} {t u : List Char} (h : s.Leads pos t s₁)
    (h' : s₁.Leads (pos + byteLength t) u s') : s.Leads pos (t ++ u) s' := by
  intro rest
  rw [List.append_assoc, h, h', byteLength_append, Nat.add_assoc]

theorem leads_of_step {s s' : State} {pos : Nat} {t : List Char}
    (h : ∀ next, Step s pos next t s') : s.Leads pos t s' :=
  fun rest => run_of_step (h rest.head?)

end State

/-! ### The steps that read the text of a derivation -/

/-- The text starts with a character other than a closing parenthesis. -/
def StaysOpen (t : List Char) : Prop := ∃ x, t.head? = some x ∧ x ≠ ')'

theorem StaysOpen.append {t : List Char} (h : StaysOpen t) (u : List Char) : StaysOpen (t ++ u) := by
  obtain ⟨x, hx, hne⟩ := h
  exact ⟨x, by simp [hx], hne⟩

theorem Grammar.Atom.staysOpen {room pos k : Nat} {t : List Char} {r : Regex}
    (h : Atom room pos t k r) : StaysOpen t := by
  cases h with
  | set h =>
    obtain ⟨x, u, rfl⟩ := List.exists_cons_of_ne_nil h.ne_nil
    refine ⟨x, rfl, ?_⟩
    rintro rfl
    simpa using h.start.1
  | group => exact ⟨'(', rfl, by decide⟩

theorem Grammar.Repeat.staysOpen {room pos k : Nat} {q : Bool} {t : List Char} {r : Regex} :
    Repeat room pos t k q r → StaysOpen t
  | .atom h => h.staysOpen
  | .quantifier h _ => h.staysOpen.append _

theorem Grammar.Concat.staysOpen {room pos k : Nat} {t : List Char} {rs : List Regex} :
    Concat room pos t k rs → StaysOpen t
  | .one h => h.staysOpen
  | .more h _ => h.staysOpen.append _

theorem Grammar.Alternation.staysOpen {room pos k : Nat} {t : List Char} {bs : List Regex} :
    Alternation room pos t k bs → StaysOpen t
  | .one h => h.staysOpen
  | .more h _ => h.staysOpen.append _

theorem Grammar.Concat.ne_nil {room pos k : Nat} {t : List Char} {rs : List Regex}
    (h : Concat room pos t k rs) : rs ≠ [] := by
  cases h <;> simp

mutual

theorem Grammar.Atom.leads {room pos k : Nat} {t : List Char} {r : Regex} :
    Atom room pos t k r → ∀ s : State, s.outer.length + room = Limits.maxDepth →
      s.stacked + k ≤ Limits.maxDepth →
      s.Leads pos t ⟨s.level.push r, s.outer, s.stacked + k, false⟩
  | .set h => by
    intro s _ _
    exact State.leads_of_step fun _ => .set h
  | @Atom.group room pos k u bs h => by
    intro s hroom hstacked rest
    let inner : State := ⟨.empty, (pos, s.level) :: s.outer, s.stacked, false⟩
    obtain ⟨x, hx, hne⟩ := h.staysOpen
    obtain ⟨level, q, hitems, rfl, hleads⟩ := h.leads inner rfl
      (by simp only [inner, List.length_cons]; omega) hstacked
    have hclose : State.Leads ⟨level, inner.outer, s.stacked + k, q⟩ (pos + 1 + byteLength u) [')']
        ⟨s.level.push (alternateOf level.alternatives), s.outer, s.stacked + k, false⟩ :=
      State.leads_of_step fun _ => .closeGroup hitems rfl
    calc s.run ⟨pos, '(' :: (u ++ [')']) ++ rest⟩
        = inner.run ⟨pos + 1, u ++ [')'] ++ rest⟩ := by
          refine State.run_of_step (.openGroup ?_ (by omega))
          simpa [hx] using hne
      _ = _ := by
          rw [hleads.trans hclose rest, byteLength_cons, ← Nat.add_assoc]
          rfl

theorem Grammar.Repeat.leads {room pos k : Nat} {q : Bool} {t : List Char} {r : Regex} :
    Repeat room pos t k q r → ∀ s : State, s.outer.length + room = Limits.maxDepth →
      s.stacked + k ≤ Limits.maxDepth →
      s.Leads pos t ⟨s.level.push r, s.outer, s.stacked + k, q⟩
  | .atom h => h.leads
  | .quantifier h hu => by
    intro s hroom hstacked
    refine (h.leads s hroom (by omega)).trans (State.leads_of_step fun _ => ?_)
    rw [← Nat.add_assoc] at hstacked ⊢
    exact .quantifier hu rfl hstacked

theorem Grammar.Concat.leads {room pos k : Nat} {t : List Char} {rs : List Regex} :
    Concat room pos t k rs → ∀ s : State, s.outer.length + room = Limits.maxDepth →
      s.stacked + k ≤ Limits.maxDepth →
      ∃ q, s.Leads pos t
        ⟨⟨s.level.branches, rs.reverse ++ s.level.items⟩, s.outer, s.stacked + k, q⟩
  | .one h => by
    intro s hroom hstacked
    exact ⟨_, h.leads s hroom hstacked⟩
  | @Concat.more room pos k l t u q rs r h hr => by
    intro s hroom hstacked
    obtain ⟨p, hleads⟩ := h.leads s hroom (by omega)
    let before : State :=
      ⟨⟨s.level.branches, rs.reverse ++ s.level.items⟩, s.outer, s.stacked + k, p⟩
    have hlast := hr.leads before hroom (by simp only [before]; omega)
    exact ⟨q, by simpa [before, Level.push, Nat.add_assoc] using hleads.trans hlast⟩

theorem Grammar.Alternation.leads {room pos k : Nat} {t : List Char} {bs : List Regex} :
    Alternation room pos t k bs → ∀ s : State, s.level = .empty →
      s.outer.length + room = Limits.maxDepth → s.stacked + k ≤ Limits.maxDepth →
      ∃ level q, level.items ≠ [] ∧ level.alternatives = bs ∧
        s.Leads pos t ⟨level, s.outer, s.stacked + k, q⟩
  | @Alternation.one room pos k t rs h => by
    intro s hempty hroom hstacked
    obtain ⟨q, hleads⟩ := h.leads s hroom hstacked
    refine ⟨⟨[], rs.reverse⟩, q, by simpa using h.ne_nil, by simp [Level.alternatives], ?_⟩
    simpa [hempty, Level.empty] using hleads
  | @Alternation.more room pos k l t u bs rs h hu => by
    intro s hempty hroom hstacked
    obtain ⟨level, q, hitems, rfl, hleads⟩ := h.leads s hempty hroom (by omega)
    let barred : State := ⟨⟨level.alternatives.reverse, []⟩, s.outer, s.stacked + k, false⟩
    have hbar : State.Leads ⟨level, s.outer, s.stacked + k, q⟩ (pos + byteLength t) ['|'] barred :=
      State.leads_of_step fun _ => .bar hitems
    obtain ⟨q', hconcat⟩ := hu.leads barred hroom (by simp only [barred]; omega)
    refine ⟨⟨level.alternatives.reverse, rs.reverse⟩, q', by simpa using hu.ne_nil, ?_, ?_⟩
    · rw [Level.alternatives, List.reverse_reverse, List.reverse_reverse]
    · simpa [barred, Nat.add_assoc] using hleads.trans (hbar.trans hconcat)

end

/-! ### The text that a state describes -/

/-- The branches before the one being read, with the bar behind each. -/
inductive BranchesBefore (room pos : Nat) : List Char → Nat → List Regex → Prop
  | none : BranchesBefore room pos [] 0 []
  | some {t : List Char} {k : Nat} {bs : List Regex} (h : Alternation room pos t k bs) :
      BranchesBefore room pos (t ++ ['|']) k bs

/-- The items before the last one of the branch being read. -/
inductive ItemsBefore (room pos : Nat) : List Char → Nat → List Regex → Prop
  | none : ItemsBefore room pos [] 0 []
  | some {t : List Char} {k : Nat} {rs : List Regex} (h : Concat room pos t k rs) :
      ItemsBefore room pos t k rs

theorem BranchesBefore.alternation {room pos k l : Nat} {t u : List Char} {bs rs : List Regex}
    (h : BranchesBefore room pos t k bs) (hu : Concat room (pos + byteLength t) u l rs) :
    Alternation room pos (t ++ u) (k + l) (bs ++ [concatOf rs]) := by
  cases h with
  | none => simpa using Alternation.one hu
  | some h =>
    rw [byteLength_append, ← Nat.add_assoc] at hu
    simpa using Alternation.more h hu

theorem ItemsBefore.concat {room pos k l : Nat} {t u : List Char} {q : Bool} {rs : List Regex}
    {r : Regex} (h : ItemsBefore room pos t k rs) (hr : Repeat room (pos + byteLength t) u l q r) :
    Concat room pos (t ++ u) (k + l) (rs ++ [r]) := by
  cases h with
  | none => simpa using Concat.one hr
  | some h => exact .more h hr

/-- The text at `pos` that was read into a level, and whether it ends with a quantifier. -/
inductive Inside (room pos : Nat) : List Char → Nat → Level → Bool → Prop
  | fresh {t : List Char} {k : Nat} {bs : List Regex} (h : BranchesBefore room pos t k bs) :
      Inside room pos t k ⟨bs.reverse, []⟩ false
  | item {t u v : List Char} {k l m : Nat} {bs rs : List Regex} {q : Bool} {r : Regex}
      (hbranches : BranchesBefore room pos t k bs)
      (hitems : ItemsBefore room (pos + byteLength t) u l rs)
      (hr : Repeat room (pos + byteLength t + byteLength u) v m q r) :
      Inside room pos (t ++ (u ++ v)) (k + (l + m)) ⟨bs.reverse, r :: rs.reverse⟩ q

namespace Inside

variable {room pos k : Nat} {t : List Char} {level : Level} {q : Bool}

theorem push (h : Inside room pos t k level q) {u : List Char} {l : Nat} {r : Regex}
    (hr : Atom room (pos + byteLength t) u l r) :
    Inside room pos (t ++ u) (k + l) (level.push r) false := by
  cases h with
  | fresh hbranches =>
    have := Inside.item hbranches .none (by simpa using Repeat.atom hr)
    simpa [Level.push] using this
  | item hbranches hitems hlast =>
    rw [byteLength_append, ← Nat.add_assoc] at hr
    have := Inside.item hbranches (.some (hitems.concat hlast)) (.atom hr)
    simpa [Level.push, Nat.add_assoc] using this

theorem quantify (h : Inside room pos t k level q) {u : List Char} {b : Bounds} {r : Regex}
    {items : List Regex} (hu : Quantifier u b) (hitems : level.items = r :: items) :
    Inside room pos (t ++ u) (k + q.toNat)
      ⟨level.branches, .repeated r b.min b.max (pos + byteLength t) :: items⟩ true := by
  cases h with
  | fresh => cases hitems
  | item hbranches hbefore hlast =>
    obtain ⟨rfl, rfl⟩ := List.cons.inj hitems
    have := Inside.item hbranches hbefore (.quantifier hlast hu)
    simpa [Nat.add_assoc] using this

theorem alternation (h : Inside room pos t k level q) (hitems : level.items ≠ []) :
    Alternation room pos t k level.alternatives := by
  cases h with
  | fresh => exact absurd rfl hitems
  | item hbranches hbefore hlast =>
    simpa [Level.alternatives] using hbranches.alternation (hbefore.concat hlast)

theorem bar (h : Inside room pos t k level q) (hitems : level.items ≠ []) :
    Inside room pos (t ++ ['|']) k ⟨level.alternatives.reverse, []⟩ false :=
  .fresh (.some (h.alternation hitems))

end Inside

/-- The text up to the innermost open parenthesis, with `room` for the groups inside it. -/
inductive Enclosing : Nat → List Char → Nat → List (Nat × Level) → Prop
  | outermost : Enclosing Limits.maxDepth [] 0 []
  | group {room k l opened : Nat} {t u : List Char} {outer : List (Nat × Level)} {level : Level}
      {q : Bool} (h : Enclosing (room + 1) t k outer)
      (hlevel : Inside (room + 1) (byteLength t) u l level q) :
      Enclosing room (t ++ (u ++ ['('])) (k + l) ((opened, level) :: outer)

theorem Enclosing.length {room k : Nat} {t : List Char} {outer : List (Nat × Level)}
    (h : Enclosing room t k outer) : outer.length + room = Limits.maxDepth := by
  induction h with
  | outermost => simp
  | group _ _ ih =>
    simp only [List.length_cons]
    omega

/-- The state after the text `t ++ u`, where `t` leads up to the innermost open parenthesis. -/
inductive State.Describes (s : State) : List Char → Prop
  | intro {room k l : Nat} {t u : List Char} (hstacked : s.stacked = k + l)
      (hle : s.stacked ≤ Limits.maxDepth) (houter : Enclosing room t k s.outer)
      (hlevel : Inside room (byteLength t) u l s.level s.quantified) : Describes s (t ++ u)

theorem State.describes_start : State.start.Describes [] :=
  .intro (t := []) (u := []) rfl (Nat.zero_le _) .outermost (.fresh .none)

/-- One step reads on. -/
theorem State.Describes.step {s s' : State} {text t : List Char} {next : Option Char}
    (h : s.Describes text) (hstep : Step s (byteLength text) next t s') :
    s'.Describes (text ++ t) := by
  obtain @⟨room, k, l, t₀, u, hstacked, hle, houter, hlevel⟩ := h
  rw [byteLength_append] at hstep
  rw [List.append_assoc]
  cases hstep with
  | set h => exact .intro hstacked hle houter (hlevel.push (.set h))
  | quantifier h hitems hbound =>
    refine .intro ?_ hbound houter (hlevel.quantify h hitems)
    simp only [hstacked, Nat.add_assoc]
  | bar hitems => exact .intro hstacked hle houter (hlevel.bar hitems)
  | openGroup _ hdepth =>
    have hlength := houter.length
    obtain ⟨room, rfl⟩ : ∃ n, room = n + 1 := ⟨room - 1, by omega⟩
    rw [← List.append_nil (t₀ ++ (u ++ ['(']))]
    exact .intro (l := 0) hstacked hle (.group houter hlevel) (.fresh .none)
  | closeGroup hitems hstack =>
    have hgroup := hlevel.alternation hitems
    rw [hstack] at houter
    -- The group and its parentheses are one more atom of the level around it.
    obtain _ | @⟨_, k, l', _, t₀, u', _, _, _, houter, hbefore⟩ := houter
    rw [byteLength_append, byteLength_append, ← Nat.add_assoc] at hgroup
    have := hbefore.push (.group hgroup)
    rw [show t₀ ++ (u' ++ ['(']) ++ (u ++ [')']) = t₀ ++ (u' ++ '(' :: (u ++ [')'])) by simp]
    exact .intro (by rw [hstacked, Nat.add_assoc]) hle houter this

theorem State.Describes.derives {s : State} {c : Cursor} {text : List Char} {r : Regex}
    (h : s.Describes text) (hpos : c.pos = byteLength text) (hrun : s.run c = .ok r) :
    Derives (text ++ c.rest) r := by
  fun_induction State.run s c generalizing text with
  | case1 s c hnext =>
    obtain ⟨hstack, hclose⟩ := State.finish_eq_ok_iff.1 hrun
    obtain ⟨hitems, rfl⟩ := Level.close?_eq_some_iff.1 hclose
    obtain ⟨hstacked, hle, houter, hlevel⟩ := h
    rw [hstack] at houter
    cases houter
    rw [hstacked, Nat.zero_add] at hle
    rw [Cursor.next?_eq_none.1 hnext, List.append_nil]
    exact ⟨_, _, hlevel.alternation hitems, hle, rfl⟩
  | case2 => cases hrun
  | case3 s c x c₁ hnext s₁ c₂ hstep _ ih =>
    obtain ⟨t, ht, hstep⟩ := State.step_eq_ok_iff.1 hstep
    have hreads := (Cursor.reads_of_next? hnext).trans ht
    rw [hpos] at hstep
    have hpos' : c₂.pos = byteLength (text ++ x :: t) := by
      rw [hreads.pos, hpos, byteLength_append text, List.singleton_append]
    rw [hreads.rest, List.singleton_append, ← List.append_assoc]
    exact ih (h.step hstep) hpos' hrun

theorem derives_of_parse {cs : List Char} {r : Regex} (h : parse cs = .ok r) : Derives cs r := by
  unfold parse at h
  split at h
  · cases h
  · exact State.describes_start.derives rfl h

/-- Reading succeeds on just the texts of the grammar, and gives what they stand for. -/
theorem parse_eq_ok_iff_derives (cs : List Char) (r : Regex) :
    parse cs = .ok r ↔ byteLength cs ≤ maxPosition ∧ Derives cs r := by
  have hrun : State.start.run (.start cs) = .ok r ↔ Derives cs r := by
    constructor
    · intro h
      exact State.describes_start.derives rfl h
    · rintro ⟨k, bs, h, hle, rfl⟩
      obtain ⟨level, q, hitems, rfl, hleads⟩ := h.leads .start rfl (by simp [State.start])
        (by simpa [State.start] using hle)
      have hread := hleads []
      rw [List.append_nil] at hread
      rw [Cursor.start, hread, State.run_of_end rfl]
      exact State.finish_eq_ok_iff.2 ⟨rfl, Level.close?_eq_some_iff.2 ⟨hitems, rfl⟩⟩
  unfold parse
  split
  · rename_i hlt
    simp [Nat.not_le.2 hlt]
  · rename_i hle
    simp [hrun, Nat.not_lt.1 hle]

end LexerGen.Regex
