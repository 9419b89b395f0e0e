import LexerGen.Proofs.CharSet
import LexerGen.Proofs.Regex.Language
import LexerGen.Regex.Parser

/-! Every expression that is read is proper: the reader refuses empty classes, empty branches and
counts that are out of order. -/

namespace LexerGen.Regex

open Text

/-! ### Sets of characters -/

theorem exists_contains_of_escape? {c c' : Cursor} {s : CharSet} (h : escape? c = some (s, c')) :
    ∃ x, s.contains x = true := by
  simp only [escape?, Option.bind_eq_bind, Option.bind_eq_some_iff, Prod.exists] at h
  obtain ⟨x, c₁, -, h⟩ := h
  have hset : ∀ {t : CharSet} (y : Char), t.contains y = true → some (t, c₁) = some (s, c') →
      ∃ x, s.contains x = true := by
    intro t y hy heq
    obtain ⟨rfl, -⟩ := Prod.mk.inj (Option.some.inj heq)
    exact ⟨y, hy⟩
  have hread : ∀ {r : Option (Char × Cursor)},
      r.map (fun p => (CharSet.singleton p.1, p.2)) = some (s, c') → ∃ x, s.contains x = true := by
    intro r heq
    obtain ⟨⟨y, c₂⟩, -, hy⟩ := Option.map_eq_some_iff.1 heq
    obtain ⟨rfl, -⟩ := Prod.mk.inj hy
    exact ⟨y, CharSet.contains_singleton y⟩
  split at h
  case h_7 => exact hread h
  case h_8 => exact hread h
  case h_9 => exact hset '0' (by decide) h
  case h_10 => exact hset 'a' (by decide) h
  case h_11 => exact hset 'a' (by decide) h
  case h_12 => exact hset ' ' (by decide) h
  case h_13 => exact hset ' ' (by decide) h
  case h_14 => exact hset 'a' (by decide) h
  case h_15 =>
    split at h
    · cases h
    · exact hset _ (CharSet.contains_singleton _) h
  all_goals exact hset _ (CharSet.contains_singleton _) h

theorem inhabits_of_classItem {chars chars' : CharSet} {pos : Nat} {x : Char} {c c' : Cursor}
    (h : classItem chars pos x c = .ok (chars', c')) (hc : chars.Inhabits) : chars'.Inhabits := by
  unfold classItem at h
  split at h
  · cases h
  · obtain ⟨rfl, -⟩ := Prod.mk.inj (Except.ok.inj h)
    exact hc.union _
  · split at h
    · obtain ⟨rfl, -⟩ := Prod.mk.inj (Except.ok.inj h)
      exact hc.addRange _ _
    · split at h
      · cases h
      · cases h
      · split at h
        · obtain ⟨rfl, -⟩ := Prod.mk.inj (Except.ok.inj h)
          exact hc.addRange _ _
        · cases h

theorem inhabits_of_classItems {opened : Nat} {chars chars' : CharSet} {c c' : Cursor}
    (h : classItems opened chars c = .ok (chars', c')) (hc : chars.Inhabits) :
    chars'.Inhabits := by
  fun_induction classItems opened chars c with
  | case1 => cases h
  | case2 =>
    obtain ⟨rfl, -⟩ := Prod.mk.inj (Except.ok.inj h)
    exact hc
  | case3 => cases h
  | case4 _ _ _ _ _ _ _ _ hitem _ ih => exact ih h (inhabits_of_classItem hitem hc)

theorem exists_contains_of_nonEmpty {opened : Nat} {chars chars' : CharSet} {c c' : Cursor}
    (hc : chars.Inhabits) (h : nonEmpty opened chars c = .ok (chars', c')) :
    ∃ x, chars'.contains x = true := by
  unfold nonEmpty at h
  split at h
  · cases h
  · rename_i hne
    obtain ⟨rfl, -⟩ := Prod.mk.inj (Except.ok.inj h)
    exact CharSet.exists_contains hc (by simpa using hne)

theorem exists_contains_of_charClass {opened : Nat} {chars : CharSet} {c c' : Cursor}
    (h : charClass opened c = .ok (chars, c')) : ∃ x, chars.contains x = true := by
  simp only [charClass] at h
  split at h
  · cases h
  · split at h
    · cases h
    · rename_i hitem
      split at h
      · cases h
      · rename_i hitems
        refine exists_contains_of_nonEmpty ?_ h
        split
        · exact CharSet.inhabits_complement _
        · exact inhabits_of_classItems hitems (inhabits_of_classItem hitem CharSet.inhabits_empty)

theorem exists_contains_of_atom {pos : Nat} {x : Char} {c c' : Cursor} {chars : CharSet}
    (h : State.atom pos x c = .ok (chars, c')) : ∃ x, chars.contains x = true := by
  unfold State.atom at h
  split at h
  · exact exists_contains_of_charClass h
  · cases h
  · cases h
  · obtain ⟨rfl, -⟩ := Prod.mk.inj (Except.ok.inj h)
    exact ⟨'a', by decide⟩
  · split at h
    · rename_i r hr
      rw [Except.ok.inj h] at hr
      exact exists_contains_of_escape? hr
    · cases h
  · obtain ⟨rfl, -⟩ := Prod.mk.inj (Except.ok.inj h)
    exact ⟨_, CharSet.contains_singleton _⟩

/-! ### Counts -/

theorem min_le_of_closeBounds {opened : Nat} {b b' : Bounds} {c c' : Cursor}
    (h : closeBounds opened b c = .ok (b', c')) : ∀ m, b'.max = some m → b'.min ≤ m := by
  unfold closeBounds at h
  split at h
  · cases h
  · split at h
    · cases h
    · rename_i hmax
      obtain ⟨rfl, -⟩ := Prod.mk.inj (Except.ok.inj h)
      intro m hm
      simpa [hm] using hmax
  · cases h

theorem min_le_of_bounds {pos : Nat} {x : Char} {c c' : Cursor} {b : Bounds}
    (h : bounds pos x c = .ok (b, c')) : ∀ m, b.max = some m → b.min ≤ m := by
  unfold bounds at h
  split at h
  case h_4 =>
    unfold bracedBounds at h
    split at h
    · cases h
    · cases h
    · split at h
      · split at h
        · cases h
        · exact min_le_of_closeBounds h
      · exact min_le_of_closeBounds h
  all_goals
    obtain ⟨rfl, -⟩ := Prod.mk.inj (Except.ok.inj h)
    intro m hm
    simp at hm ⊢

/-! ### The levels of the reader -/

structure Level.Proper (l : Level) : Prop where
  branches : ∀ r ∈ l.branches, r.Proper
  items : ∀ r ∈ l.items, r.Proper

theorem Level.Proper.empty : Level.empty.Proper := ⟨by simp [Level.empty], by simp [Level.empty]⟩

theorem Level.Proper.push {l : Level} (hl : l.Proper) {r : Regex} (hr : r.Proper) :
    (l.push r).Proper :=
  ⟨hl.branches, List.forall_mem_cons.2 ⟨hr, hl.items⟩⟩

theorem Level.Proper.branch? {l : Level} (hl : l.Proper) {r : Regex} (h : l.branch? = some r) :
    r.Proper := by
  have hitems := hl.items
  unfold Level.branch? at h
  split at h
  · cases h
  · rename_i hr
    obtain rfl := Option.some.inj h
    exact hitems _ (by rw [hr]; exact List.mem_singleton_self _)
  · obtain rfl := Option.some.inj h
    rw [Regex.Proper, properAll_iff]
    intro r hr
    exact hitems r (List.mem_reverse.1 hr)

theorem Level.Proper.bar? {l l' : Level} (hl : l.Proper) (h : l.bar? = some l') : l'.Proper := by
  obtain ⟨r, hr, rfl⟩ := Option.map_eq_some_iff.1 h
  exact ⟨List.forall_mem_cons.2 ⟨hl.branch? hr, hl.branches⟩, by simp⟩

theorem Level.Proper.close? {l : Level} (hl : l.Proper) {r : Regex} (h : l.close? = some r) :
    r.Proper := by
  obtain ⟨r, hr, rfl⟩ := Option.map_eq_some_iff.1 h
  have hbranches := hl.branches
  split
  · exact hl.branch? hr
  · rw [Regex.Proper, properAll_iff]
    refine ⟨by simp, fun q hq => ?_⟩
    rw [List.mem_reverse, List.mem_cons] at hq
    rcases hq with rfl | hq
    · exact hl.branch? hr
    · exact hbranches q hq

structure State.Proper (s : State) : Prop where
  level : s.level.Proper
  outer : ∀ p ∈ s.outer, p.2.Proper

namespace State

theorem proper_of_map_ok {r : Except Error State} {c c' : Cursor} {s' : State}
    (hr : ∀ s, r = .ok s → s.Proper) (h : r.map (·, c) = .ok (s', c')) : s'.Proper := by
  cases r with
  | error e => cases h
  | ok s =>
    obtain ⟨rfl, -⟩ := Prod.mk.inj (Except.ok.inj h)
    exact hr s rfl

variable {s s' : State} (hs : s.Proper)
include hs

theorem Proper.openGroup {pos : Nat} {c : Cursor} (h : s.openGroup pos c = .ok s') :
    s'.Proper := by
  unfold State.openGroup at h
  split at h
  · cases h
  · split at h
    · cases h
    · obtain rfl := Except.ok.inj h
      exact ⟨Level.Proper.empty, List.forall_mem_cons.2 ⟨hs.level, hs.outer⟩⟩

theorem Proper.closeGroup {pos : Nat} (h : s.closeGroup pos = .ok s') : s'.Proper := by
  have houter := hs.outer
  unfold State.closeGroup at h
  split at h
  · cases h
  · cases h
  · rename_i r _ level outer hr heq
    obtain rfl := Except.ok.inj h
    rw [heq, List.forall_mem_cons] at houter
    exact ⟨houter.1.push (hs.level.close? hr), houter.2⟩

theorem Proper.bar {pos : Nat} (h : s.bar pos = .ok s') : s'.Proper := by
  unfold State.bar at h
  split at h
  · cases h
  · rename_i level hlevel
    obtain rfl := Except.ok.inj h
    exact ⟨hs.level.bar? hlevel, hs.outer⟩

theorem Proper.repeatItem {r : Regex} {items : List Regex} (hitems : s.level.items = r :: items)
    {pos : Nat} {b : Bounds} (hb : ∀ m, b.max = some m → b.min ≤ m)
    (h : s.repeatItem r items pos b = .ok s') : s'.Proper := by
  have hall := hs.level.items
  rw [hitems, List.forall_mem_cons] at hall
  unfold State.repeatItem at h
  simp only at h
  generalize (if s.quantified = true then s.stacked + 1 else s.stacked) = stacked at h
  split at h
  · cases h
  · obtain rfl := Except.ok.inj h
    refine ⟨⟨hs.level.branches, List.forall_mem_cons.2 ⟨?_, hall.2⟩⟩, hs.outer⟩
    rw [Regex.Proper]
    exact ⟨hall.1, hb⟩

theorem Proper.quantify {pos : Nat} {x : Char} {c c' : Cursor}
    (h : s.quantify pos x c = .ok (s', c')) : s'.Proper := by
  unfold State.quantify at h
  split at h
  · cases h
  · rename_i r items hitems
    split at h
    · cases h
    · rename_i b c₁ hb
      exact proper_of_map_ok (fun _ => hs.repeatItem hitems (min_le_of_bounds hb)) h

theorem Proper.step {pos : Nat} {x : Char} {c c' : Cursor}
    (h : s.step pos x c = .ok (s', c')) : s'.Proper := by
  unfold State.step at h
  split at h
  · exact proper_of_map_ok (fun _ => hs.openGroup) h
  · exact proper_of_map_ok (fun _ => hs.closeGroup) h
  · exact proper_of_map_ok (fun _ => hs.bar) h
  · split at h
    · exact hs.quantify h
    · cases hatom : State.atom pos x c with
      | error e => rw [hatom] at h; cases h
      | ok p =>
        rw [hatom] at h
        obtain ⟨rfl, -⟩ := Prod.mk.inj (Except.ok.inj h)
        refine ⟨hs.level.push ?_, hs.outer⟩
        rw [Regex.Proper]
        exact exists_contains_of_atom hatom

theorem Proper.finish {pos : Nat} {r : Regex} (h : s.finish pos = .ok r) : r.Proper := by
  unfold State.finish at h
  split at h
  · cases h
  · cases h
  · rename_i r' hr _
    obtain rfl := Except.ok.inj h
    exact hs.level.close? hr

theorem Proper.run {c : Cursor} {r : Regex} (h : s.run c = .ok r) : r.Proper := by
  fun_induction State.run s c with
  | case1 => exact hs.finish h
  | case2 => cases h
  | case3 _ _ _ _ _ _ _ hstep _ ih => exact ih (hs.step hstep) h

end State

/-- An expression that is read is proper. -/
theorem proper_of_parse {cs : List Char} {r : Regex} (h : parse cs = .ok r) : r.Proper := by
  unfold parse at h
  split at h
  · cases h
  · have hstart : State.start.Proper := ⟨Level.Proper.empty, by simp [State.start]⟩
    exact hstart.run h

end LexerGen.Regex
