import LexerGen.Proofs.Nfa.Alike
import LexerGen.Proofs.Nfa.Canonical

/-! Unions of fragments. The states of a union are numbered anew and start states are added, but its
table depends on neither: the order in which unions are formed does not matter, and the order of the
parts matters only where they accept with the same priority. -/

namespace LexerGen.Nfa.Fragment

variable {f g h : Fragment} {v w : List Char} {a : Accept}

/-- `a` is the mark of the strongest accepting state that `w` leads to. -/
def Wins (f : Fragment) (w : List Char) (a : Accept) : Prop :=
  ∃ n, f.Reaches w n ∧ (f.state n).accept = some a ∧
    ∀ m b, f.Reaches w m → (f.state m).accept = some b →
      a.priority < b.priority ∨ (a.priority = b.priority ∧ n ≤ m)

theorem resolves_iff_wins {tag : String} : f.Resolves w tag ↔ ∃ a, f.Wins w a ∧ a.tag = tag := by
  constructor
  · rintro ⟨n, a, hn, ha, htag, hbest⟩
    exact ⟨a, ⟨n, hn, ha, hbest⟩, htag⟩
  · rintro ⟨a, ⟨n, hn, ha, hbest⟩, htag⟩
    exact ⟨n, a, hn, ha, htag, hbest⟩

theorem Wins.accepts (ha : f.Wins w a) : f.Accepts w a := by
  obtain ⟨n, hn, ha, -⟩ := ha
  exact ⟨n, hn, ha⟩

/-! ### What a union does with a text -/

section

variable (hf : f.WellFormed) (hg : g.WellFormed)
include hf hg

theorem reaches_union_start : (f.union g).Reaches w (f.union g).start ↔ w = [] := by
  have hstart : (f.union g).start = f.size + g.size := rfl
  rw [reaches_union hf hg]
  constructor
  · rintro (⟨hw, -⟩ | hn | ⟨m, hm, hn⟩)
    · exact hw
    · have := hn.lt_size hf
      omega
    · have := hn.lt_size hg
      omega
  · intro hw
    exact .inl ⟨hw, rfl⟩

theorem reaches_union_left {n : Nat} (hn : n < f.size) :
    (f.union g).Reaches w n ↔ f.Reaches w n := by
  have hstart : (f.union g).start = f.size + g.size := rfl
  rw [reaches_union hf hg]
  constructor
  · rintro (⟨-, hn⟩ | hn | ⟨m, hm, -⟩)
    · omega
    · exact hn
    · omega
  · intro hn
    exact .inr (.inl hn)

theorem reaches_union_right {n : Nat} (hn : n < g.size) :
    (f.union g).Reaches w (n + f.size) ↔ g.Reaches w n := by
  have hstart : (f.union g).start = f.size + g.size := rfl
  rw [reaches_union hf hg]
  constructor
  · rintro (⟨-, hn⟩ | hn | ⟨m, hm, hn⟩)
    · omega
    · have := hn.lt_size hf
      omega
    · rwa [Nat.add_right_cancel hm]
  · intro hn
    exact .inr (.inr ⟨n, rfl, hn⟩)

/-- A union identifies texts that both parts identify, but its new start sets the empty text apart
from all others. -/
theorem identifies_union :
    (f.union g).Identifies v w ↔ (v = [] ↔ w = []) ∧ f.Identifies v w ∧ g.Identifies v w := by
  constructor
  · intro h
    refine ⟨?_, fun n => ?_, fun n => ?_⟩
    · rw [← reaches_union_start hf hg, ← reaches_union_start hf hg]
      exact h _
    · by_cases hn : n < f.size
      · rw [← reaches_union_left hf hg hn, ← reaches_union_left hf hg hn]
        exact h n
      · exact ⟨fun hv => absurd (hv.lt_size hf) hn, fun hw => absurd (hw.lt_size hf) hn⟩
    · by_cases hn : n < g.size
      · rw [← reaches_union_right hf hg hn, ← reaches_union_right hf hg hn]
        exact h _
      · exact ⟨fun hv => absurd (hv.lt_size hg) hn, fun hw => absurd (hw.lt_size hg) hn⟩
  · rintro ⟨hnil, hf', hg'⟩ n
    rw [reaches_union hf hg, reaches_union hf hg, hnil, hf' n]
    simp only [hg' _]

/-- A union offers the ranges that either part offers. -/
theorem offers_union (r : CharRange) : (f.union g).Offers w r ↔ f.Offers w r ∨ g.Offers w r := by
  constructor
  · rintro ⟨k, hk, e, he, rfl⟩
    rcases (reaches_union hf hg).1 hk with ⟨-, rfl⟩ | hk | ⟨m, rfl, hm⟩
    · rw [state_union_start] at he
      cases he
    · rw [state_union_left (hk.lt_size hf)] at he
      exact .inl ⟨k, hk, e, he, rfl⟩
    · rw [state_union_right (hm.lt_size hg)] at he
      obtain ⟨e', he', rfl⟩ := List.mem_map.1 he
      exact .inr ⟨m, hm, e', he', rfl⟩
  · rintro (⟨k, hk, e, he, rfl⟩ | ⟨m, hm, e, he, rfl⟩)
    · refine ⟨k, (reaches_union hf hg).2 (.inr (.inl hk)), e, ?_, rfl⟩
      rwa [state_union_left (hk.lt_size hf)]
    · refine ⟨m + f.size, (reaches_union hf hg).2 (.inr (.inr ⟨m, rfl, hm⟩)),
        { e with target := e.target + f.size }, ?_, rfl⟩
      rw [state_union_right (hm.lt_size hg)]
      exact List.mem_map_of_mem he

/-- The winner of a union is the winner of a part that the other part does not beat. On equal
priorities the first part wins, as its states have the lower numbers. -/
theorem wins_union : (f.union g).Wins w a ↔
    (f.Wins w a ∧ ∀ b, g.Accepts w b → a.priority ≤ b.priority) ∨
      (g.Wins w a ∧ ∀ b, f.Accepts w b → a.priority < b.priority) := by
  constructor
  · rintro ⟨n, hn, ha, hbest⟩
    have hbest' : ∀ m b, f.Reaches w m → (f.state m).accept = some b →
        a.priority < b.priority ∨ (a.priority = b.priority ∧ n ≤ m) := fun m b hm hb => by
      obtain ⟨hm', hb'⟩ := (reaches_accepting_union hf hg).2 (.inl ⟨hm, hb⟩)
      exact hbest m b hm' hb'
    have hbest'' : ∀ m b, g.Reaches w m → (g.state m).accept = some b →
        a.priority < b.priority ∨ (a.priority = b.priority ∧ n ≤ m + f.size) := fun m b hm hb => by
      obtain ⟨hm', hb'⟩ := (reaches_accepting_union hf hg).2 (.inr ⟨m, rfl, hm, hb⟩)
      exact hbest (m + f.size) b hm' hb'
    rcases (reaches_accepting_union hf hg).1 ⟨hn, ha⟩ with ⟨hn, ha⟩ | ⟨k, rfl, hk, ha⟩
    · refine .inl ⟨⟨n, hn, ha, hbest'⟩, ?_⟩
      rintro b ⟨m, hm, hb⟩
      have := hbest'' m b hm hb
      omega
    · refine .inr ⟨⟨k, hk, ha, fun m b hm hb => ?_⟩, ?_⟩
      · have := hbest'' m b hm hb
        omega
      · rintro b ⟨m, hm, hb⟩
        have := hbest' m b hm hb
        have := hm.lt_size hf
        omega
  · rintro (⟨⟨n, hn, ha, hbest⟩, hother⟩ | ⟨⟨n, hn, ha, hbest⟩, hother⟩)
    · obtain ⟨hn', ha'⟩ := (reaches_accepting_union hf hg).2 (.inl ⟨hn, ha⟩)
      refine ⟨n, hn', ha', fun m b hm hb => ?_⟩
      rcases (reaches_accepting_union hf hg).1 ⟨hm, hb⟩ with ⟨hm, hb⟩ | ⟨k, rfl, hk, hb⟩
      · exact hbest m b hm hb
      · have := hother b ⟨k, hk, hb⟩
        have := hn.lt_size hf
        omega
    · obtain ⟨hn', ha'⟩ := (reaches_accepting_union hf hg).2 (.inr ⟨n, rfl, hn, ha⟩)
      refine ⟨n + f.size, hn', ha', fun m b hm hb => ?_⟩
      rcases (reaches_accepting_union hf hg).1 ⟨hm, hb⟩ with ⟨hm, hb⟩ | ⟨k, rfl, hk, hb⟩
      · exact .inl (hother b ⟨m, hm, hb⟩)
      · have := hbest k b hk hb
        omega

end

/-! ### The laws -/

theorem alike_union_assoc (hf : f.WellFormed) (hg : g.WellFormed) (hh : h.WellFormed) :
    Alike ((f.union g).union h) (f.union (g.union h)) where
  identifies v w := by
    rw [identifies_union (hf.union hg) hh, identifies_union hf hg,
      identifies_union hf (hg.union hh), identifies_union hg hh]
    tauto
  offers w r := by
    rw [offers_union (hf.union hg) hh, offers_union hf hg, offers_union hf (hg.union hh),
      offers_union hg hh, or_assoc]
  resolves w tag := by
    simp only [resolves_iff_wins]
    refine exists_congr fun a => and_congr_left fun _ => ?_
    rw [wins_union (hf.union hg) hh, wins_union hf hg, wins_union hf (hg.union hh),
      wins_union hg hh]
    simp only [accepts_union hf hg, accepts_union hg hh, or_imp, forall_and]
    tauto

/-- No priority of an accepting state occurs in both fragments. -/
def Apart (f g : Fragment) : Prop :=
  ∀ p ∈ f.accepting, ∀ q ∈ g.accepting, p.2.priority ≠ q.2.priority

instance : Decidable (Apart f g) :=
  inferInstanceAs (Decidable (∀ p ∈ f.accepting, ∀ q ∈ g.accepting, p.2.priority ≠ q.2.priority))

theorem Apart.priority_ne (hfg : Apart f g) {b : Accept} (ha : f.Accepts v a) (hb : g.Accepts w b) :
    a.priority ≠ b.priority := by
  obtain ⟨n, -, hn⟩ := ha
  obtain ⟨m, -, hm⟩ := hb
  exact hfg (n, a) (mem_accepting.2 hn) (m, b) (mem_accepting.2 hm)

theorem alike_union_comm (hf : f.WellFormed) (hg : g.WellFormed) (hfg : Apart f g) :
    Alike (f.union g) (g.union f) where
  identifies v w := by
    rw [identifies_union hf hg, identifies_union hg hf]
    tauto
  offers w r := by
    rw [offers_union hf hg, offers_union hg hf, or_comm]
  resolves w tag := by
    -- Without ties it makes no difference who wins them.
    have hleft : ∀ a, f.Wins w a → ((∀ b, g.Accepts w b → a.priority ≤ b.priority) ↔
        ∀ b, g.Accepts w b → a.priority < b.priority) := fun a ha =>
      forall₂_congr fun b hb => by
        have := hfg.priority_ne ha.accepts hb
        omega
    have hright : ∀ a, g.Wins w a → ((∀ b, f.Accepts w b → a.priority < b.priority) ↔
        ∀ b, f.Accepts w b → a.priority ≤ b.priority) := fun a ha =>
      forall₂_congr fun b hb => by
        have := hfg.priority_ne hb ha.accepts
        omega
    simp only [resolves_iff_wins]
    refine exists_congr fun a => and_congr_left fun _ => ?_
    rw [wins_union hf hg, wins_union hg hf, and_congr_right (hleft a), and_congr_right (hright a),
      or_comm]

/-- A table is refused for one reason only. -/
theorem toTable_eq_error {e : Regex.Error} (h : f.toTable = .error e) :
    e = ⟨.exceedsLimits, 0⟩ := by
  unfold toTable determinise at h
  simp only at h
  split at h
  · exact (Except.error.inj h).symm
  · cases h

/-- Unions may be formed in any order, and their parts may be exchanged where no priority occurs in
both: the tables are the same, or all are refused with the same error. -/
theorem toTable_union_laws (hf : f.Built) (hg : g.Built) (hh : h.Built) :
    (((f.union g).union h).toTable = (f.union (g.union h)).toTable ∧
      ∀ e, ((f.union g).union h).toTable = .error e → e = ⟨.exceedsLimits, 0⟩) ∧
    (Apart f g →
      (f.union g).toTable = (g.union f).toTable ∧
        ∀ e, (f.union g).toTable = .error e → e = ⟨.exceedsLimits, 0⟩) :=
  ⟨⟨(alike_union_assoc hf.wellFormed hg.wellFormed hh.wellFormed).toTable_eq,
      fun _ => toTable_eq_error⟩,
    fun hfg => ⟨(alike_union_comm hf.wellFormed hg.wellFormed hfg).toTable_eq,
      fun _ => toTable_eq_error⟩⟩

/-- Patterns that match the same text, with different priorities. -/
theorem toTable_union_laws_letter : ∃ f g h, compile ['a'] = .ok f ∧ compile ['a', '*'] = .ok g ∧
    compile ['b'] = .ok h ∧
    (((f.stamp "A" 0).union (g.stamp "S" 1)).union h).toTable =
      ((f.stamp "A" 0).union ((g.stamp "S" 1).union h)).toTable ∧
    ((f.stamp "A" 0).union (g.stamp "S" 1)).toTable =
      ((g.stamp "S" 1).union (f.stamp "A" 0)).toTable := by
  have hf : compile ['a'] = .ok
      ⟨#[{ edges := [⟨⟨'a', 'a'⟩, 1⟩] }, { accept := some .untagged }], 0⟩ := by decide +kernel
  have hg : compile ['a', '*'] = .ok ⟨#[{ epsilons := [1] },
      { edges := [⟨⟨'a', 'a'⟩, 2⟩], accept := some .untagged }, { epsilons := [1] }], 0⟩ := by
    decide +kernel
  have hh : compile ['b'] = .ok
      ⟨#[{ edges := [⟨⟨'b', 'b'⟩, 1⟩] }, { accept := some .untagged }], 0⟩ := by decide +kernel
  have hlaws := toTable_union_laws ((Built.compile hf).stamp "A" 0) ((Built.compile hg).stamp "S" 1)
    (Built.compile hh)
  exact ⟨_, _, _, hf, hg, hh, hlaws.1.1, (hlaws.2 (by decide +kernel)).1⟩

end LexerGen.Nfa.Fragment
