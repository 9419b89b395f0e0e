import LexerGen.Proofs.Lexer.Reference
import LexerGen.Proofs.Lexer.Segments

/-! Where scanning fails. A table without dead states can follow a text for just as long as some
pattern could still match, so the error stands at the first character that no pattern allows there,
or at the start of the last piece if the text ends before such a character. -/

namespace LexerGen

open Text

/-! ### Getting stuck -/

namespace Lexer

/-- `rest` starts with `read`, which can go on, and `x` behind it, with which it cannot. -/
structure StuckAt (goesOn : List Char → Prop) (rest read : List Char) (x : Char) : Prop where
  starts : read ++ [x] <+: rest
  reached : goesOn read
  stuck : ¬goesOn (read ++ [x])

section

variable {goesOn : List Char → Prop} (hclosed : ∀ u v, goesOn (u ++ v) → goesOn u)
include hclosed

theorem goesOn_of_starts {u v : List Char} (h : u <+: v) (hv : goesOn v) : goesOn u := by
  obtain ⟨w, rfl⟩ := h
  exact hclosed u w hv

theorem StuckAt.not_goesOn {rest read : List Char} {x : Char} (h : StuckAt goesOn rest read x) :
    ¬goesOn rest := fun hrest => h.stuck (goesOn_of_starts hclosed h.starts hrest)

theorem StuckAt.length_le {rest read read' : List Char} {x x' : Char}
    (h : StuckAt goesOn rest read x) (h' : StuckAt goesOn rest read' x') :
    read.length ≤ read'.length := by
  by_contra hlt
  have hprefix : read' ++ [x'] <+: read := by
    refine List.prefix_of_prefix_length_le h'.starts ((List.prefix_append _ _).trans h.starts) ?_
    rw [List.length_append, List.length_singleton]
    omega
  exact h'.stuck (goesOn_of_starts hclosed hprefix h.reached)

theorem StuckAt.unique {rest read read' : List Char} {x x' : Char}
    (h : StuckAt goesOn rest read x) (h' : StuckAt goesOn rest read' x') :
    read = read' ∧ x = x' := by
  have hlength : read.length = read'.length :=
    Nat.le_antisymm (h.length_le hclosed h') (h'.length_le hclosed h)
  have heq : read ++ [x] = read' ++ [x'] := by
    refine List.IsPrefix.eq_of_length (List.prefix_of_prefix_length_le h.starts h'.starts ?_) ?_
    · simp [hlength]
    · simp [hlength]
  simpa using List.append_inj heq hlength

end

/-- The table can follow `text` from `state` on. -/
def FollowsFrom (t : StateTable) (state : Nat) (text : List Char) : Prop :=
  ∃ next, t.runFrom? state text = some next

theorem followsFrom_cons {t : StateTable} {state next : Nat} {x : Char}
    (hnext : t.next? state x = some next) (text : List Char) :
    FollowsFrom t state (x :: text) ↔ FollowsFrom t next text := by
  rw [FollowsFrom, FollowsFrom, StateTable.runFrom?_cons, hnext]
  rfl

theorem not_followsFrom_cons {t : StateTable} {state : Nat} {x : Char}
    (hnext : t.next? state x = none) (text : List Char) : ¬FollowsFrom t state (x :: text) := by
  rintro ⟨n, hn⟩
  rw [StateTable.runFrom?_cons, hnext] at hn
  cases hn

theorem StuckAt.cons {t : StateTable} {state next : Nat} {x y : Char} {rest read : List Char}
    (hnext : t.next? state x = some next) (h : StuckAt (FollowsFrom t next) rest read y) :
    StuckAt (FollowsFrom t state) (x :: rest) (x :: read) y :=
  ⟨List.cons_prefix_cons.2 ⟨rfl, h.starts⟩, (followsFrom_cons hnext _).2 h.reached,
    fun hstuck => h.stuck ((followsFrom_cons hnext _).1 hstuck)⟩

/-- What the error of a match that starts at `start` says of the text `cs` that was left at `pos`:
the table can follow all of it, or gets stuck at a character. -/
inductive Explains (goesOn : List Char → Prop) (start pos : Nat) (cs : List Char) :
    ScanError → Prop
  | ended (h : goesOn cs) : Explains goesOn start pos cs (.unexpectedEnd start)
  | stuck {read : List Char} {x : Char} (h : StuckAt goesOn cs read x) :
      Explains goesOn start pos cs (.noMatch (pos + byteLength read) x)

theorem explains_of_munchFrom {t : StateTable} {start state count pos : Nat} {active : String}
    {best : Option Match} {cs : List Char} {e : ScanError}
    (h : munchFrom t start state active count best pos cs = .error e) :
    Explains (FollowsFrom t state) start pos cs e := by
  induction cs generalizing state active count best pos with
  | nil =>
    cases best with
    | none =>
      obtain rfl := Except.error.inj h
      exact .ended ⟨state, rfl⟩
    | some m => cases h
  | cons x rest ih =>
    have hstep : ∀ {next : Nat}, t.next? state x = some next →
        Explains (FollowsFrom t next) start (pos + x.utf8Size) rest e →
        Explains (FollowsFrom t state) start pos (x :: rest) e := by
      intro next hnext he
      cases he with
      | ended hrest => exact .ended ((followsFrom_cons hnext rest).2 hrest)
      | @stuck read y hstuck =>
        rw [Nat.add_assoc, ← byteLength_cons]
        exact .stuck (hstuck.cons hnext)
    unfold munchFrom at h
    split at h
    · rename_i hnext
      cases best with
      | none =>
        obtain rfl := Except.error.inj h
        have hstuck : StuckAt (FollowsFrom t state) (x :: rest) [] x :=
          ⟨by simp, ⟨state, rfl⟩, not_followsFrom_cons hnext []⟩
        exact .stuck hstuck
      | some m => cases h
    · rename_i next hnext
      simp only at h
      split at h
      · exact hstep hnext (ih h)
      · exact hstep hnext (ih h)

/-- Scanning fails with the error of the first match that fails. -/
theorem exists_segments_of_error {lexer : Lexer} {c : Cursor} (hc : Fits c) {e : ScanError}
    (h : lexer.tokensFrom c = .error e) :
    ∃ ss c', Segments lexer.table c ss c' ∧ c'.rest ≠ [] ∧ munch lexer.table c' = .error e := by
  induction hn : c.rest.length using Nat.strong_induction_on generalizing c with
  | _ n ih =>
    by_cases hnil : c.rest = []
    · rw [tokensFrom_nil hnil] at h
      cases h
    · cases hm : munch lexer.table c with
      | error e' =>
        rw [tokensFrom_of_error hnil hm] at h
        obtain rfl := Except.error.inj h
        exact ⟨[], c, .nil c, hnil, hm⟩
      | ok m =>
        have hlt := length_of_munch hm
        have hrest : lexer.tokensFrom m.next = .error e := by
          rw [tokensFrom_of_munch hc hm] at h
          split at h
          · exact h
          · cases hts : lexer.tokensFrom m.next with
            | error e' =>
              rw [hts] at h
              exact h
            | ok ts =>
              rw [hts] at h
              cases h
        obtain ⟨ss, c', hss, hne, he⟩ := ih _ (by omega) (hc.next hm) hrest rfl
        exact ⟨_, c', .cons hm hss, hne, he⟩

end Lexer

/-! ### Compiled rule files -/

namespace Reference

open Lexer

/-- Some declared pattern matches a text that starts with `text`. -/
def Viable (ds : List Declaration) (text : List Char) : Prop := ∃ more, Declared ds (text ++ more)

theorem Viable.of_append {ds : List Declaration} (u v : List Char) (h : Viable ds (u ++ v)) :
    Viable ds u := by
  obtain ⟨more, hmore⟩ := h
  exact ⟨v ++ more, by rwa [← List.append_assoc]⟩

/-- Behind every text that a table of patterns can follow, some text is accepted. -/
theorem exists_accepted_of_toTable {f : Nfa.Fragment} {t : StateTable} (hf : f.Built)
    (h : f.toTable = .ok t) {w : List Char} {n : Nat} (hn : t.runFrom? t.entry w = some n) :
    ∃ v tag, t.tagFrom? n v = some tag := by
  obtain ⟨v, a, ha⟩ := hf.exists_accepts
  obtain ⟨tag, hresolves⟩ := Nfa.Fragment.exists_resolves ha
  have hlt := StateTable.runFrom?_lt (Nfa.Fragment.wellFormed_toTable h)
    (Nfa.Fragment.wellFormed_toTable h).entry_lt hn
  obtain ⟨t₁, h₁, rfl⟩ := Nfa.Fragment.toTable_eq_ok h
  have hw := Nfa.Fragment.wellFormed_determinise h₁
  have hentry := (Nfa.Fragment.tagFrom?_trim_determinise h₁ v tag).2 hresolves
  exact (StateTable.minimal_minimise (StateTable.wellFormed_trim hw) (StateTable.live_trim hw)
    ⟨v, tag, hentry⟩).live n hlt

/-- A compiled lexer follows a text for as long as some declared pattern can still match. -/
theorem followsFrom_eq_viable {source : String} {g : Compiled} {ds : List Declaration}
    (h : Compiled.ofSource source = .ok g) (hds : Rules.parse source = .ok ds)
    (hl : Implements ds g.lexer) :
    FollowsFrom g.lexer.table g.lexer.table.entry = Viable ds := by
  obtain ⟨ds', f, hds', hf, htable, -⟩ := ofSource_eq_ok h
  obtain rfl := Except.ok.inj (hds.symm.trans hds')
  funext w
  refine propext ⟨?_, ?_⟩
  · rintro ⟨n, hn⟩
    obtain ⟨v, tag, hv⟩ := exists_accepted_of_toTable (combine_spec hf).1 htable hn
    refine ⟨v, ?_⟩
    rw [← hl.accepts, AcceptsFrom, StateTable.tagFrom?_append, hn]
    exact ⟨tag, hv⟩
  · rintro ⟨v, hv⟩
    rw [← hl.accepts] at hv
    obtain ⟨tag, htag⟩ := hv
    rw [StateTable.tagFrom?_append, Option.bind_eq_some_iff] at htag
    obtain ⟨n, hn, -⟩ := htag
    exact ⟨n, hn⟩

/-- Scanning fails behind the last match, where no declared pattern matches. The error is about the
first character that cannot go on there, or about the end of the text if there is no such
character. -/
theorem tokenize_error_place {source input : String} {g : Compiled} {e : ScanError}
    (h : Compiled.ofSource source = .ok g) (hinput : byteLength input.toList ≤ maxPosition)
    (he : g.lexer.tokenize input = .error e) :
    ∃ ds ss c, Rules.parse source = .ok ds ∧ Segments g.lexer.table (.start input.toList) ss c ∧
      munch g.lexer.table c = .error e ∧ c.rest ≠ [] ∧ NoneAccepted (Declared ds) c.rest ∧
      (∀ q x, e = .noMatch q x ↔
        ∃ read, StuckAt (Viable ds) c.rest read x ∧ q = c.pos + byteLength read) ∧
      (∀ p, e = .unexpectedEnd p ↔ Viable ds c.rest ∧ p = c.pos) := by
  obtain ⟨ds, hds, hl⟩ := implements_of_ofSource h
  have hfits : Fits (.start input.toList) := by
    rw [Fits, Cursor.start, Nat.zero_add]
    exact hinput
  obtain ⟨ss, c, hss, hne, hmunch⟩ := exists_segments_of_error hfits he
  have hnone : NoneAccepted (Declared ds) c.rest := by
    rw [← hl.accepts]
    refine (exists_munch_or_noneAccepted _ c).resolve_left ?_
    rintro ⟨m, hm⟩
    rw [hmunch] at hm
    cases hm
  have hexplains : Explains (Viable ds) c.pos c.pos c.rest e := by
    rw [← followsFrom_eq_viable h hds hl]
    exact explains_of_munchFrom hmunch
  refine ⟨ds, ss, c, hds, hss, hmunch, hne, hnone, fun q x => ?_, fun p => ?_⟩
  · cases hexplains with
    | ended hviable =>
      refine iff_of_false (by simp) ?_
      rintro ⟨read, hstuck, -⟩
      exact hstuck.not_goesOn Viable.of_append hviable
    | @stuck read y hstuck =>
      constructor
      · intro heq
        obtain ⟨rfl, rfl⟩ := ScanError.noMatch.inj heq
        exact ⟨read, hstuck, rfl⟩
      · rintro ⟨read', hstuck', rfl⟩
        obtain ⟨rfl, rfl⟩ := hstuck.unique Viable.of_append hstuck'
        rfl
  · cases hexplains with
    | ended hviable => simp [hviable, eq_comm]
    | stuck hstuck => simp [hstuck.not_goesOn Viable.of_append]

/-- The pattern `ab` goes along with the first character of `ac`. -/
theorem tokenize_error_place_pair : ∃ g e, Compiled.ofSource "A:ab$" = .ok g ∧
    byteLength "ac".toList ≤ maxPosition ∧ g.lexer.tokenize "ac" = .error e ∧
    ∃ ds ss c, Rules.parse "A:ab$" = .ok ds ∧ Segments g.lexer.table (.start "ac".toList) ss c ∧
      munch g.lexer.table c = .error e ∧ c.rest ≠ [] ∧ NoneAccepted (Declared ds) c.rest ∧
      (∀ q x, e = .noMatch q x ↔
        ∃ read, StuckAt (Viable ds) c.rest read x ∧ q = c.pos + byteLength read) ∧
      (∀ p, e = .unexpectedEnd p ↔ Viable ds c.rest ∧ p = c.pos) := by
  have hparse : Rules.parse "A:ab$" = .ok [⟨.pattern "A" "ab" ⟨2, 4⟩, ⟨0, 5⟩⟩] := by decide +kernel
  have hcombine : combine [⟨"A", "ab", ⟨2, 4⟩⟩] = .ok ⟨#[{ edges := [⟨⟨'a', 'a'⟩, 1⟩] },
      { edges := [⟨⟨'b', 'b'⟩, 2⟩] }, { accept := some ⟨"A", 0⟩ }], 0⟩ := by decide +kernel
  obtain ⟨t, ht⟩ := Nfa.Fragment.exists_toTable (combine_spec hcombine).1.wellFormed (by decide)
  obtain ⟨g, hg⟩ : ∃ g, Compiled.ofSource "A:ab$" = .ok g := by
    simp [Compiled.ofSource, hparse, Compiled.ofDeclarations, Declaration.pattern?, hcombine, ht]
  have hfails : ∀ ts, g.lexer.tokenize "ac" ≠ .ok ts := by
    intro ts hts
    obtain ⟨ds, hds, hl⟩ := implements_of_ofSource hg
    obtain rfl := Except.ok.inj (hparse.symm.trans hds)
    have hscans := (tokenize_eq_ok_iff_scans (by decide)).1 hts
    obtain ⟨m, hm⟩ := hscans.exists_munch .refl (by simp [Cursor.start])
    have hlongest := (piece_of_munch hl hm).1.longest
    obtain ⟨p, hp, hmatches⟩ := hlongest.accepted
    obtain ⟨i, hi⟩ := List.mem_iff_getElem?.1 hp
    obtain ⟨n, hn, ha⟩ := ((combine_spec hcombine).2 _ ⟨p.tag, 0 + i⟩).2 ⟨i, p, hi, hmatches, rfl⟩
    have hstarts := hlongest.starts
    -- The only way to the accepting state reads an `a` and a `b`.
    generalize (Cursor.start "ac".toList).rest.take m.length = text at hn hstarts
    rw [show (Cursor.start "ac".toList).rest = ['a', 'c'] by decide] at hstarts
    cases hn with
    | refl => cases ha
    | epsilon h => cases h
    | @char _ _ c₁ _ _ he hc₁ hn =>
      obtain rfl := List.mem_singleton.1 he
      cases hn with
      | refl => cases ha
      | epsilon h => cases h
      | @char _ _ c₂ _ _ he hc₂ hn =>
        obtain rfl := List.mem_singleton.1 he
        have hchar : c₂ = 'c' := (List.cons_prefix_cons.1 (List.cons_prefix_cons.1 hstarts).2).1
        rw [hchar] at hc₂
        exact absurd hc₂ (by decide)
  cases he : g.lexer.tokenize "ac" with
  | ok ts => exact absurd he (hfails ts)
  | error e => exact ⟨g, e, hg, by decide, he, tokenize_error_place hg (by decide) he⟩

end Reference

end LexerGen
