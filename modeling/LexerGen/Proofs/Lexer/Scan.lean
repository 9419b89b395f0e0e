import LexerGen.Proofs.Lexer.Munch
import Mathlib.Logic.Relation

/-! Scanning a text. The tokens are those of the longest matches, one after the other, as long as
there is text, without those with an ignored tag. -/

namespace LexerGen.Lexer

open Text

/-- The text of a match. -/
def matched (c : Cursor) (m : Match) : String := String.ofList (c.rest.take m.length)

/-- The tag of a match at `c`, after a look at the keywords. -/
def tagOf (lexer : Lexer) (c : Cursor) (m : Match) : String := lexer.resolve m.tag (matched c m)

/-- The token of a match at `c`. -/
def tokenOf (lexer : Lexer) (c : Cursor) (m : Match) : Token :=
  ⟨lexer.tagOf c m, matched c m, ⟨c.pos, c.pos + byteLength (c.rest.take m.length)⟩⟩

/-- The tokens of the matches from a cursor to the end. -/
inductive Scans (lexer : Lexer) : Cursor → List Token → Prop
  | done {c : Cursor} (h : c.rest = []) : Scans lexer c []
  | drop {c : Cursor} {m : Match} {ts : List Token} (hm : munch lexer.table c = .ok m)
      (hi : lexer.ignored.contains (lexer.tagOf c m) = true) (rest : Scans lexer m.next ts) :
      Scans lexer c ts
  | keep {c : Cursor} {m : Match} {ts : List Token} (hm : munch lexer.table c = .ok m)
      (hi : lexer.ignored.contains (lexer.tagOf c m) = false) (rest : Scans lexer m.next ts) :
      Scans lexer c (lexer.tokenOf c m :: ts)

/-- Matches lead from one cursor to the other. -/
def Visits (t : StateTable) : Cursor → Cursor → Prop :=
  Relation.ReflTransGen fun c c' => ∃ m, munch t c = .ok m ∧ c' = m.next

/-- The positions of the text at `c` fit into spans. -/
def Fits (c : Cursor) : Prop := c.pos + byteLength c.rest ≤ maxPosition

theorem munch_nil {t : StateTable} {c : Cursor} (h : c.rest = []) (m : Match) :
    munch t c ≠ .ok m := by
  intro hm
  obtain ⟨text, htext, -⟩ := munch_eq_ok_iff.1 hm
  rw [h] at htext
  exact htext.ne_nil (List.prefix_nil.1 htext.starts)

theorem reads_of_munch {t : StateTable} {c : Cursor} {m : Match} (h : munch t c = .ok m) :
    c.Reads (c.rest.take m.length) m.next := by
  obtain ⟨text, htext, rfl⟩ := munch_eq_ok_iff.1 h
  have htake : c.rest.take text.length = text := (List.prefix_iff_eq_take.1 htext.starts).symm
  refine ⟨?_, ?_⟩
  · exact (List.take_append_drop _ _).symm
  · rw [htake]

theorem Fits.next {t : StateTable} {c : Cursor} {m : Match} (hc : Fits c)
    (h : munch t c = .ok m) : Fits m.next := by
  have hreads := reads_of_munch h
  have hbytes := congrArg byteLength hreads.rest
  rw [byteLength_append] at hbytes
  unfold Fits at hc ⊢
  rw [hreads.pos]
  omega

theorem Fits.token {t : StateTable} {c : Cursor} {m : Match} (hc : Fits c)
    (h : munch t c = .ok m) (tag : String) : Token.at tag (matched c m) c.pos =
      .ok ⟨tag, matched c m, ⟨c.pos, c.pos + byteLength (c.rest.take m.length)⟩⟩ := by
  have hreads := reads_of_munch h
  have hbytes := congrArg byteLength hreads.rest
  rw [byteLength_append] at hbytes
  unfold Fits at hc
  have hle : ¬maxPosition < c.pos + byteLength (c.rest.take m.length) := by omega
  simp [Token.at, matched, hle]

/-! ### One match at a time -/

section

variable {lexer : Lexer} {c : Cursor}

theorem tokensFrom_eq (lexer : Lexer) (c : Cursor) : lexer.tokensFrom c =
    match lexer.nextToken? c with
    | none => .ok []
    | some (.error e) => .error e
    | some (.ok (t, c')) => (lexer.tokensFrom c').map (t :: ·) := by
  rw [tokensFrom]
  split
  · rename_i h
    rw [h]
  · rename_i h
    rw [h]
  · rename_i t c' h
    simp only [h]
    cases lexer.tokensFrom c' <;> rfl

theorem tokensFrom_nil (h : c.rest = []) : lexer.tokensFrom c = .ok [] := by
  rw [tokensFrom_eq, nextToken?]
  simp [h]

theorem nextToken?_of_munch {m : Match} (h : munch lexer.table c = .ok m) :
    lexer.nextToken? c =
      if lexer.ignored.contains (lexer.tagOf c m) then lexer.nextToken? m.next
      else
        match Token.at (lexer.tagOf c m) (matched c m) c.pos with
        | .error e => some (.error e)
        | .ok t => some (.ok (t, m.next)) := by
  have hne : c.rest ≠ [] := fun hnil => munch_nil hnil m h
  rw [nextToken?]
  split
  · rename_i hnil
    exact absurd hnil hne
  · split
    · rename_i e he
      rw [h] at he
      cases he
    · rename_i m' hm'
      rw [h] at hm'
      obtain rfl := Except.ok.inj hm'
      rfl

theorem tokensFrom_of_error {e : ScanError} (hne : c.rest ≠ [])
    (h : munch lexer.table c = .error e) : lexer.tokensFrom c = .error e := by
  have hnext : lexer.nextToken? c = some (.error e) := by
    rw [nextToken?]
    split
    · rename_i hnil
      exact absurd hnil hne
    · split
      · rename_i e' he'
        rw [h] at he'
        obtain rfl := Except.error.inj he'
        rfl
      · rename_i m hm
        rw [h] at hm
        cases hm
  rw [tokensFrom_eq, hnext]

theorem tokensFrom_of_munch (hc : Fits c) {m : Match} (h : munch lexer.table c = .ok m) :
    lexer.tokensFrom c =
      if lexer.ignored.contains (lexer.tagOf c m) then lexer.tokensFrom m.next
      else (lexer.tokensFrom m.next).map (lexer.tokenOf c m :: ·) := by
  rw [tokensFrom_eq, nextToken?_of_munch h]
  by_cases hi : lexer.ignored.contains (lexer.tagOf c m) = true
  · rw [if_pos hi, if_pos hi, ← tokensFrom_eq]
  · rw [if_neg hi, if_neg hi, hc.token h]
    rfl

end

/-! ### Whole texts -/

section

variable {lexer : Lexer}

theorem scans_of_tokensFrom {c : Cursor} (hc : Fits c) {ts : List Token}
    (h : lexer.tokensFrom c = .ok ts) : Scans lexer c ts := by
  -- Every match leaves a shorter rest.
  induction hn : c.rest.length using Nat.strong_induction_on generalizing c ts with
  | _ n ih =>
    by_cases hnil : c.rest = []
    · rw [tokensFrom_nil hnil] at h
      obtain rfl := Except.ok.inj h
      exact .done hnil
    · cases hm : munch lexer.table c with
      | error e =>
        rw [tokensFrom_of_error hnil hm] at h
        cases h
      | ok m =>
        have hlt := length_of_munch hm
        rw [tokensFrom_of_munch hc hm] at h
        split at h
        · rename_i hi
          exact .drop hm hi (ih _ (by omega) (hc.next hm) h rfl)
        · rename_i hi
          cases hts' : lexer.tokensFrom m.next with
          | error e =>
            rw [hts'] at h
            cases h
          | ok ts' =>
            rw [hts'] at h
            obtain rfl := Except.ok.inj h
            exact .keep hm (by simpa using hi) (ih _ (by omega) (hc.next hm) hts' rfl)

theorem tokensFrom_of_scans {c : Cursor} (hc : Fits c) {ts : List Token} (h : Scans lexer c ts) :
    lexer.tokensFrom c = .ok ts := by
  induction h with
  | done h => exact tokensFrom_nil h
  | drop hm hi _ ih => rw [tokensFrom_of_munch hc hm, if_pos hi, ih (hc.next hm)]
  | keep hm hi _ ih =>
    rw [tokensFrom_of_munch hc hm, hi, ih (hc.next hm)]
    rfl

/-- The tokens of a text are those of its matches. -/
theorem tokensFrom_eq_ok_iff {c : Cursor} (hc : Fits c) {ts : List Token} :
    lexer.tokensFrom c = .ok ts ↔ Scans lexer c ts :=
  ⟨scans_of_tokensFrom hc, tokensFrom_of_scans hc⟩

theorem Scans.exists_munch {c c' : Cursor} {ts : List Token} (h : Scans lexer c ts)
    (hv : Visits lexer.table c c') (hne : c'.rest ≠ []) : ∃ m, munch lexer.table c' = .ok m := by
  have hstep : ∀ {c : Cursor} {m : Match}, munch lexer.table c = .ok m →
      Visits lexer.table c c' → c' = c ∨ Visits lexer.table m.next c' := by
    intro c m hm hv
    rcases Relation.ReflTransGen.cases_head hv with rfl | ⟨_, ⟨m', hm', rfl⟩, hv⟩
    · exact .inl rfl
    · rw [hm] at hm'
      obtain rfl := Except.ok.inj hm'
      exact .inr hv
  induction h with
  | @done c h =>
    rcases Relation.ReflTransGen.cases_head hv with rfl | ⟨_, ⟨m, hm, -⟩, -⟩
    · exact absurd h hne
    · exact absurd hm (munch_nil h m)
  | drop hm _ _ ih =>
    rcases hstep hm hv with rfl | hv
    · exact ⟨_, hm⟩
    · exact ih hv
  | keep hm _ _ ih =>
    rcases hstep hm hv with rfl | hv
    · exact ⟨_, hm⟩
    · exact ih hv

/-- There are tokens if every cursor that matches lead to has a match or is at the end. -/
theorem exists_scans {c : Cursor}
    (h : ∀ c', Visits lexer.table c c' → c'.rest ≠ [] → ∃ m, munch lexer.table c' = .ok m) :
    ∃ ts, Scans lexer c ts := by
  induction hn : c.rest.length using Nat.strong_induction_on generalizing c with
  | _ n ih =>
    by_cases hnil : c.rest = []
    · exact ⟨[], .done hnil⟩
    · obtain ⟨m, hm⟩ := h c .refl hnil
      have hlt := length_of_munch hm
      obtain ⟨ts, hts⟩ := ih _ (by omega) (fun c' hv => h c' (.head ⟨m, hm, rfl⟩ hv)) rfl
      by_cases hi : lexer.ignored.contains (lexer.tagOf c m) = true
      · exact ⟨ts, .drop hm hi hts⟩
      · exact ⟨_, .keep hm (by simpa using hi) hts⟩

end

end LexerGen.Lexer
