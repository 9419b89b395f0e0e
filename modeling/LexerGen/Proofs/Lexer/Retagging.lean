import LexerGen.Proofs.Lexer.Scan

/-! Keywords and ignored tags. They are looked at only when a match is complete, so they decide
neither where a text is cut nor where scanning fails: a lexer gives the tokens of its bare table,
with the tags of keywords, and without those that are ignored then. -/

namespace LexerGen

open Text

/-- The token with the tag of its keyword, if its text is one. -/
def Token.retag (keywords : Dictionary) (token : Token) : Token :=
  { token with tag := (keywords.get? token.text).getD token.tag }

namespace Lexer

/-- What keywords and ignored tags make of the tokens of a table. -/
def retagged (keywords : Dictionary) (ignored : NameSet) (ts : List Token) : List Token :=
  (ts.map (Token.retag keywords)).filter fun token => !ignored.contains token.tag

/-- The lexer that knows no keywords and ignores nothing. -/
def plain (table : StateTable) : Lexer := { table }

section

variable {table : StateTable} {keywords : Dictionary} {ignored : NameSet} {c : Cursor} {m : Match}

theorem ignored_plain (tag : String) : (plain table).ignored.contains tag = false := rfl

theorem retag_tokenOf_plain (table : StateTable) (keywords : Dictionary) (ignored : NameSet)
    (c : Cursor) (m : Match) :
    ((plain table).tokenOf c m).retag keywords = tokenOf ⟨table, keywords, ignored⟩ c m := rfl

theorem retagged_cons (ts : List Token) :
    retagged keywords ignored ((plain table).tokenOf c m :: ts) =
      if ignored.contains (tagOf ⟨table, keywords, ignored⟩ c m) then retagged keywords ignored ts
      else tokenOf ⟨table, keywords, ignored⟩ c m :: retagged keywords ignored ts := by
  have htag : (tokenOf ⟨table, keywords, ignored⟩ c m).tag =
      tagOf ⟨table, keywords, ignored⟩ c m := rfl
  rw [retagged, List.map_cons, retag_tokenOf_plain table keywords ignored, List.filter_cons, htag]
  cases ignored.contains (tagOf ⟨table, keywords, ignored⟩ c m) <;> rfl

/-- Where both lexers have a match, they have the same one and go on at the same place. -/
theorem tokensFrom_retagged (hc : Fits c) :
    tokensFrom ⟨table, keywords, ignored⟩ c =
      ((plain table).tokensFrom c).map (retagged keywords ignored) := by
  -- A match leaves a shorter rest, whether its token is given out or not.
  induction hn : c.rest.length using Nat.strong_induction_on generalizing c with
  | _ n ih =>
    by_cases hnil : c.rest = []
    · rw [tokensFrom_nil hnil, tokensFrom_nil hnil]
      rfl
    · cases hm : munch table c with
      | error e => rw [tokensFrom_of_error hnil hm, tokensFrom_of_error hnil hm]; rfl
      | ok m =>
        have hlt := length_of_munch hm
        have hrest := ih _ (by omega) (hc.next hm) rfl
        have hplain : munch (plain table).table c = .ok m := hm
        rw [tokensFrom_of_munch hc hm, tokensFrom_of_munch hc hplain, ignored_plain,
          if_neg Bool.false_ne_true, hrest]
        cases (plain table).tokensFrom m.next with
        | error e => split <;> rfl
        | ok ts =>
          simp only [Except.map, retagged_cons]
          split <;> rfl

end

/-- Keywords and ignored tags change neither the cuts nor the error of a text: they only replace
the tags of tokens that are there without them, and leave out those with ignored tags. -/
theorem tokenize_retagged (table : StateTable) (keywords : Dictionary) (ignored : NameSet)
    {input : String} (hinput : byteLength input.toList ≤ maxPosition) :
    tokenize ⟨table, keywords, ignored⟩ input =
      ((plain table).tokenize input).map (retagged keywords ignored) := by
  refine tokensFrom_retagged ?_
  rw [Fits, Cursor.start, Nat.zero_add]
  exact hinput

/-- The keyword `if` is followed by an ignored blank. -/
theorem tokenize_retagged_keyword :
    byteLength "if x".toList ≤ maxPosition ∧
    tokenize
      ⟨⟨0, #[{ edges := #[⟨⟨' ', ' '⟩, 2⟩, ⟨⟨'a', 'z'⟩, 1⟩] },
          { edges := #[⟨⟨'a', 'z'⟩, 1⟩], tag := some "ID" }, { tag := some "WS" }]⟩,
        .ofList [("if", "IF")], .ofList ["WS"]⟩ "if x" =
      .ok [⟨"IF", "if", ⟨0, 2⟩⟩, ⟨"ID", "x", ⟨3, 4⟩⟩] := by
  have hplain : (plain ⟨0, #[{ edges := #[⟨⟨' ', ' '⟩, 2⟩, ⟨⟨'a', 'z'⟩, 1⟩] },
      { edges := #[⟨⟨'a', 'z'⟩, 1⟩], tag := some "ID" }, { tag := some "WS" }]⟩).tokenize "if x" =
      .ok [⟨"ID", "if", ⟨0, 2⟩⟩, ⟨"WS", " ", ⟨2, 3⟩⟩, ⟨"ID", "x", ⟨3, 4⟩⟩] := by decide +kernel
  have hretagged : retagged (.ofList [("if", "IF")]) (.ofList ["WS"])
      [⟨"ID", "if", ⟨0, 2⟩⟩, ⟨"WS", " ", ⟨2, 3⟩⟩, ⟨"ID", "x", ⟨3, 4⟩⟩] =
      [⟨"IF", "if", ⟨0, 2⟩⟩, ⟨"ID", "x", ⟨3, 4⟩⟩] := by decide +kernel
  have hinput : byteLength "if x".toList ≤ maxPosition := by decide
  refine ⟨hinput, ?_⟩
  rw [tokenize_retagged _ _ _ hinput, hplain, Except.map, hretagged]

end Lexer

end LexerGen
