import LexerGen.Proofs.Lexer.Reference
import LexerGen.Proofs.Lexer.Segments
import LexerGen.Proofs.Rules.TagNames

/-! The tags of tokens. A token has the tag of a pattern or that of a keyword, and both are names,
whatever the text of the token is. -/

namespace LexerGen

open Text Lexer Rules.Grammar

theorem Lexer.exists_tokenOf_of_mem {lexer : Lexer} {c : Cursor} {ts : List Token}
    (h : lexer.tokensFrom c = .ok ts) {t : Token} (ht : t ∈ ts) :
    ∃ c₁ m, munch lexer.table c₁ = .ok m ∧ t = lexer.tokenOf c₁ m := by
  fun_induction tokensFrom lexer c generalizing ts with
  | case1 =>
    obtain rfl := Except.ok.inj h
    cases ht
  | case2 => cases h
  | case3 => cases h
  | case4 c t' c' hnext _ ts' hts' ih =>
    obtain rfl := Except.ok.inj h
    rcases List.mem_cons.1 ht with rfl | ht
    · obtain ⟨c₁, m, -, hm, -, htoken⟩ := nextToken?_eq_ok hnext
      exact ⟨c₁, m, hm, htoken⟩
    · exact ih hts' ht

namespace Reference

/-- What the declarations of a file tag a text with is a name. -/
theorem Tagged.name {source : String} {ds : List Declaration} (hds : Rules.parse source = .ok ds)
    {text : List Char} {tag : String} (h : Tagged ds text tag) : Name tag.toList := by
  obtain ⟨first, ⟨i, p, hp, -, rfl, -⟩, rfl⟩ := h
  cases hkeyword : keyword? ds text with
  | none =>
    obtain ⟨d, hd, hdp⟩ := List.mem_filterMap.1 (List.mem_of_getElem? hp)
    exact Rules.name_of_mem_tags hds hd (Declaration.tag_mem_of_pattern? hdp)
  | some tag =>
    obtain ⟨before, behind, hentries, -⟩ := List.lookup_eq_some_iff.1 hkeyword
    have hmem : (String.ofList text, tag) ∈ ds.flatMap Declaration.keywordEntries := by
      rw [← List.mem_reverse, hentries]
      exact List.mem_append_right _ List.mem_cons_self
    obtain ⟨d, hd, hde⟩ := List.mem_flatMap.1 hmem
    exact Rules.name_of_mem_tags hds hd (Declaration.tag_mem_of_keywordEntries hde)

/-- The lexer of a rule file gives tokens whose tags are names. -/
theorem name_of_mem_tokens {source : String} {g : Compiled} (hg : Compiled.ofSource source = .ok g)
    {c : Cursor} {ts : List Token} (h : g.lexer.tokensFrom c = .ok ts) {t : Token} (ht : t ∈ ts) :
    Name t.tag.toList := by
  obtain ⟨ds, hds, hl⟩ := implements_of_ofSource hg
  obtain ⟨c₁, m, hm, rfl⟩ := exists_tokenOf_of_mem h ht
  exact (piece_of_munch hl hm).2.name hds

end Reference

end LexerGen
