import LexerGen.Proofs.Lexer.Patterns
import LexerGen.Proofs.Lexer.Scan
import LexerGen.Proofs.StringMap

/-! Lexing as the declarations say it. The text is cut into the longest pieces that some declared
pattern matches; each gets the tag of the first such pattern, or that of the last keyword entry for
it, and is left out if the tag is ignored. A compiled rule file does just that. -/

namespace LexerGen.Reference

open Text Lexer

section

variable (ds : List Declaration)

/-- Some declared pattern matches `text`. -/
def Declared (text : List Char) : Prop := ∃ p ∈ patterns ds, p.Matches text

/-- The tag of the last keyword entry for `text`. -/
def keyword? (text : List Char) : Option String :=
  (ds.flatMap Declaration.keywordEntries).reverse.lookup (String.ofList text)

/-- The tag is in one of the lists of ignored tags. -/
def Ignored (tag : String) : Prop := tag ∈ ds.flatMap Declaration.ignoredTags

/-- The piece at `c` is `text`, which ends at `c'`. -/
structure Piece (c : Cursor) (text : List Char) (c' : Cursor) : Prop where
  longest : Longest (Declared ds) c.rest text
  reads : c.Reads text c'

/-- `tag` is what a piece with the given text is tagged with. -/
def Tagged (text : List Char) (tag : String) : Prop :=
  ∃ first, FirstTag (patterns ds) text first ∧ tag = (keyword? ds text).getD first

/-- The tokens of the pieces from a cursor to the end. -/
inductive Lexes : Cursor → List Token → Prop
  | done {c : Cursor} (h : c.rest = []) : Lexes c []
  | drop {c c' : Cursor} {text : List Char} {tag : String} {ts : List Token}
      (h : Piece ds c text c') (htag : Tagged ds text tag) (hi : Ignored ds tag)
      (rest : Lexes c' ts) : Lexes c ts
  | keep {c c' : Cursor} {text : List Char} {tag : String} {ts : List Token}
      (h : Piece ds c text c') (htag : Tagged ds text tag) (hi : ¬Ignored ds tag)
      (rest : Lexes c' ts) : Lexes c (⟨tag, String.ofList text, ⟨c.pos, c'.pos⟩⟩ :: ts)

/-- Pieces lead from one cursor to the other. -/
def Meets : Cursor → Cursor → Prop :=
  Relation.ReflTransGen fun c c' => ∃ text, Piece ds c text c'

end

theorem Tagged.unique {ds : List Declaration} {text : List Char} {tag tag' : String}
    (h : Tagged ds text tag) (h' : Tagged ds text tag') : tag = tag' := by
  obtain ⟨first, hfirst, rfl⟩ := h
  obtain ⟨first', hfirst', rfl⟩ := h'
  rw [hfirst.unique hfirst']

/-- What compiling a rule file guarantees of the lexer. -/
structure Implements (ds : List Declaration) (lexer : Lexer) : Prop where
  tagFrom? : ∀ w tag, lexer.table.tagFrom? lexer.table.entry w = some tag ↔
    FirstTag (patterns ds) w tag
  accepts : AcceptsFrom lexer.table lexer.table.entry = Declared ds
  tag_ne_empty : ∀ w, lexer.table.tagFrom? lexer.table.entry w ≠ some ""
  keywords : ∀ text, lexer.keywords.get? (String.ofList text) = keyword? ds text
  ignored : ∀ tag, lexer.ignored.contains tag = true ↔ Ignored ds tag

theorem implements_of_ofSource {source : String} {g : Compiled}
    (h : Compiled.ofSource source = .ok g) :
    ∃ ds, Rules.parse source = .ok ds ∧ Implements ds g.lexer := by
  obtain ⟨ds, f, hds, hf, htable, hkeywords, hignored⟩ := ofSource_eq_ok h
  have htag : ∀ w tag, g.lexer.table.tagFrom? g.lexer.table.entry w = some tag ↔
      FirstTag (patterns ds) w tag := by
    intro w tag
    rw [Nfa.Fragment.tagFrom?_toTable htable, resolves_combine hf]
  refine ⟨ds, hds, htag, ?_, fun w hw => ?_, fun text => ?_, fun tag => ?_⟩
  · funext w
    rw [AcceptsFrom, Declared, ← exists_firstTag hf]
    simp only [htag]
  · obtain ⟨i, p, hp, -, hempty, -⟩ := (htag w "").1 hw
    exact Pattern.tag_ne_empty hds (List.mem_of_getElem? hp) hempty
  · rw [hkeywords, StringMap.get?_ofList]
    rfl
  · rw [hignored, NameSet.contains_ofList]
    rfl

section

variable {ds : List Declaration} {lexer : Lexer} (hl : Implements ds lexer) {c c' : Cursor}
include hl

theorem piece_of_munch {m : Match} (h : munch lexer.table c = .ok m) :
    Piece ds c (c.rest.take m.length) m.next ∧
      Tagged ds (c.rest.take m.length) (lexer.tagOf c m) := by
  have hreads := reads_of_munch h
  obtain ⟨text, htext, rfl⟩ := munch_eq_ok_iff.1 h
  have htake : c.rest.take text.length = text := (List.prefix_iff_eq_take.1 htext.starts).symm
  obtain ⟨tag, htag⟩ := htext.accepted
  have hlast : lastTag lexer.table lexer.table.entry "" text = tag :=
    lastTag_eq hl.tag_ne_empty htext.ne_nil htag
  simp only at hreads ⊢
  rw [htake] at hreads ⊢
  refine ⟨⟨hl.accepts ▸ htext, hreads⟩, tag, (hl.tagFrom? text tag).1 htag, ?_⟩
  simp only [tagOf, matched, resolve, htake, hlast, hl.keywords]

theorem munch_of_piece {text : List Char} (h : Piece ds c text c') :
    ∃ m, munch lexer.table c = .ok m ∧ text = c.rest.take m.length ∧ c' = m.next := by
  have hlongest : Longest (AcceptsFrom lexer.table lexer.table.entry) c.rest text := by
    rw [hl.accepts]
    exact h.longest
  refine ⟨_, munch_eq_ok_iff.2 ⟨text, hlongest, rfl⟩, List.prefix_iff_eq_take.1 hlongest.starts, ?_⟩
  have hrest : c'.rest = c.rest.drop text.length := by rw [h.reads.rest, List.drop_left]
  have hpos := h.reads.pos
  cases c'
  simp_all

theorem lexes_of_scans {ts : List Token} (h : Scans lexer c ts) : Lexes ds c ts := by
  induction h with
  | done h => exact .done h
  | drop hm hi _ ih =>
    obtain ⟨hpiece, htag⟩ := piece_of_munch hl hm
    exact .drop hpiece htag ((hl.ignored _).1 hi) ih
  | keep hm hi _ ih =>
    obtain ⟨hpiece, htag⟩ := piece_of_munch hl hm
    have hkeep := Lexes.keep hpiece htag (fun h => by
      rw [(hl.ignored _).2 h] at hi
      cases hi) ih
    rwa [hpiece.reads.pos] at hkeep

theorem scans_of_lexes {ts : List Token} (h : Lexes ds c ts) : Scans lexer c ts := by
  induction h with
  | done h => exact .done h
  | drop hpiece htag hi _ ih =>
    obtain ⟨m, hm, rfl, rfl⟩ := munch_of_piece hl hpiece
    obtain rfl := (piece_of_munch hl hm).2.unique htag
    exact .drop hm ((hl.ignored _).2 hi) ih
  | keep hpiece htag hi _ ih =>
    obtain ⟨m, hm, rfl, rfl⟩ := munch_of_piece hl hpiece
    obtain rfl := (piece_of_munch hl hm).2.unique htag
    have hkeep := Scans.keep hm (Bool.eq_false_iff.2 fun h => hi ((hl.ignored _).1 h)) ih
    rw [tokenOf, matched, ← hpiece.reads.pos] at hkeep
    exact hkeep

theorem visits_iff_meets : Visits lexer.table c c' ↔ Meets ds c c' := by
  have hstep : (fun c c' => ∃ m, munch lexer.table c = .ok m ∧ c' = m.next) =
      fun c c' => ∃ text, Piece ds c text c' := by
    funext c c'
    refine propext ⟨?_, ?_⟩
    · rintro ⟨m, hm, rfl⟩
      exact ⟨_, (piece_of_munch hl hm).1⟩
    · rintro ⟨text, hpiece⟩
      obtain ⟨m, hm, -, hnext⟩ := munch_of_piece hl hpiece
      exact ⟨m, hm, hnext⟩
  rw [Visits, Meets, hstep]

theorem exists_munch_iff : (∃ m, munch lexer.table c = .ok m) ↔
    ∃ text, Longest (Declared ds) c.rest text := by
  constructor
  · rintro ⟨m, hm⟩
    exact ⟨_, (piece_of_munch hl hm).1.longest⟩
  · rintro ⟨text, htext⟩
    rw [← hl.accepts] at htext
    exact ⟨_, munch_eq_ok_iff.2 ⟨text, htext, rfl⟩⟩

end

/-! ### Evaluation

The automaton of the joined patterns decides which texts are declared, and with which tag. -/

instance (ds : List Declaration) (tag : String) : Decidable (Ignored ds tag) :=
  inferInstanceAs (Decidable (tag ∈ ds.flatMap Declaration.ignoredTags))

/-- What a text is tagged with, if the patterns can be joined and one of them matches it. -/
def tag? (ds : List Declaration) (text : List Char) : Option String :=
  match combine (patterns ds) with
  | .error _ => none
  | .ok f => (f.tagAfter? text).map (keyword? ds text).getD

section

variable {ds : List Declaration} {f : Nfa.Fragment} (hf : combine (patterns ds) = .ok f)
  {text : List Char}
include hf

theorem tag?_eq_some_iff {tag : String} : tag? ds text = some tag ↔ Tagged ds text tag := by
  rw [tag?, hf, Tagged, Option.map_eq_some_iff]
  refine exists_congr fun first => ?_
  rw [Nfa.Fragment.tagAfter?_eq_some_iff, resolves_combine hf, @eq_comm _ tag]

theorem declared_iff : Declared ds text ↔ (tag? ds text).isSome = true := by
  rw [tag?, hf, Declared, ← exists_firstTag hf]
  simp only [Option.isSome_map, Option.isSome_iff_exists, Nfa.Fragment.tagAfter?_eq_some_iff,
    resolves_combine hf]

/-- The longest text with a tag is a piece. -/
theorem piece_of_longest {c c' : Cursor}
    (h : Longest (fun w => (tag? ds w).isSome = true) c.rest text) (hreads : c.Reads text c') :
    Piece ds c text c' := by
  have haccepts : (fun w => (tag? ds w).isSome = true) = Declared ds :=
    funext fun w => propext (declared_iff hf).symm
  exact ⟨haccepts ▸ h, hreads⟩

end

/-- A compiled rule file gives the tokens of the declarations, and it gives none exactly if the text
cannot be cut into pieces to its end. -/
theorem tokenize_iff_lexes {source input : String} {g : Compiled}
    (h : Compiled.ofSource source = .ok g) (hinput : byteLength input.toList ≤ maxPosition) :
    ∃ ds, Rules.parse source = .ok ds ∧
      (∀ ts, g.lexer.tokenize input = .ok ts ↔ Lexes ds (.start input.toList) ts) ∧
      ((∃ ts, g.lexer.tokenize input = .ok ts) ↔
        ∀ c, Meets ds (.start input.toList) c → c.rest ≠ [] →
          ∃ text, Longest (Declared ds) c.rest text) := by
  obtain ⟨ds, hds, hl⟩ := implements_of_ofSource h
  have hfits : Fits (.start input.toList) := by
    rw [Fits, Cursor.start, Nat.zero_add]
    exact hinput
  have hscans : ∀ ts, g.lexer.tokenize input = .ok ts ↔ Scans g.lexer (.start input.toList) ts :=
    fun ts => tokensFrom_eq_ok_iff hfits
  refine ⟨ds, hds, fun ts => ?_, ?_⟩
  · rw [hscans]
    exact ⟨lexes_of_scans hl, scans_of_lexes hl⟩
  · simp only [hscans, ← visits_iff_meets hl, ← exists_munch_iff hl]
    exact ⟨fun ⟨ts, hts⟩ c hv hne => hts.exists_munch hv hne, exists_scans⟩

/-- Both `a` and `a(ab)?` match `a`. In `aa;` the second one reads on for a `b` that is not there, and
in `aab` it finds it. -/
theorem tokenize_iff_lexes_rollback : ∃ g,
    Compiled.ofSource "A:a$B:a(ab)?$C:;$[keywords]\x7bJ:aab,K:aab\x7d$[ignore]\x7bC\x7d$" = .ok g ∧
    byteLength "aa;aab".toList ≤ maxPosition ∧
    g.lexer.tokenize "aa;aab" =
      .ok [⟨"A", "a", ⟨0, 1⟩⟩, ⟨"A", "a", ⟨1, 2⟩⟩, ⟨"K", "aab", ⟨3, 6⟩⟩] := by
  have hparse : Rules.parse
      "A:a$B:a(ab)?$C:;$[keywords]\x7bJ:aab,K:aab\x7d$[ignore]\x7bC\x7d$" = .ok
      [⟨.pattern "A" "a" ⟨2, 3⟩, ⟨0, 4⟩⟩, ⟨.pattern "B" "a(ab)?" ⟨6, 12⟩, ⟨4, 13⟩⟩,
        ⟨.pattern "C" ";" ⟨15, 16⟩, ⟨13, 17⟩⟩, ⟨.keywords [("aab", "J"), ("aab", "K")], ⟨17, 41⟩⟩,
        ⟨.ignore ["C"], ⟨41, 53⟩⟩] := by decide +kernel
  obtain ⟨f, g, hf, hg⟩ := exists_ofSource (n := 11) hparse (by decide +kernel) (by decide)
  have hinput : byteLength "aa;aab".toList ≤ maxPosition := by decide
  obtain ⟨ds, hds, htokens, -⟩ := tokenize_iff_lexes hg hinput
  obtain rfl := Except.ok.inj (hparse.symm.trans hds)
  have hfirst : Piece _ ⟨0, ['a', 'a', ';', 'a', 'a', 'b']⟩ ['a'] ⟨1, ['a', ';', 'a', 'a', 'b']⟩ :=
    piece_of_longest hf (by decide +kernel) ⟨rfl, rfl⟩
  have hsecond : Piece _ ⟨1, ['a', ';', 'a', 'a', 'b']⟩ ['a'] ⟨2, [';', 'a', 'a', 'b']⟩ :=
    piece_of_longest hf (by decide +kernel) ⟨rfl, rfl⟩
  have hthird : Piece _ ⟨2, [';', 'a', 'a', 'b']⟩ [';'] ⟨3, ['a', 'a', 'b']⟩ :=
    piece_of_longest hf (by decide +kernel) ⟨rfl, rfl⟩
  have hlast : Piece _ ⟨3, ['a', 'a', 'b']⟩ ['a', 'a', 'b'] ⟨6, []⟩ :=
    piece_of_longest hf (by decide +kernel) ⟨rfl, rfl⟩
  have htag : Tagged _ ['a'] "A" := (tag?_eq_some_iff hf).1 (by decide +kernel)
  have hignored : Tagged _ [';'] "C" := (tag?_eq_some_iff hf).1 (by decide +kernel)
  have hkeyword : Tagged _ ['a', 'a', 'b'] "K" := (tag?_eq_some_iff hf).1 (by decide +kernel)
  exact ⟨g, hg, hinput, (htokens _).2 (.keep hfirst htag (by decide)
    (.keep hsecond htag (by decide) (.drop hthird hignored (by decide)
      (.keep hlast hkeyword (by decide) (.done rfl)))))⟩

end LexerGen.Reference
