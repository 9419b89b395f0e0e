import LexerGen.Proofs.Lexer.Patterns
import LexerGen.Proofs.Regex.Places
import LexerGen.Proofs.Rules.Derivation

/-! The place in the rule file of an error in a pattern. A body is written with a backslash before
each of its dollar signs, so the part of it before the error is longer in the file by one byte for
each of them, and the place that is reported covers just the character at which the pattern went
wrong, or the backslash before it. -/

namespace LexerGen

open Text

/-! ### Bodies as they are written -/

namespace Rules

open Grammar

/-- The text with `$` in place of each `\$`. -/
def unescaped : List Char → List Char
  | [] => []
  | '\\' :: '$' :: raw => '$' :: unescaped raw
  | x :: raw => x :: unescaped raw

theorem unescaped_cons {x : Char} {raw : List Char} (h : x = '\\' → raw.head? ≠ some '$') :
    unescaped (x :: raw) = x :: unescaped raw := by
  rw [unescaped]
  intro raw' hx hraw
  exact h hx (by rw [hraw]; rfl)

/-- Where the meaning of a body is cut, the body can be cut too: each dollar sign in the first part
takes a byte more. -/
theorem exists_split_of_bodyText {raw before rest : List Char}
    (h : BodyText raw (before ++ rest)) :
    ∃ raw₁ raw₂, raw = raw₁ ++ raw₂ ∧ unescaped raw₁ = before ∧
      byteLength raw₁ = byteLength before + before.count '$' ∧ BodyText raw₂ rest := by
  induction before generalizing raw with
  | nil => exact ⟨[], raw, rfl, rfl, rfl, h⟩
  | cons x before ih =>
    cases h with
    | dollar h =>
      obtain ⟨raw₁, raw₂, rfl, hmeans, hlength, hrest⟩ := ih h
      refine ⟨'\\' :: '$' :: raw₁, raw₂, rfl, by rw [unescaped, hmeans], ?_, hrest⟩
      have hslash : '\\'.utf8Size = 1 := by decide
      have hdollar : '$'.utf8Size = 1 := by decide
      rw [byteLength_cons, byteLength_cons, byteLength_cons, List.count_cons_self]
      omega
    | char hx hslash h =>
      obtain ⟨raw₁, raw₂, rfl, hmeans, hlength, hrest⟩ := ih h
      refine ⟨x :: raw₁, raw₂, rfl, ?_, ?_, hrest⟩
      · rw [unescaped_cons, hmeans]
        intro hx' hhead
        obtain ⟨y, hy, hne⟩ := hslash hx'
        rw [List.head?_append, hhead] at hy
        exact hne (Option.some.inj hy).symm
      · rw [byteLength_cons, byteLength_cons, List.count_cons_of_ne hx]
        omega

/-- What the place of the first character of `rest` covers in the file. -/
def covered : List Char → List Char
  | [] => []
  | x :: _ => if x = '$' then ['\\'] else [x]

theorem byteLength_covered (rest : List Char) :
    byteLength (covered rest) = (rest.head?.map Char.utf8Size).getD 0 := by
  cases rest with
  | nil => rfl
  | cons x rest =>
    rw [covered]
    split
    · rename_i hx
      rw [hx]
      rfl
    · rfl

theorem exists_covered_of_bodyText {raw rest : List Char} (h : BodyText raw rest) :
    ∃ more, raw = covered rest ++ more ∧ (rest = [] → more = []) ∧
      (rest.head? = some '$' → more.head? = some '$') := by
  cases h with
  | nil => exact ⟨[], rfl, fun _ => rfl, by simp⟩
  | @dollar raw text h => exact ⟨'$' :: raw, rfl, by simp, fun _ => rfl⟩
  | @char x raw text hx _ h =>
    refine ⟨raw, by rw [covered, if_neg hx]; rfl, by simp, fun hhead => ?_⟩
    exact absurd (Option.some.inj hhead) hx

/-- The body of `p` is written as `raw` between `pre` and a dollar sign, in a text at byte `pos`. -/
structure Written (pos : Nat) (text pre raw post : List Char) (p : Pattern) : Prop where
  text_eq : text = pre ++ (raw ++ '$' :: post)
  start_eq : p.span.start = pos + byteLength pre
  stop_eq : p.span.stop = pos + byteLength (pre ++ raw)
  means : BodyText raw p.body.toList

/-- A pattern's declaration ends with its body and a dollar sign. -/
theorem exists_written_of_statement {pos : Nat} {t : List Char} {kind : RuleKind}
    (ht : Statement pos t kind) {span : Span} {p : Pattern}
    (hp : Declaration.pattern? ⟨kind, span⟩ = some p) :
    ∃ pre raw, Written pos t pre raw [] p := by
  cases ht with
  | @pattern n g h raw text hn hg hh hstart hbody =>
    obtain rfl := Option.some.inj hp
    refine ⟨n ++ (g ++ ':' :: h), raw, rfl, rfl, ?_, ?_⟩
    · rw [byteLength_append _ raw, Nat.add_assoc]
    · rw [String.toList_ofList]
      exact hbody
  | keywords => cases hp
  | ignore => cases hp
  | userCode => cases hp

theorem Written.append {pos : Nat} {text pre raw post : List Char} {p : Pattern} {s : List Char}
    (h : Written (pos + byteLength s) text pre raw post p) (t : List Char) :
    Written pos (s ++ (text ++ t)) (s ++ pre) raw (post ++ t) p := by
  refine ⟨by simp [h.text_eq], ?_, ?_, h.means⟩
  · rw [h.start_eq, byteLength_append, Nat.add_assoc]
  · rw [h.stop_eq, List.append_assoc, byteLength_append s, Nat.add_assoc]

theorem mem_patterns_cons {d : Declaration} {ds : List Declaration} {p : Pattern} :
    p ∈ patterns (d :: ds) ↔ d.pattern? = some p ∨ p ∈ patterns ds := by
  simp [patterns]

/-- The body of a pattern is written where the pattern says. -/
theorem exists_written_of_file {pos : Nat} {cs : List Char} {ds : List Declaration}
    (h : File pos cs ds) {p : Pattern} (hp : p ∈ patterns ds) :
    ∃ pre raw post, Written pos cs pre raw post p := by
  induction h with
  | done => cases hp
  | @more pos g t rest kind ds hg ht hrest ih =>
    rcases mem_patterns_cons.1 hp with hp | hp
    · obtain ⟨pre, raw, hwritten⟩ := exists_written_of_statement ht hp
      exact ⟨_, _, _, hwritten.append rest⟩
    · obtain ⟨pre, raw, post, hwritten⟩ := ih hp
      rw [Nat.add_assoc, ← byteLength_append] at hwritten
      have hbehind := hwritten.append []
      rw [List.append_nil, List.append_assoc] at hbehind
      exact ⟨_, _, _, hbehind⟩

theorem exists_written_of_parse {source : String} {ds : List Declaration}
    (h : parse source = .ok ds) {p : Pattern} (hp : p ∈ patterns ds) :
    ∃ pre raw post, Written 0 source.toList pre raw post p :=
  exists_written_of_file (file_of_declarationsFrom h) hp

end Rules

/-! ### The place of an error -/

theorem splitAtByte_append (before rest : List Char) :
    splitAtByte (byteLength before) (before ++ rest) = (before, rest) := by
  induction before with
  | nil =>
    cases rest with
    | nil => rfl
    | cons c rest =>
      rw [byteLength_nil, List.nil_append, splitAtByte, if_pos (Char.utf8Size_pos c)]
  | cons c before ih =>
    rw [List.cons_append, splitAtByte, byteLength_cons, if_neg (by omega), Nat.add_sub_cancel_left,
      ih]

/-- The place of the error covers the character behind what means the part before it. -/
theorem Rules.Written.errorSpan_eq {text pre raw more post done rest : List Char} {p : Pattern}
    (h : Written 0 text pre (raw ++ (covered rest ++ more)) post p)
    (htext : byteLength text ≤ maxPosition) (hbody : p.body.toList = done ++ rest)
    (hraw : byteLength raw = byteLength done + done.count '$') :
    p.errorSpan (byteLength done) =
      ⟨byteLength (pre ++ raw), byteLength (pre ++ (raw ++ covered rest))⟩ := by
  have hstart := h.start_eq
  have hstop := h.stop_eq
  have hwidth := byteLength_covered rest
  rw [h.text_eq] at htext
  simp only [byteLength_append] at htext hstop ⊢
  simp only [Pattern.errorSpan, hbody, splitAtByte_append, ← hwidth]
  -- No position exceeds the size of the text, so none wraps around.
  rw [Nat.mod_eq_of_lt (by omega), Nat.mod_eq_of_lt (by omega), Nat.min_eq_left (by omega),
    Nat.min_eq_left (by omega)]
  congr 1 <;> omega

/-! ### The first pattern that fails -/

/-- `p` is the first of the patterns whose body does not compile, and `e` says why. -/
def FirstFailing (ps : List Pattern) (p : Pattern) (e : Regex.Error) : Prop :=
  ∃ before after, ps = before ++ p :: after ∧
    (∀ q ∈ before, ∃ f, Nfa.Fragment.compile q.body.toList = .ok f) ∧
    Nfa.Fragment.compile p.body.toList = .error e

/-- `E` is about the first of the patterns whose body does not compile. -/
def Blames (E : CompileError) (ps : List Pattern) : Prop :=
  ∃ p e, FirstFailing ps p e ∧ E = .pattern p.tag (p.errorSpan e.pos) e

theorem blames_of_fragment {p : Pattern} {priority : Nat} {E : CompileError}
    (h : p.fragment priority = .error E) (ps : List Pattern) : Blames E (p :: ps) := by
  unfold Pattern.fragment at h
  split at h
  · rename_i e he
    exact ⟨p, e, ⟨[], ps, rfl, by simp, he⟩, (Except.error.inj h).symm⟩
  · cases h

theorem Blames.cons {p : Pattern} {priority : Nat} {f : Nfa.Fragment} {ps : List Pattern}
    {E : CompileError} (hp : p.fragment priority = .ok f) (h : Blames E ps) :
    Blames E (p :: ps) := by
  unfold Pattern.fragment at hp
  split at hp
  · cases hp
  · rename_i g hg
    obtain ⟨q, e, ⟨before, after, rfl, hbefore, hq⟩, hE⟩ := h
    exact ⟨q, e, ⟨p :: before, after, rfl, List.forall_mem_cons.2 ⟨⟨g, hg⟩, hbefore⟩, hq⟩, hE⟩

theorem blames_of_joinPatterns {f : Nfa.Fragment} {k : Nat} {ps : List Pattern} {E : CompileError}
    (h : joinPatterns f k ps = .error E) : Blames E ps := by
  induction ps generalizing f k with
  | nil => cases h
  | cons p ps ih =>
    rw [joinPatterns] at h
    split at h
    · rename_i hp
      rw [← Except.error.inj h]
      exact blames_of_fragment hp ps
    · rename_i hp
      exact (ih h).cons hp

theorem blames_of_combine {ps : List Pattern} {E : CompileError} (h : combine ps = .error E)
    (hE : E ≠ .noPatterns) : Blames E ps := by
  cases ps with
  | nil => exact absurd (Except.error.inj h).symm hE
  | cons p ps =>
    rw [combine] at h
    split at h
    · rename_i hp
      rw [← Except.error.inj h]
      exact blames_of_fragment hp ps
    · rename_i hp
      exact (blames_of_joinPatterns h).cons hp

theorem ofSource_eq_pattern_error {source : String} {tag : String} {span : Span}
    {error : Regex.Error} (h : Compiled.ofSource source = .error (.pattern tag span error)) :
    ∃ ds p, Rules.parse source = .ok ds ∧ FirstFailing (patterns ds) p error ∧ tag = p.tag ∧
      span = p.errorSpan error.pos := by
  unfold Compiled.ofSource at h
  split at h
  · cases h
  · rename_i ds hds
    unfold Compiled.ofDeclarations at h
    split at h
    · rename_i E hE
      rw [Except.error.inj h] at hE
      obtain ⟨p, e, hp, heq⟩ := blames_of_combine hE (by simp)
      obtain ⟨rfl, rfl, rfl⟩ := CompileError.pattern.inj heq
      exact ⟨ds, p, hds, hp, rfl, rfl⟩
    · split at h
      · cases h
      · cases h

/-- An error in a pattern of a rule file whose bytes can be counted belongs to the first pattern
that does not compile. It names a byte at which a character of the body starts, or the end of the
body, and its span is the place of that character in the file: what is written before it means the
part of the body before the byte, and the span covers the character as it is written, but of a
dollar sign only the backslash, and nothing at the end. -/
theorem ofSource_pattern_error_place {source : String}
    (hsource : byteLength source.toList ≤ maxPosition) {tag : String} {span : Span}
    {error : Regex.Error} (h : Compiled.ofSource source = .error (.pattern tag span error)) :
    ∃ ds p, Rules.parse source = .ok ds ∧ FirstFailing (patterns ds) p error ∧ tag = p.tag ∧
      ∃ done rest, p.body.toList = done ++ rest ∧ byteLength done = error.pos ∧
      p.span.start ≤ span.start ∧ span.start ≤ span.stop ∧ span.stop ≤ p.span.stop ∧
      ∃ pre raw spot post, source.toList = pre ++ (raw ++ (spot ++ post)) ∧
        byteLength pre = p.span.start ∧ byteLength (pre ++ raw) = span.start ∧
        byteLength (pre ++ (raw ++ spot)) = span.stop ∧ Rules.unescaped raw = done ∧
        (rest = [] → spot = [] ∧ span.stop = p.span.stop) ∧
        (∀ x more, rest = x :: more → x ≠ '$' → spot = [x]) ∧
        (∀ more, rest = '$' :: more → spot = ['\\'] ∧ post.head? = some '$') := by
  obtain ⟨ds, p, hds, hp, htag, hspan⟩ := ofSource_eq_pattern_error h
  refine ⟨ds, p, hds, hp, htag, ?_⟩
  obtain ⟨before, after, hpatterns, -, hcompile⟩ := hp
  obtain ⟨done, rest, hbody, hpos⟩ := Nfa.Fragment.boundary_of_compile_error hcompile
  have hmem : p ∈ patterns ds := by
    rw [hpatterns]
    exact List.mem_append_right _ List.mem_cons_self
  obtain ⟨pre, raw, post, hwritten⟩ := Rules.exists_written_of_parse hds hmem
  have hmeans := hwritten.means
  rw [hbody] at hmeans
  obtain ⟨raw₁, raw₂, rfl, hdone, hlength, hrest⟩ := Rules.exists_split_of_bodyText hmeans
  obtain ⟨more, rfl, hend, hdollar⟩ := Rules.exists_covered_of_bodyText hrest
  have hplace := hwritten.errorSpan_eq hsource hbody hlength
  rw [hpos, ← hspan] at hplace
  subst hplace
  have hstart := hwritten.start_eq
  have hstop := hwritten.stop_eq
  rw [Nat.zero_add] at hstart
  simp only [byteLength_append] at hstop
  refine ⟨done, rest, hbody, hpos, ?_, ?_, ?_, pre, raw₁, Rules.covered rest, more ++ '$' :: post,
    ?_, hstart.symm, rfl, rfl, hdone, ?_, ?_, ?_⟩
  · simp only [byteLength_append]
    omega
  · simp only [byteLength_append]
    omega
  · simp only [byteLength_append]
    omega
  · rw [hwritten.text_eq]
    simp
  · intro hnil
    subst hnil
    rw [hend rfl, byteLength_nil] at hstop
    exact ⟨rfl, by simp only [byteLength_append]; omega⟩
  · intro x rest' heq hx
    rw [heq, Rules.covered, if_neg hx]
  · intro rest' heq
    rw [heq] at hdollar ⊢
    refine ⟨rfl, ?_⟩
    rw [List.head?_append, hdollar rfl]
    rfl

/-- A range of a class whose lower end is a dollar sign, behind a character of two bytes. -/
theorem ofSource_pattern_error_place_dollar : ∃ ds p,
    Compiled.ofSource "A: é[\\$-!]$" =
      .error (.pattern "A" ⟨6, 7⟩ ⟨.invalidClassRange, 3⟩) ∧
    Rules.parse "A: é[\\$-!]$" = .ok ds ∧
    FirstFailing (patterns ds) p ⟨.invalidClassRange, 3⟩ ∧ "A" = p.tag ∧
      ∃ done rest, p.body.toList = done ++ rest ∧ byteLength done = 3 ∧
      ∃ pre raw spot post, "A: é[\\$-!]$".toList = pre ++ (raw ++ (spot ++ post)) ∧
        byteLength pre = p.span.start ∧ byteLength (pre ++ raw) = 6 ∧
        byteLength (pre ++ (raw ++ spot)) = 7 ∧ Rules.unescaped raw = done ∧
        (∀ more, rest = '$' :: more → spot = ['\\'] ∧ post.head? = some '$') := by
  have hcompiled : Compiled.ofSource "A: é[\\$-!]$" =
      .error (.pattern "A" ⟨6, 7⟩ ⟨.invalidClassRange, 3⟩) := by decide +kernel
  obtain ⟨ds, p, hds, hp, htag, done, rest, hbody, hdone, -, -, -, pre, raw, spot, post, htext,
    hpre, hraw, hspot, hmeans, -, -, hdollar⟩ :=
    ofSource_pattern_error_place (by decide +kernel) hcompiled
  exact ⟨ds, p, hcompiled, hds, hp, htag, done, rest, hbody, hdone, pre, raw, spot, post, htext,
    hpre, hraw, hspot, hmeans, hdollar⟩

end LexerGen
