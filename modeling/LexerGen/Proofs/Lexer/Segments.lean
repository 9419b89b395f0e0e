import LexerGen.Proofs.Lexer.Retagging
import LexerGen.Table.Checked

/-! Segments. Successive matches cut a text into segments without gaps, each the longest accepted
text at its place. A state with the empty tag accepts too, and leaves a segment the last other tag
that was met on the way to it. The tokens of a text are its segments, with the tags of keywords and
without those that are ignored, whether they are asked for one by one or all at once. -/

namespace LexerGen.Lexer

open Text

/-! ### Tags -/

/-- The run over `u`, a part of `text` from its start that is not empty, ends in a state with `tag`,
which is not empty either. -/
structure Passes (t : StateTable) (state : Nat) (text u : List Char) (tag : String) : Prop where
  ne_nil : u ≠ []
  starts : u <+: text
  tag_eq : t.tagFrom? state u = some tag
  tag_ne : tag ≠ ""

/-- The last tag that the run over `text` passes, or `otherwise` if it passes none. -/
inductive LastPassed (t : StateTable) (state : Nat) (text : List Char) (otherwise : String) :
    String → Prop
  | absent (h : ∀ u tag, ¬Passes t state text u tag) : LastPassed t state text otherwise otherwise
  | found {u : List Char} {tag : String} (h : Passes t state text u tag)
      (last : ∀ v tag', Passes t state text v tag' → v.length ≤ u.length) :
      LastPassed t state text otherwise tag

section

variable {t : StateTable} {state next : Nat} {x : Char} {text v : List Char} {tag : String}

theorem Passes.exists_cons (h : Passes t state (x :: text) v tag) : ∃ u, v = x :: u := by
  cases v with
  | nil => exact absurd rfl h.ne_nil
  | cons y u => exact ⟨u, by rw [(List.cons_prefix_cons.1 h.starts).1]⟩

/-- A tag is passed behind the first character, or later on. -/
theorem passes_cons (hnext : t.next? state x = some next) :
    Passes t state (x :: text) v tag ↔
      (v = [x] ∧ t.tag? next = some tag ∧ tag ≠ "") ∨
        ∃ u, v = x :: u ∧ Passes t next text u tag := by
  constructor
  · intro h
    obtain ⟨u, rfl⟩ := h.exists_cons
    obtain ⟨-, hstarts, htag, hempty⟩ := h
    rw [StateTable.tagFrom?_cons, hnext] at htag
    by_cases hu : u = []
    · subst hu
      exact .inl ⟨rfl, htag, hempty⟩
    · exact .inr ⟨u, rfl, hu, (List.cons_prefix_cons.1 hstarts).2, htag, hempty⟩
  · rintro (⟨rfl, htag, hempty⟩ | ⟨u, rfl, hu⟩)
    · refine ⟨by simp, by simp, ?_, hempty⟩
      rw [StateTable.tagFrom?_cons, hnext]
      exact htag
    · refine ⟨by simp, List.cons_prefix_cons.2 ⟨rfl, hu.starts⟩, ?_, hu.tag_ne⟩
      rw [StateTable.tagFrom?_cons, hnext]
      exact hu.tag_eq

theorem not_passes_cons (hnext : t.next? state x = none) : ¬Passes t state (x :: text) v tag := by
  intro h
  obtain ⟨u, rfl⟩ := h.exists_cons
  exact not_acceptsFrom_cons hnext u ⟨tag, h.tag_eq⟩

/-- The last tag passed behind the first character is the last of all. Where none is passed there,
it is that of the state behind the first character, or none at all. -/
theorem LastPassed.cons {active active' : String} (hnext : t.next? state x = some next)
    (hactive : (active' = active ∧ ∀ tag, t.tag? next = some tag → tag = "") ∨
      (t.tag? next = some active' ∧ active' ≠ ""))
    (h : LastPassed t next text active' tag) : LastPassed t state (x :: text) active tag := by
  cases h with
  | found h last =>
    refine .found ((passes_cons hnext).2 (.inr ⟨_, rfl, h⟩)) fun v tag' hv => ?_
    rcases (passes_cons hnext).1 hv with ⟨rfl, -⟩ | ⟨w, rfl, hw⟩
    · simp
    · simpa using last w tag' hw
  | absent hnone =>
    have hfirst : ∀ v tag', Passes t state (x :: text) v tag' →
        v = [x] ∧ t.tag? next = some tag' ∧ tag' ≠ "" := by
      intro v tag' hv
      exact ((passes_cons hnext).1 hv).resolve_right fun ⟨w, _, hw⟩ => hnone w tag' hw
    rcases hactive with ⟨rfl, hempty⟩ | hactive
    · refine .absent fun v tag' hv => ?_
      obtain ⟨-, htag, hne⟩ := hfirst v tag' hv
      exact hne (hempty tag' htag)
    · refine .found ((passes_cons hnext).2 (.inl ⟨rfl, hactive⟩)) fun v tag' hv => ?_
      rw [(hfirst v tag' hv).1]

theorem lastPassed_lastTag (t : StateTable) (state : Nat) (active : String) (text : List Char) :
    LastPassed t state text active (lastTag t state active text) := by
  induction text generalizing state active with
  | nil => exact .absent fun u tag h => h.ne_nil (List.prefix_nil.1 h.starts)
  | cons x text ih =>
    rw [lastTag]
    cases hnext : t.next? state x with
    | none => exact .absent fun u tag => not_passes_cons hnext
    | some next =>
      cases htag : t.tag? next with
      | none =>
        simp only [htag]
        exact .cons hnext (.inl ⟨rfl, by simp [htag]⟩) (ih next active)
      | some tag =>
        simp only [htag]
        by_cases hempty : tag = ""
        · rw [if_pos hempty]
          exact .cons hnext (.inl ⟨rfl, by simp [htag, hempty]⟩) (ih next active)
        · rw [if_neg hempty]
          exact .cons hnext (.inr ⟨htag, hempty⟩) (ih next tag)

end

/-! ### Segments -/

/-- A part of a text that a match cuts off, with the tag that the table gives it. -/
structure Segment where
  start : Nat
  text : List Char
  tag : String
deriving Repr, DecidableEq

/-- The segment of a match at `c`. -/
def Segment.ofMatch (c : Cursor) (m : Match) : Segment := ⟨c.pos, c.rest.take m.length, m.tag⟩

/-- The token of a segment, before any look at the keywords. -/
def Segment.token (s : Segment) : Token :=
  ⟨s.tag, String.ofList s.text, ⟨s.start, s.start + byteLength s.text⟩⟩

/-- The text that the segments cover. -/
def covered (ss : List Segment) : List Char := ss.flatMap Segment.text

/-- The segments of the matches that lead from one cursor to another. -/
inductive Segments (t : StateTable) : Cursor → List Segment → Cursor → Prop
  | nil (c : Cursor) : Segments t c [] c
  | cons {c c' : Cursor} {m : Match} {ss : List Segment} (hm : munch t c = .ok m)
      (rest : Segments t m.next ss c') : Segments t c (.ofMatch c m :: ss) c'

/-- `s` starts at byte `pos` of a text that goes on with `rest` there, is the longest accepted part
of it, and has the last tag that is passed. -/
structure Segment.IsLongest (t : StateTable) (pos : Nat) (rest : List Char) (s : Segment) :
    Prop where
  start_eq : s.start = pos
  longest : Longest (AcceptsFrom t t.entry) rest s.text
  tag_last : LastPassed t t.entry s.text "" s.tag

theorem token_ofMatch (t : StateTable) (c : Cursor) (m : Match) :
    (Segment.ofMatch c m).token = (plain t).tokenOf c m := rfl

theorem isLongest_of_munch {t : StateTable} {c : Cursor} {m : Match} (h : munch t c = .ok m) :
    (Segment.ofMatch c m).IsLongest t c.pos c.rest := by
  obtain ⟨text, htext, rfl⟩ := munch_eq_ok_iff.1 h
  have htake : c.rest.take text.length = text := (List.prefix_iff_eq_take.1 htext.starts).symm
  refine ⟨rfl, ?_, ?_⟩
  · simpa only [Segment.ofMatch, htake] using htext
  · simpa only [Segment.ofMatch, htake] using lastPassed_lastTag t t.entry "" text

namespace Segments

variable {t : StateTable} {c c' : Cursor} {ss : List Segment}

theorem reads (h : Segments t c ss c') : c.Reads (covered ss) c' := by
  induction h with
  | nil c => exact .refl c
  | cons hm _ ih => exact (reads_of_munch hm).trans ih

theorem rest_eq_nil_iff {input : List Char} (h : Segments t (.start input) ss c') :
    c'.rest = [] ↔ covered ss = input := by
  have hrest : input = covered ss ++ c'.rest := h.reads.rest
  constructor
  · intro hnil
    rw [hrest, hnil, List.append_nil]
  · intro hcovered
    rw [hcovered] at hrest
    exact List.self_eq_append_right.1 hrest

/-- Each segment starts where the segments before it end. -/
theorem isLongest (h : Segments t c ss c') {before after : List Segment} {s : Segment}
    (hss : ss = before ++ s :: after) :
    s.IsLongest t (c.pos + byteLength (covered before))
      (s.text ++ (covered after ++ c'.rest)) := by
  induction h generalizing before with
  | nil c => simp at hss
  | @cons c c' m ss hm rest ih =>
    cases before with
    | nil =>
      obtain ⟨rfl, rfl⟩ := List.cons.inj hss
      have hreads := (reads_of_munch hm).trans rest.reads
      have hlongest := isLongest_of_munch hm
      rw [hreads.rest, List.append_assoc] at hlongest
      exact hlongest
    | cons first before =>
      obtain ⟨rfl, htail⟩ := List.cons.inj hss
      have hlongest := ih htail
      rw [(reads_of_munch hm).pos, Nat.add_assoc, ← byteLength_append] at hlongest
      exact hlongest

end Segments

theorem visits_iff_segments {t : StateTable} {c c' : Cursor} :
    Visits t c c' ↔ ∃ ss, Segments t c ss c' := by
  constructor
  · intro h
    induction h using Relation.ReflTransGen.head_induction_on with
    | refl => exact ⟨[], .nil c'⟩
    | head hm _ ih =>
      obtain ⟨m, hm, rfl⟩ := hm
      obtain ⟨ss, hss⟩ := ih
      exact ⟨_, .cons hm hss⟩
  · rintro ⟨ss, h⟩
    induction h with
    | nil c => exact .refl
    | cons hm _ ih => exact .head ⟨_, hm, rfl⟩ ih

theorem exists_munch_or_noneAccepted (t : StateTable) (c : Cursor) :
    (∃ m, munch t c = .ok m) ∨ NoneAccepted (AcceptsFrom t t.entry) c.rest :=
  (exists_longest _ c.rest).symm.imp_left fun ⟨text, htext⟩ =>
    ⟨_, munch_eq_ok_iff.2 ⟨text, htext, rfl⟩⟩

/-! ### Tokens -/

/-- The text of the token stands in `input` at its span. -/
def Occurs (input : List Char) (token : Token) : Prop :=
  ∃ before after, input = before ++ (token.text.toList ++ after) ∧
    token.span = ⟨byteLength before, byteLength before + byteLength token.text.toList⟩

theorem occurs_tokenOf {lexer : Lexer} {input : List Char} {c : Cursor} {m : Match}
    (hv : Visits lexer.table (.start input) c) (hm : munch lexer.table c = .ok m) :
    Occurs input (lexer.tokenOf c m) := by
  obtain ⟨ss, hss⟩ := visits_iff_segments.1 hv
  have hreads := hss.reads
  have hpos : c.pos = byteLength (covered ss) := by
    rw [hreads.pos]
    exact Nat.zero_add _
  refine ⟨covered ss, m.next.rest, ?_, ?_⟩
  · rw [tokenOf, matched, String.toList_ofList, ← (reads_of_munch hm).rest]
    exact hreads.rest
  · rw [tokenOf, matched, String.toList_ofList, hpos]

theorem nextToken?_eq_ok {lexer : Lexer} {c c' : Cursor} {token : Token}
    (h : lexer.nextToken? c = some (.ok (token, c'))) :
    ∃ c₁ m, Visits lexer.table c c₁ ∧ munch lexer.table c₁ = .ok m ∧ c' = m.next ∧
      token = lexer.tokenOf c₁ m := by
  fun_induction nextToken? lexer c with
  | case1 => cases h
  | case2 => simp at h
  | case3 c _ _ _ m hm _ _ _ _ ih =>
    obtain ⟨c₁, m₁, hv, hrest⟩ := ih h
    exact ⟨c₁, m₁, .head ⟨m, hm, rfl⟩ hv, hrest⟩
  | case4 => simp at h
  | case5 c _ _ _ m hm text tag hi token' htoken =>
    obtain ⟨rfl, rfl⟩ := Prod.mk.inj (Except.ok.inj (Option.some.inj h))
    refine ⟨c, m, .refl, hm, rfl, ?_⟩
    unfold Token.at at htoken
    simp only at htoken
    split at htoken
    · cases htoken
    · rw [← Except.ok.inj htoken, tokenOf, tagOf, matched, String.toList_ofList]

theorem Scans.exists_tokenOf {lexer : Lexer} {c : Cursor} {ts : List Token} (h : Scans lexer c ts)
    {token : Token} (htoken : token ∈ ts) :
    ∃ c₁ m, Visits lexer.table c c₁ ∧ munch lexer.table c₁ = .ok m ∧
      token = lexer.tokenOf c₁ m := by
  induction h with
  | done => simp at htoken
  | drop hm _ _ ih =>
    obtain ⟨c₁, m₁, hv, hrest⟩ := ih htoken
    exact ⟨c₁, m₁, .head ⟨_, hm, rfl⟩ hv, hrest⟩
  | @keep c m ts hm _ _ ih =>
    rcases List.mem_cons.1 htoken with rfl | htoken
    · exact ⟨c, m, .refl, hm, rfl⟩
    · obtain ⟨c₁, m₁, hv, hrest⟩ := ih htoken
      exact ⟨c₁, m₁, .head ⟨_, hm, rfl⟩ hv, hrest⟩

theorem Scans.exists_segments {lexer : Lexer} {c : Cursor} {ts : List Token}
    (h : Scans lexer c ts) : ∃ ss c', Segments lexer.table c ss c' ∧ c'.rest = [] ∧
      ts = retagged lexer.keywords lexer.ignored (ss.map Segment.token) := by
  induction h with
  | @done c h => exact ⟨[], c, .nil c, h, rfl⟩
  | @drop c m ts hm hi _ ih =>
    obtain ⟨ss, c', hss, hc', rfl⟩ := ih
    refine ⟨_, c', .cons hm hss, hc', ?_⟩
    rw [List.map_cons, token_ofMatch lexer.table, retagged_cons, if_pos hi]
  | @keep c m ts hm hi _ ih =>
    obtain ⟨ss, c', hss, hc', rfl⟩ := ih
    refine ⟨_, c', .cons hm hss, hc', ?_⟩
    rw [List.map_cons, token_ofMatch lexer.table, retagged_cons, if_neg (by simpa using hi)]

theorem Segments.scans {lexer : Lexer} {c c' : Cursor} {ss : List Segment}
    (h : Segments lexer.table c ss c') (hc' : c'.rest = []) :
    Scans lexer c (retagged lexer.keywords lexer.ignored (ss.map Segment.token)) := by
  induction h with
  | nil c => exact .done hc'
  | @cons c c' m ss hm _ ih =>
    rw [List.map_cons, token_ofMatch lexer.table, retagged_cons]
    split
    · rename_i hi
      exact .drop hm hi (ih hc')
    · rename_i hi
      exact .keep hm (by simpa using hi) (ih hc')

/-- The tokens of a scan are those of the segments to the end, retagged and without the ignored
ones. -/
theorem scans_iff_segments {lexer : Lexer} {c : Cursor} {ts : List Token} :
    Scans lexer c ts ↔ ∃ ss c', Segments lexer.table c ss c' ∧ c'.rest = [] ∧
      ts = retagged lexer.keywords lexer.ignored (ss.map Segment.token) := by
  constructor
  · exact Scans.exists_segments
  · rintro ⟨ss, c', hss, hc', rfl⟩
    exact hss.scans hc'

/-! ### Streams -/

/-- The stream behind the first `n` tokens. -/
def streamAfter (lexer : Lexer) (input : String) (n : Nat) : TokenStream :=
  (fun s => (TokenStream.next? lexer s).2)^[n] (.ofString input)

/-- The token is given out, by a stream or with all others at once. -/
def Emits (lexer : Lexer) (input : String) (token : Token) : Prop :=
  (∃ n, (TokenStream.next? lexer (lexer.streamAfter input n)).1 = some (.ok token)) ∨
    ∃ ts, lexer.tokenize input = .ok ts ∧ token ∈ ts

theorem nextToken?_of_next? {lexer : Lexer} {s : TokenStream} {token : Token}
    (h : (TokenStream.next? lexer s).1 = some (.ok token)) :
    ∃ c', lexer.nextToken? s.cursor = some (.ok (token, c')) := by
  unfold TokenStream.next? at h
  split at h
  · cases h
  · split at h
    · cases h
    · cases h
    · rename_i token' c' hnext
      obtain rfl := Except.ok.inj (Option.some.inj h)
      exact ⟨c', hnext⟩

theorem next?_of_finished {lexer : Lexer} {s : TokenStream} (hs : s.finished = true) :
    TokenStream.next? lexer s = (none, s) := by
  rw [TokenStream.next?, if_pos hs]

/-- A stream gives out the first of the tokens and goes on with the others, or it is finished. -/
theorem next?_of_tokensFrom {lexer : Lexer} {s : TokenStream} (hs : s.finished = false)
    {ts : List Token} (h : lexer.tokensFrom s.cursor = .ok ts) :
    (ts = [] ∧ TokenStream.next? lexer s = (none, { s with finished := true })) ∨
      ∃ token ts' c', ts = token :: ts' ∧ lexer.tokensFrom c' = .ok ts' ∧
        TokenStream.next? lexer s = (some (.ok token), { s with cursor := c' }) := by
  rw [TokenStream.next?, if_neg (by simp [hs])]
  rw [tokensFrom_eq] at h
  cases hnext : lexer.nextToken? s.cursor with
  | none =>
    rw [hnext] at h
    obtain rfl := Except.ok.inj h
    exact .inl ⟨rfl, rfl⟩
  | some r =>
    rw [hnext] at h
    cases r with
    | error e => cases h
    | ok p =>
      obtain ⟨token, c'⟩ := p
      simp only at h
      cases hts' : lexer.tokensFrom c' with
      | error e =>
        rw [hts'] at h
        cases h
      | ok ts' =>
        rw [hts'] at h
        obtain rfl := Except.ok.inj h
        exact .inr ⟨token, ts', c', rfl, hts', rfl⟩

/-- A stream gives out the tokens one after the other, and nothing behind the last one. -/
theorem next?_iterate {lexer : Lexer} {s : TokenStream} (hs : s.finished = false) {ts : List Token}
    (h : lexer.tokensFrom s.cursor = .ok ts) (n : Nat) :
    (TokenStream.next? lexer ((fun s => (TokenStream.next? lexer s).2)^[n] s)).1 =
      ts[n]?.map .ok := by
  induction n generalizing s ts with
  | zero =>
    rcases next?_of_tokensFrom hs h with ⟨rfl, hnext⟩ | ⟨token, ts', c', rfl, -, hnext⟩ <;>
      simp [hnext]
  | succ n ih =>
    rw [Function.iterate_succ_apply]
    rcases next?_of_tokensFrom hs h with ⟨rfl, hnext⟩ | ⟨token, ts', c', rfl, hts', hnext⟩
    · have hfixed : (TokenStream.next? lexer { s with finished := true }).2 =
          { s with finished := true } := by rw [next?_of_finished rfl]
      rw [hnext, Function.iterate_fixed hfixed, next?_of_finished rfl]
      rfl
    · have hs' : { s with cursor := c' }.finished = false := hs
      rw [hnext]
      exact ih hs' hts'

/-- A stream only ever stands where matches lead. -/
theorem visits_next? (lexer : Lexer) (s : TokenStream) :
    Visits lexer.table s.cursor (TokenStream.next? lexer s).2.cursor := by
  unfold TokenStream.next?
  split
  · exact .refl
  · split
    · exact .refl
    · exact .refl
    · rename_i token c' hnext
      obtain ⟨c₁, m, hv, hm, rfl, -⟩ := nextToken?_eq_ok hnext
      exact hv.tail ⟨m, hm, rfl⟩

theorem visits_streamAfter (lexer : Lexer) (input : String) (n : Nat) :
    Visits lexer.table (.start input.toList) (lexer.streamAfter input n).cursor := by
  induction n with
  | zero => exact .refl
  | succ n ih =>
    rw [streamAfter, Function.iterate_succ_apply']
    exact ih.trans (visits_next? lexer _)

section

variable {lexer : Lexer} {input : String} (hinput : byteLength input.toList ≤ maxPosition)
include hinput

theorem tokenize_eq_ok_iff_scans {ts : List Token} :
    lexer.tokenize input = .ok ts ↔ Scans lexer (.start input.toList) ts := by
  refine tokensFrom_eq_ok_iff ?_
  rw [Fits, Cursor.start, Nat.zero_add]
  exact hinput

theorem Emits.occurs {token : Token} (h : lexer.Emits input token) : Occurs input.toList token := by
  rcases h with ⟨n, hn⟩ | ⟨ts, hts, htoken⟩
  · obtain ⟨c', hnext⟩ := nextToken?_of_next? hn
    obtain ⟨c₁, m, hv, hm, -, rfl⟩ := nextToken?_eq_ok hnext
    exact occurs_tokenOf ((visits_streamAfter lexer input n).trans hv) hm
  · obtain ⟨c₁, m, hv, hm, rfl⟩ :=
      ((tokenize_eq_ok_iff_scans hinput).1 hts).exists_tokenOf htoken
    exact occurs_tokenOf hv hm

theorem exists_tokens_iff : (∃ ts, lexer.tokenize input = .ok ts) ↔
    ∀ c, Visits lexer.table (.start input.toList) c → c.rest ≠ [] →
      ∃ m, munch lexer.table c = .ok m := by
  simp only [tokenize_eq_ok_iff_scans hinput]
  exact ⟨fun ⟨ts, hts⟩ c hv hne => hts.exists_munch hv hne, exists_scans⟩

end

/-- Successive matches cut a text from its start on into segments without gaps, each the longest
accepted text at its place and with the last tag passed in it. The tokens of a text are those of
segments that cover it, retagged and without the ignored ones, and a stream gives out the same
ones. Every token given out stands at its span, and a text has no tokens exactly if some segment
leaves a rest that no accepted text starts. -/
theorem tokenize_maximal_munch (lexer : Lexer) {input : String}
    (hinput : byteLength input.toList ≤ maxPosition) :
    (∀ ss c, Segments lexer.table (.start input.toList) ss c →
      input.toList = covered ss ++ c.rest ∧
      ∀ before s after, ss = before ++ s :: after →
        s.IsLongest lexer.table (byteLength (covered before))
          (s.text ++ (covered after ++ c.rest))) ∧
    (∀ ts, lexer.tokenize input = .ok ts ↔
      ∃ ss c, Segments lexer.table (.start input.toList) ss c ∧ covered ss = input.toList ∧
        ts = retagged lexer.keywords lexer.ignored (ss.map Segment.token)) ∧
    (∀ ts, lexer.tokenize input = .ok ts →
      ∀ n, (TokenStream.next? lexer (lexer.streamAfter input n)).1 = ts[n]?.map .ok) ∧
    (∀ token, lexer.Emits input token → Occurs input.toList token) ∧
    ((∃ e, lexer.tokenize input = .error e) ↔
      ∃ ss c, Segments lexer.table (.start input.toList) ss c ∧ c.rest ≠ [] ∧
        NoneAccepted (AcceptsFrom lexer.table lexer.table.entry) c.rest) := by
  refine ⟨fun ss c h => ⟨h.reads.rest, fun before s after hss => ?_⟩, fun ts => ?_,
    fun ts hts => next?_iterate rfl hts, fun token h => h.occurs hinput, ?_⟩
  · simpa only [Cursor.start, Nat.zero_add] using h.isLongest hss
  · rw [tokenize_eq_ok_iff_scans hinput, scans_iff_segments]
    exact exists_congr fun ss => exists_congr fun c => and_congr_right fun h =>
      and_congr_left fun _ => h.rest_eq_nil_iff
  · have hfails : (∃ e, lexer.tokenize input = .error e) ↔
        ¬∃ ts, lexer.tokenize input = .ok ts := by
      cases lexer.tokenize input <;> simp
    rw [hfails, exists_tokens_iff hinput]
    push Not
    constructor
    · rintro ⟨c, hv, hne, hnone⟩
      obtain ⟨ss, hss⟩ := visits_iff_segments.1 hv
      refine ⟨ss, c, hss, hne, ?_⟩
      exact (exists_munch_or_noneAccepted lexer.table c).resolve_left (not_exists.2 hnone)
    · rintro ⟨ss, c, hss, hne, hnone⟩
      refine ⟨c, visits_iff_segments.2 ⟨ss, hss⟩, hne, fun m hm => ?_⟩
      obtain ⟨e, he⟩ := munch_eq_error hnone
      rw [he] at hm
      cases hm

/-- The state behind `ab` has the empty tag, the one behind `abc` leads nowhere, and `a` is a
keyword. -/
theorem tokenize_maximal_munch_untagged : ∃ t,
    StateTable.ofParts 0 [[⟨⟨'a', 'a'⟩, 1⟩], [⟨⟨'b', 'b'⟩, 2⟩], [⟨⟨'c', 'c'⟩, 3⟩], []]
      [(1, "A"), (2, "")] = .ok t ∧
    byteLength "aba".toList ≤ maxPosition ∧
    (Lexer.mk t (.ofList [("a", "K")]) .empty).tokenize "aba" =
      .ok [⟨"A", "ab", ⟨0, 2⟩⟩, ⟨"K", "a", ⟨2, 3⟩⟩] ∧
    ∃ ss c, Segments t (.start "aba".toList) ss c ∧ covered ss = "aba".toList ∧
      [⟨"A", "ab", ⟨0, 2⟩⟩, ⟨"K", "a", ⟨2, 3⟩⟩] =
        retagged (.ofList [("a", "K")]) .empty (ss.map Segment.token) := by
  have htable : StateTable.ofParts 0
      [[⟨⟨'a', 'a'⟩, 1⟩], [⟨⟨'b', 'b'⟩, 2⟩], [⟨⟨'c', 'c'⟩, 3⟩], []] [(1, "A"), (2, "")] =
      .ok ⟨0, #[{ edges := #[⟨⟨'a', 'a'⟩, 1⟩] }, { edges := #[⟨⟨'b', 'b'⟩, 2⟩], tag := some "A" },
        { edges := #[⟨⟨'c', 'c'⟩, 3⟩], tag := some "" }, {}]⟩ := by decide
  have htokens : (Lexer.mk ⟨0, #[{ edges := #[⟨⟨'a', 'a'⟩, 1⟩] },
      { edges := #[⟨⟨'b', 'b'⟩, 2⟩], tag := some "A" },
      { edges := #[⟨⟨'c', 'c'⟩, 3⟩], tag := some "" }, {}]⟩
      (.ofList [("a", "K")]) .empty).tokenize "aba" =
      .ok [⟨"A", "ab", ⟨0, 2⟩⟩, ⟨"K", "a", ⟨2, 3⟩⟩] := by decide +kernel
  exact ⟨_, htable, by decide, htokens,
    ((tokenize_maximal_munch _ (by decide)).2.1 _).1 htokens⟩

end LexerGen.Lexer
