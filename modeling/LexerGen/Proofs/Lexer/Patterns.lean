import LexerGen.Compiled
import LexerGen.Proofs.Nfa.Canonical
import LexerGen.Proofs.Rules.Tags

/-! Patterns joined to one table. The priority of a pattern is its place among the patterns, so a
text gets the tag of the first pattern that matches it. -/

namespace LexerGen

open Nfa

/-- `text` belongs to the language of the pattern's body. -/
def Pattern.Matches (p : Pattern) (text : List Char) : Prop :=
  ∃ r, Regex.parse p.body.toList = .ok r ∧ text ∈ r.language

/-- `tag` is that of the first of the patterns that match `text`. -/
def FirstTag (ps : List Pattern) (text : List Char) (tag : String) : Prop :=
  ∃ (i : Nat) (p : Pattern), ps[i]? = some p ∧ p.Matches text ∧ p.tag = tag ∧
    ∀ (j : Nat) (q : Pattern), j < i → ps[j]? = some q → ¬q.Matches text

theorem FirstTag.unique {ps : List Pattern} {text : List Char} {tag tag' : String}
    (h : FirstTag ps text tag) (h' : FirstTag ps text tag') : tag = tag' := by
  obtain ⟨i, p, hp, hm, rfl, hfirst⟩ := h
  obtain ⟨j, q, hq, hm', rfl, hfirst'⟩ := h'
  rcases Nat.lt_trichotomy i j with hlt | rfl | hlt
  · exact absurd hm (hfirst' i p hlt hp)
  · rw [Option.some.inj (hp.symm.trans hq)]
  · exact absurd hm' (hfirst j q hlt hq)

/-- One of the patterns matches `w`, and `a` is the mark with its tag and its place, where the first
place is `base`. -/
def Ranked (ps : List Pattern) (base : Nat) (w : List Char) (a : Accept) : Prop :=
  ∃ (i : Nat) (p : Pattern), ps[i]? = some p ∧ p.Matches w ∧ a = ⟨p.tag, base + i⟩

theorem ranked_cons {p : Pattern} {ps : List Pattern} {base : Nat} {w : List Char} {a : Accept} :
    Ranked (p :: ps) base w a ↔
      (p.Matches w ∧ a = ⟨p.tag, base⟩) ∨ Ranked ps (base + 1) w a := by
  constructor
  · rintro ⟨i, q, hq, hm, rfl⟩
    cases i with
    | zero =>
      obtain rfl : p = q := by simpa using hq
      exact .inl ⟨hm, rfl⟩
    | succ i => exact .inr ⟨i, q, by simpa using hq, hm, by rw [Nat.add_assoc, Nat.add_comm 1 i]⟩
  · rintro (⟨hm, rfl⟩ | ⟨i, q, hq, hm, rfl⟩)
    · exact ⟨0, p, rfl, hm, rfl⟩
    · exact ⟨i + 1, q, by simpa using hq, hm, by rw [Nat.add_assoc, Nat.add_comm 1 i]⟩

theorem fragment_spec {p : Pattern} {priority : Nat} {f : Fragment}
    (h : p.fragment priority = .ok f) : f.Built ∧
      ∀ w a, f.Accepts w a ↔ p.Matches w ∧ a = ⟨p.tag, priority⟩ := by
  unfold Pattern.fragment at h
  split at h
  · cases h
  · rename_i g hg
    obtain rfl := Except.ok.inj h
    obtain ⟨r, hparse, hproper, hof⟩ := Fragment.compile_spec hg
    refine ⟨(Fragment.Built.compile hg).stamp _ _, fun w a => ?_⟩
    rw [Fragment.accepts_stamp]
    constructor
    · rintro ⟨rfl, b, hb⟩
      exact ⟨⟨r, hparse, ((Fragment.accepts_ofRegex hproper hof w b).1 hb).2⟩, rfl⟩
    · rintro ⟨⟨r', hr', hw⟩, rfl⟩
      obtain rfl := Except.ok.inj (hparse.symm.trans hr')
      exact ⟨rfl, .untagged, (Fragment.accepts_ofRegex hproper hof w _).2 ⟨rfl, hw⟩⟩

theorem joinPatterns_spec {f g : Fragment} {k : Nat} {ps : List Pattern} (hf : f.Built)
    (h : joinPatterns f k ps = .ok g) :
    g.Built ∧ ∀ w a, g.Accepts w a ↔ f.Accepts w a ∨ Ranked ps k w a := by
  induction ps generalizing f k with
  | nil =>
    obtain rfl := Except.ok.inj h
    exact ⟨hf, by simp [Ranked]⟩
  | cons p ps ih =>
    rw [joinPatterns] at h
    split at h
    · cases h
    · rename_i g₁ hg₁
      obtain ⟨hbuilt, haccepts⟩ := fragment_spec hg₁
      obtain ⟨hg, hspec⟩ := ih (hf.union hbuilt) h
      refine ⟨hg, fun w a => ?_⟩
      rw [hspec, Fragment.accepts_union hf.wellFormed hbuilt.wellFormed, haccepts, or_assoc,
        ← ranked_cons]

/-- The joined fragment accepts what the patterns match, with their places as priorities. -/
theorem combine_spec {ps : List Pattern} {f : Fragment} (h : combine ps = .ok f) :
    f.Built ∧ ∀ w a, f.Accepts w a ↔ Ranked ps 0 w a := by
  cases ps with
  | nil => cases h
  | cons p ps =>
    rw [combine] at h
    split at h
    · cases h
    · rename_i f₁ hf₁
      obtain ⟨hbuilt, haccepts⟩ := fragment_spec hf₁
      obtain ⟨hg, hspec⟩ := joinPatterns_spec hbuilt h
      refine ⟨hg, fun w a => ?_⟩
      rw [hspec, haccepts, ranked_cons]

theorem firstTag_of_resolves {ps : List Pattern} {f : Fragment} (h : combine ps = .ok f)
    {w : List Char} {tag : String} (hr : f.Resolves w tag) : FirstTag ps w tag := by
  obtain ⟨-, haccepts⟩ := combine_spec h
  obtain ⟨n, a, hn, ha, rfl, hbest⟩ := hr
  obtain ⟨i, p, hp, hm, rfl⟩ := (haccepts w a).1 ⟨n, hn, ha⟩
  refine ⟨i, p, hp, hm, rfl, fun j q hj hq hm' => ?_⟩
  obtain ⟨m, hm, hb⟩ := (haccepts w ⟨q.tag, 0 + j⟩).2 ⟨j, q, hq, hm', rfl⟩
  have hle := hbest m _ hm hb
  simp only at hle
  omega

theorem exists_resolves_of_matches {ps : List Pattern} {f : Fragment} (h : combine ps = .ok f)
    {i : Nat} {p : Pattern} (hp : ps[i]? = some p) {w : List Char} (hm : p.Matches w) :
    ∃ tag, f.Resolves w tag :=
  Fragment.exists_resolves (((combine_spec h).2 w ⟨p.tag, 0 + i⟩).2 ⟨i, p, hp, hm, rfl⟩)

/-- A text resolves to the tag of the first pattern that matches it. -/
theorem resolves_combine {ps : List Pattern} {f : Fragment} (h : combine ps = .ok f)
    {w : List Char} {tag : String} : f.Resolves w tag ↔ FirstTag ps w tag := by
  refine ⟨firstTag_of_resolves h, fun hfirst => ?_⟩
  have ⟨_, _, hp, hm, _⟩ := hfirst
  obtain ⟨tag', hr⟩ := exists_resolves_of_matches h hp hm
  rwa [hfirst.unique (firstTag_of_resolves h hr)]

/-- Of patterns that match there is a first one. -/
theorem exists_firstTag {ps : List Pattern} {f : Fragment} (h : combine ps = .ok f)
    {w : List Char} : (∃ tag, FirstTag ps w tag) ↔ ∃ p ∈ ps, p.Matches w := by
  constructor
  · rintro ⟨tag, i, p, hp, hm, -⟩
    exact ⟨p, List.mem_of_getElem? hp, hm⟩
  · rintro ⟨p, hp, hm⟩
    obtain ⟨i, hi⟩ := List.mem_iff_getElem?.1 hp
    obtain ⟨tag, hr⟩ := exists_resolves_of_matches h hi hm
    exact ⟨tag, firstTag_of_resolves h hr⟩

/-! ### Compiled rule files -/

/-- The declared patterns in their order. -/
def patterns (ds : List Declaration) : List Pattern := ds.filterMap Declaration.pattern?

theorem Pattern.tag_ne_empty {source : String} {ds : List Declaration}
    (h : Rules.parse source = .ok ds) {p : Pattern} (hp : p ∈ patterns ds) : p.tag ≠ "" := by
  obtain ⟨d, hd, hdp⟩ := List.mem_filterMap.1 hp
  unfold Declaration.pattern? at hdp
  split at hdp
  · rename_i tag body span hkind
    obtain rfl := Option.some.inj hdp
    exact Rules.tagged_of_parse h d hd tag body span hkind
  · cases hdp

theorem ofSource_eq_ok {source : String} {g : Compiled} (h : Compiled.ofSource source = .ok g) :
    ∃ ds f, Rules.parse source = .ok ds ∧ combine (patterns ds) = .ok f ∧
      f.toTable = .ok g.lexer.table ∧
      g.lexer.keywords = StringMap.ofList (ds.flatMap Declaration.keywordEntries) ∧
      g.lexer.ignored = NameSet.ofList (ds.flatMap Declaration.ignoredTags) := by
  unfold Compiled.ofSource at h
  split at h
  · cases h
  · rename_i ds hds
    unfold Compiled.ofDeclarations at h
    split at h
    · cases h
    · rename_i f hf
      split at h
      · cases h
      · rename_i table htable
        obtain rfl := Except.ok.inj h
        exact ⟨ds, f, hds, hf, htable, rfl, rfl⟩

/-- A rule file compiles if its patterns can be joined to an automaton with few enough sets of
states. -/
theorem exists_ofSource {source : String} {ds : List Declaration} {n : Nat}
    (hds : Rules.parse source = .ok ds)
    (hsize : (combine (patterns ds)).map Fragment.size = .ok n)
    (hn : 2 ^ n ≤ Limits.maxDfaStates) :
    ∃ f g, combine (patterns ds) = .ok f ∧ Compiled.ofSource source = .ok g := by
  cases hf : combine (patterns ds) with
  | error e => rw [hf] at hsize; cases hsize
  | ok f =>
    rw [hf] at hsize
    obtain rfl : f.size = n := Except.ok.inj hsize
    obtain ⟨t, ht⟩ := Fragment.exists_toTable (combine_spec hf).1.wellFormed hn
    unfold patterns at hf
    simp only [Compiled.ofSource, hds, Compiled.ofDeclarations, hf, ht]
    exact ⟨f, _, rfl, rfl⟩

end LexerGen
