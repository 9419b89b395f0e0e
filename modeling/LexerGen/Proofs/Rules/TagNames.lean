import LexerGen.Compiled
import LexerGen.Proofs.Rules.Derivation

/-! The tags of a rule file are names: wherever a declaration has a tag, its characters are letters,
digits and underscores, so it holds neither blanks nor line breaks. -/

namespace LexerGen

namespace RuleKind

/-- The tags that stand in a declaration. -/
def tags : RuleKind → List String
  | pattern tag _ _ => [tag]
  | keywords entries => entries.map Prod.snd
  | ignore tags => tags
  | userCode tag _ => [tag]
  | endOfFile => []

end RuleKind

namespace Rules

open Text Grammar

/-- A name holds only the characters of names. -/
theorem Grammar.Run.not_mem {cs : List Char} (h : Name cs) {x : Char}
    (hx : isNameChar x = false) : x ∉ cs := by
  have hne : ∀ {y : Char}, isNameChar y = true → x ≠ y := by
    rintro y hy rfl
    rw [hx] at hy
    cases hy
  cases h with
  | intro hfirst hmore =>
    intro hmem
    rcases List.mem_cons.1 hmem with heq | hmem
    · exact hne (isNameChar_of_isNameStart hfirst) heq
    · exact hne (hmore x hmem) rfl

section

variable {α : Type} {label : List Char} {entry : List Char → α → Prop} {t : List Char} {as : List α}
  {a : α}

theorem Grammar.Entries.exists_entry (h : Entries entry t as) (ha : a ∈ as) : ∃ s, entry s a := by
  induction h with
  | nil => cases ha
  | @last _ s _ _ _ hs _ =>
    obtain rfl := List.mem_singleton.1 ha
    exact ⟨s, hs⟩
  | @more _ s _ _ _ _ _ hs _ _ ih =>
    rcases List.mem_cons.1 ha with rfl | ha
    · exact ⟨s, hs⟩
    · exact ih ha

theorem Grammar.Block.exists_entry (h : Block label entry t as) (ha : a ∈ as) :
    ∃ s, entry s a := by
  cases h with
  | intro _ _ _ ht _ => exact ht.exists_entry ha

end

/-- Wherever the grammar of a declaration has a tag, it has a name. -/
theorem Grammar.Statement.name_of_mem_tags {pos : Nat} {t : List Char} {kind : RuleKind}
    (h : Statement pos t kind) {tag : String} (htag : tag ∈ kind.tags) : Name tag.toList := by
  cases h with
  | pattern hn =>
    obtain rfl := List.mem_singleton.1 htag
    rwa [String.toList_ofList]
  | keywords h =>
    obtain ⟨e, he, rfl⟩ := List.mem_map.1 htag
    obtain ⟨s, hs⟩ := h.exists_entry he
    cases hs with
    | intro hn => rwa [String.toList_ofList]
  | ignore h =>
    obtain ⟨s, hs⟩ := h.exists_entry htag
    cases hs with
    | intro hn => rwa [String.toList_ofList]
  | userCode _ _ _ hn =>
    obtain rfl := List.mem_singleton.1 htag
    rwa [String.toList_ofList]

theorem Grammar.File.name_of_mem_tags {pos : Nat} {cs : List Char} {ds : List Declaration}
    (h : File pos cs ds) {d : Declaration} (hd : d ∈ ds) {tag : String}
    (htag : tag ∈ d.kind.tags) : Name tag.toList := by
  induction h with
  | done => cases hd
  | more _ ht _ ih =>
    rcases List.mem_cons.1 hd with rfl | hd
    · exact ht.name_of_mem_tags htag
    · exact ih hd

/-- The tags of a rule file are names. -/
theorem name_of_mem_tags {source : String} {ds : List Declaration} (h : parse source = .ok ds)
    {d : Declaration} (hd : d ∈ ds) {tag : String} (htag : tag ∈ d.kind.tags) : Name tag.toList :=
  (file_of_declarationsFrom h).name_of_mem_tags hd htag

end Rules

/-! ### Patterns and keywords -/

namespace Declaration

theorem tag_mem_of_pattern? {d : Declaration} {p : Pattern} (h : d.pattern? = some p) :
    p.tag ∈ d.kind.tags := by
  unfold pattern? at h
  split at h
  · rename_i hkind
    obtain rfl := Option.some.inj h
    rw [hkind]
    exact List.mem_singleton_self _
  · cases h

theorem tag_mem_of_keywordEntries {d : Declaration} {e : String × String}
    (h : e ∈ d.keywordEntries) : e.2 ∈ d.kind.tags := by
  unfold keywordEntries at h
  split at h
  · rename_i hkind
    rw [hkind]
    exact List.mem_map_of_mem h
  · cases h

end Declaration

end LexerGen
