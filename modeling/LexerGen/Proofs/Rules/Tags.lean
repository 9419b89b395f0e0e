import LexerGen.Rules.Stream

/-! The tags of a rule file. A tag is read as a name, and a name has at least one character. -/

namespace LexerGen

open Text

namespace Text.Reader

variable {ε α β : Type}

/-- Everything that the reader gives has `P`. -/
def Yields (r : Reader ε α) (P : α → Prop) : Prop :=
  ∀ ⦃c c' : Cursor⦄ ⦃a : α⦄, r.run c = .ok (a, c') → P a

theorem Yields.bind {r : Reader ε α} {P : α → Prop} (h : r.Yields P) {f : α → Reader ε β}
    {Q : β → Prop} (hf : ∀ a, P a → (f a).Yields Q) : (r >>= f).Yields Q := by
  intro c c' b hb
  rw [run_bind] at hb
  split at hb
  · cases hb
  · rename_i a c₁ ha
    exact hf a (h ha) hb

theorem yields_bind (r : Reader ε α) {f : α → Reader ε β} {Q : β → Prop}
    (hf : ∀ a, (f a).Yields Q) : (r >>= f).Yields Q :=
  Yields.bind (P := fun _ => True) (fun _ _ _ _ => trivial) fun a _ => hf a

theorem yields_pure {a : α} {P : α → Prop} (h : P a) : (pure a : Reader ε α).Yields P := by
  intro c c' b hb
  obtain ⟨rfl, -⟩ := Prod.mk.inj (Except.ok.inj hb)
  exact h

theorem yields_fail (e : Cursor → ε) (P : α → Prop) : (fail e : Reader ε α).Yields P := by
  intro c c' a h
  cases h

end Text.Reader

namespace RuleKind

/-- A pattern has a tag that is not empty. -/
def Tagged (k : RuleKind) : Prop :=
  ∀ (tag body : String) (span : Span), k = .pattern tag body span → tag ≠ ""

end RuleKind

namespace Rules

open Reader

theorem yields_name : name.Yields fun cs => cs ≠ [] :=
  yields_bind _ fun _ => yields_bind _ fun _ => yields_bind _ fun _ =>
    yields_pure (List.cons_ne_nil _ _)

theorem yields_pattern : pattern.Yields RuleKind.Tagged := by
  refine yields_name.bind fun tag htag => ?_
  refine yields_bind _ fun _ => yields_bind _ fun _ => yields_bind _ fun _ => yields_bind _ fun _ =>
    yields_pure ?_
  rintro tag' body span ⟨⟩
  intro hempty
  exact htag (by simpa using congrArg String.toList hempty)

theorem yields_labelled (label : List Char) (span : Span) :
    (labelled label span).Yields RuleKind.Tagged := by
  unfold labelled
  split
  · exact yields_bind _ fun _ => yields_bind _ fun _ => yields_bind _ fun _ =>
      yields_pure (by rintro _ _ _ ⟨⟩)
  · split
    · exact yields_bind _ fun _ => yields_bind _ fun _ => yields_bind _ fun _ =>
        yields_pure (by rintro _ _ _ ⟨⟩)
    · split
      · exact yields_bind _ fun _ => yields_bind _ fun _ => yields_bind _ fun _ =>
          yields_bind _ fun _ => yields_pure (by rintro _ _ _ ⟨⟩)
      · exact yields_fail _ _

theorem yields_statement (x : Char) : (statement x).Yields RuleKind.Tagged := by
  unfold statement
  split
  · exact yields_pattern
  · split
    · exact yields_bind _ fun _ => yields_bind _ fun _ => yields_bind _ fun _ =>
        yields_bind _ fun _ => yields_bind _ fun _ => yields_labelled _ _
    · exact yields_fail _ _

theorem yields_declaration : declaration.Yields fun d => d.kind.Tagged := by
  refine yields_bind _ fun _ => yields_bind _ fun start => ?_
  split
  · exact yields_pure (by rintro _ _ _ ⟨⟩)
  · exact (yields_statement _).bind fun kind hkind => yields_bind _ fun _ => yields_pure hkind

/-- The patterns of a rule file have tags that are not empty. -/
theorem tagged_of_parse {source : String} {ds : List Declaration} (h : parse source = .ok ds) :
    ∀ d ∈ ds, d.kind.Tagged := by
  have hfrom : ∀ (c : Cursor) (ds : List Declaration), declarationsFrom c = .ok ds →
      ∀ d ∈ ds, d.kind.Tagged := by
    intro c
    fun_induction declarationsFrom c with
    | case1 => intro ds h; cases h
    | case2 =>
      intro ds h
      obtain rfl := Except.ok.inj h
      simp
    | case3 => intro ds h; cases h
    | case4 c d c' hd _ _ ds' hds' ih =>
      intro ds h
      obtain rfl := Except.ok.inj h
      exact List.forall_mem_cons.2 ⟨yields_declaration hd, ih ds' hds'⟩
  exact hfrom _ ds h

end Rules

end LexerGen
