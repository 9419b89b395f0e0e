import LexerGen.Proofs.Source.Tables

/-! Where the tables start. Nothing that is written behind the opening of the tables holds another
opening, unless the user code does, so the last opening in the source is that of the tables. -/

namespace LexerGen.Source

open Text

/-- No table module is opened in `cs`. -/
def Free (cs : List Char) : Prop := ¬opening <:+: cs

/-- No opening starts in `cs`, whatever stands behind it. -/
def Harmless (cs : List Char) : Prop := ∀ rest, Free rest → Free (cs ++ rest)

theorem free_nil : Free [] := by
  intro h
  exact absurd (List.eq_nil_of_infix_nil h) (by decide)

theorem Free.mono {s t : List Char} (h : Free t) (hs : s <:+: t) : Free s :=
  fun hopens => h (hopens.trans hs)

theorem free_cons {x : Char} {rest : List Char} (hx : ¬opening <+: x :: rest) (h : Free rest) :
    Free (x :: rest) := by
  intro hopens
  exact (List.infix_cons_iff.1 hopens).elim hx h

theorem Harmless.append {s t : List Char} (hs : Harmless s) (ht : Harmless t) :
    Harmless (s ++ t) := by
  intro rest hrest
  rw [List.append_assoc]
  exact hs _ (ht rest hrest)

theorem harmless_of_not_mem {cs : List Char} (h : '/' ∉ cs) : Harmless cs := by
  intro rest hrest
  induction cs with
  | nil => exact hrest
  | cons x cs ih =>
    rw [List.mem_cons, not_or] at h
    refine free_cons (fun hopening => h.1 ?_) (ih h.2)
    exact (List.cons_prefix_cons.1 hopening).1

theorem harmless_opening_tail : Harmless opening.tail := by
  intro rest hrest
  have hslash : '/' ∉ opening.tail.tail := by decide
  have htail := harmless_of_not_mem hslash rest hrest
  refine free_cons (fun hopening => ?_) htail
  have := (List.cons_prefix_cons.1 (List.cons_prefix_cons.1 hopening).2).1
  revert this
  decide

/-- Two free texts make a free text if no opening reaches across the first character of the
second. -/
theorem free_append_cons {cs rest : List Char} {x : Char} (h : Free cs) (hrest : Free (x :: rest))
    (hx : ∀ before after, opening = before ++ x :: after → ¬after <+: rest) :
    Free (cs ++ x :: rest) := by
  induction cs with
  | nil => exact hrest
  | cons y cs ih =>
    have hcs : Free cs := h.mono (List.infix_cons List.infix_rfl)
    refine free_cons (fun hopening => ?_) (ih hcs)
    obtain ⟨t, ht⟩ := hopening
    change opening ++ t = y :: cs ++ x :: rest at ht
    rcases List.append_eq_append_iff.1 ht with ⟨s, hs, -⟩ | ⟨s, hs, hrest'⟩
    · exact h (hs ▸ (List.prefix_append opening s).isInfix)
    · cases s with
      | nil =>
        rw [List.append_nil] at hs
        exact h (hs ▸ List.infix_rfl)
      | cons z after =>
        obtain ⟨rfl, rfl⟩ := List.cons.inj hrest'
        exact hx _ after hs (List.prefix_append after t)

/-- Behind a character that no opening has, everything starts anew. -/
theorem harmless_concat {cs : List Char} {x : Char} (h : Free cs) (hx : x ∉ opening) :
    Harmless (cs ++ [x]) := by
  intro rest hrest
  rw [List.append_assoc, List.singleton_append]
  refine free_append_cons h (free_cons (fun hopening => ?_) hrest) fun before after hopening => ?_
  · exact hx ((List.cons_prefix_cons.1 hopening).1 ▸ List.mem_cons_self)
  · rw [hopening] at hx
    simp at hx

/-- A text that opens a module opens one for the last time. -/
theorem exists_last_opening {cs : List Char} (h : opening <:+: cs) :
    ∃ before rest, cs = before ++ (opening ++ rest) ∧ Free rest := by
  induction cs with
  | nil => exact absurd h free_nil
  | cons x cs ih =>
    by_cases hcs : opening <:+: cs
    · obtain ⟨before, rest, rfl, hrest⟩ := ih hcs
      exact ⟨x :: before, rest, rfl, hrest⟩
    · obtain ⟨rest, hrest⟩ := (List.infix_cons_iff.1 h).resolve_right hcs
      have hopening : opening = '/' :: opening.tail := by decide
      have htail : cs = opening.tail ++ rest := by
        rw [hopening] at hrest
        exact (List.cons.inj hrest).2.symm
      refine ⟨[], rest, hrest.symm, Free.mono hcs ?_⟩
      rw [htail]
      exact (List.suffix_append _ rest).isInfix

theorem lastOpening?_of_free {cs : List Char} (h : Free cs) (found : Option Cursor) (pos : Nat) :
    lastOpening? found pos cs = found := by
  induction cs generalizing pos with
  | nil => rfl
  | cons x cs ih =>
    have hx : ¬opening.isPrefixOf (x :: cs) = true := fun hopening =>
      h (List.isPrefixOf_iff_prefix.1 hopening).isInfix
    have hcs : Free cs := h.mono (List.infix_cons List.infix_rfl)
    rw [lastOpening?, if_neg hx, ih hcs]

/-- An opening is the last one if there is none behind it. -/
theorem lastOpening?_append (found : Option Cursor) (pos : Nat) (before : List Char)
    {rest : List Char} (h : Free rest) :
    lastOpening? found pos (before ++ (opening ++ rest)) =
      some ⟨pos + byteLength before + byteLength header.toList,
        "\n\n".toList ++ moduleOpening.toList ++ rest⟩ := by
  induction before generalizing found pos with
  | nil =>
    have hopening : opening = '/' :: opening.tail := by decide
    have hhere : ('/' :: (opening.tail ++ rest)) = opening ++ rest := by
      rw [← List.cons_append, ← hopening]
    have hfound : opening.isPrefixOf (opening ++ rest) = true :=
      List.isPrefixOf_iff_prefix.2 (List.prefix_append _ _)
    rw [List.nil_append, ← hhere, lastOpening?, hhere, if_pos hfound,
      lastOpening?_of_free (harmless_opening_tail rest h)]
    simp [opening, Cursor.skip?]
  | cons x before ih =>
    rw [List.cons_append, lastOpening?, ih]
    simp [Nat.add_assoc]

/-! ### What is written behind the opening -/

theorem free_of_not_mem {cs : List Char} (h : '\n' ∉ cs) : Free cs := by
  intro hopens
  exact h (hopens.subset (by decide))

theorem harmless_charLiteral (c : Char) : Harmless (charLiteral c) := by
  have hquote : Harmless ['\''] := harmless_of_not_mem (by decide)
  exact hquote.append (harmless_concat (free_of_not_mem (newline_not_mem_escape c)) (by decide))

theorem harmless_stringLiteral (cs : List Char) : Harmless (stringLiteral cs) := by
  have hquote : Harmless ['"'] := harmless_of_not_mem (by decide)
  exact hquote.append
    (harmless_concat (free_of_not_mem (newline_not_mem_escapeAll cs)) (by decide))

theorem slash_not_mem_toDigits (n : Nat) : '/' ∉ Nat.toDigits 10 n := by
  intro hmem
  exact absurd (isDecimalDigit_of_mem hmem) (by decide)

theorem harmless_toDigits (n : Nat) : Harmless (Nat.toDigits 10 n) :=
  harmless_of_not_mem (slash_not_mem_toDigits n)

theorem harmless_flatMap {α : Type} {w : α → List Char} {items : List α}
    (h : ∀ a ∈ items, Harmless (w a)) : Harmless (items.flatMap w) := by
  induction items with
  | nil => exact harmless_of_not_mem (by simp)
  | cons a items ih =>
    rw [List.forall_mem_cons] at h
    rw [List.flatMap_cons]
    exact h.1.append (ih h.2)

theorem harmless_linesText {α : Type} {w : α → List Char} {items : List α}
    (h : ∀ a ∈ items, Harmless (w a)) : Harmless (linesText w items) := by
  have hitems : Harmless (items.flatMap fun a => "    ".toList ++ w a ++ ",\n".toList) :=
    harmless_flatMap fun a ha =>
      ((harmless_of_not_mem (by decide)).append (h a ha)).append (harmless_of_not_mem (by decide))
  exact ((harmless_of_not_mem (by decide)).append hitems).append (harmless_of_not_mem (by decide))

theorem harmless_inlineText {α : Type} {w : α → List Char} {items : List α}
    (h : ∀ a ∈ items, Harmless (w a)) : Harmless (inlineText w items) := by
  have hitems : Harmless (", ".toList.intercalate (items.map w)) := by
    cases items with
    | nil => exact harmless_of_not_mem (by simp)
    | cons a items =>
      rw [List.forall_mem_cons] at h
      rw [intercalate_cons]
      refine h.1.append (harmless_flatMap fun b hb => ?_)
      have hcomma : Harmless [',', ' '] := harmless_of_not_mem (by decide)
      exact hcomma.append (h.2 b hb)
  exact ((harmless_of_not_mem (by decide)).append hitems).append (harmless_of_not_mem (by decide))

theorem harmless_writeEdge (e : Edge) : Harmless (writeEdge e).toList := by
  have hopen : Harmless ['('] := harmless_of_not_mem (by decide)
  have hcomma : Harmless [',', ' '] := harmless_of_not_mem (by decide)
  have hclose : Harmless [')'] := harmless_of_not_mem (by decide)
  rw [toList_writeEdge]
  refine hopen.append ((harmless_charLiteral _).append (hcomma.append ?_))
  exact (harmless_charLiteral _).append (hcomma.append ((harmless_toDigits _).append hclose))

theorem harmless_pair {s t : List Char} (hs : Harmless s) (ht : Harmless t) :
    Harmless ('(' :: (s ++ ',' :: ' ' :: (t ++ [')']))) := by
  have hopen : Harmless ['('] := harmless_of_not_mem (by decide)
  have hcomma : Harmless [',', ' '] := harmless_of_not_mem (by decide)
  have hclose : Harmless [')'] := harmless_of_not_mem (by decide)
  exact hopen.append (hs.append (hcomma.append (ht.append hclose)))

theorem harmless_declaredText {declaration : String} {value : List Char}
    (hd : '/' ∉ declaration.toList) (hv : Harmless value) :
    Harmless (declaredText declaration value) := by
  have hblanks : Harmless "\n\n  ".toList := harmless_of_not_mem (by decide)
  have hequals : Harmless " =".toList := harmless_of_not_mem (by decide)
  have hclose : Harmless [';'] := harmless_of_not_mem (by decide)
  exact (hblanks.append (harmless_of_not_mem hd)).append (hequals.append (hv.append hclose))

theorem harmless_body (p : Parts) : Harmless p.body := by
  have hattributes : Harmless ("\n  ".toList ++ attributes.toList) :=
    harmless_of_not_mem (by decide)
  have hentry : Harmless (' ' :: Nat.toDigits 10 p.entry) := by
    have hblank : Harmless [' '] := harmless_of_not_mem (by decide)
    exact hblank.append (harmless_toDigits p.entry)
  have haccepting : Harmless (linesText (fun e => (writeAccepting e).toList) p.accepting) :=
    harmless_linesText fun e _ => by
      rw [toList_writeAccepting]
      exact harmless_pair (harmless_toDigits _) (harmless_stringLiteral _)
  have htransitions : Harmless (linesText edgesText p.transitions) :=
    harmless_linesText fun es _ => harmless_inlineText fun e _ => harmless_writeEdge e
  have hignored : Harmless (linesText (fun s => stringLiteral s.toList) p.ignored) :=
    harmless_linesText fun s _ => harmless_stringLiteral _
  have hkeywords : Harmless (linesText (fun e => (writeKeyword e).toList) p.keywords) :=
    harmless_linesText fun e _ => by
      rw [toList_writeKeyword]
      exact harmless_pair (harmless_stringLiteral _) (harmless_stringLiteral _)
  refine hattributes.append ((harmless_declaredText (by decide) hentry).append ?_)
  apply (harmless_declaredText (by decide) haccepting).append
  apply (harmless_declaredText (by decide) htransitions).append
  apply (harmless_declaredText (by decide) hignored).append
  exact harmless_declaredText (by decide) hkeywords

end LexerGen.Source
