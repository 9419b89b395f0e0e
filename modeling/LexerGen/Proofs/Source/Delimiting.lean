import LexerGen.Proofs.Regex.Sets
import LexerGen.Proofs.Source.Tables

/-! Readers that see from their own text where it ends. What such a reader has read, it reads again
wherever the text stands and whatever follows. Numbers and blanks end only with the character behind
them, so the next reader has to take that one. Lists leave out what is no item, but then a bracket
has to follow, and no item starts with one; so the reader of the tables is self-delimiting. -/

namespace LexerGen.Text.Reader

variable {ε α β : Type}

/-- What the reader has read, it reads again wherever the text stands. -/
def SelfDelimiting (r : Reader ε α) : Prop :=
  ∀ ⦃c c' : Cursor⦄ ⦃a : α⦄ ⦃text : List Char⦄,
    r.run c = .ok (a, c') → c.Reads text c' → r.Parses text a

/-- What the reader has read, it reads again wherever the text stands with the same character behind
it. -/
def NextDelimiting (r : Reader ε α) : Prop :=
  ∀ ⦃c c' : Cursor⦄ ⦃a : α⦄ ⦃text : List Char⦄ ⦃x : Char⦄,
    r.run c = .ok (a, c') → c.Reads text c' → c'.peek? = some x → r.ParsesBefore text x a

/-- A self-delimiting reader that never reads nothing. -/
structure Delimited (r : Reader ε α) : Prop where
  selfDelimiting : r.SelfDelimiting
  consumes : r.Consumes

variable {r : Reader ε α} {f : α → Reader ε β}

/-- What a sequence of readers has read can be cut between them. -/
theorem exists_reads_of_run_bind {c c' : Cursor} {b : β} {text : List Char}
    (h : (r >>= f).run c = .ok (b, c')) (htext : c.Reads text c') :
    ∃ a c₁ s t, text = s ++ t ∧ (r.run c = .ok (a, c₁) ∧ c.Reads s c₁) ∧
      (f a).run c₁ = .ok (b, c') ∧ c₁.Reads t c' := by
  obtain ⟨a, c₁, hr, hf⟩ := run_bind_eq_ok_iff.1 h
  obtain ⟨s, hs⟩ := r.moves hr
  obtain ⟨t, ht⟩ := (f a).moves hf
  refine ⟨a, c₁, s, t, ?_, ⟨hr, hs⟩, hf, ht⟩
  exact htext.text_unique (hs.trans ht)

theorem selfDelimiting_pure (a : α) : (pure a : Reader ε α).SelfDelimiting := by
  intro c c' b text h htext
  obtain ⟨rfl, rfl⟩ := run_pure_eq_ok_iff.1 h
  obtain rfl := htext.text_unique (.refl c')
  exact parses_pure b

theorem SelfDelimiting.nextDelimiting (h : r.SelfDelimiting) : r.NextDelimiting :=
  fun _ _ _ _ x hr htext _ => (h hr htext).before x

theorem SelfDelimiting.bind (h : r.SelfDelimiting) (hf : ∀ a, (f a).SelfDelimiting) :
    (r >>= f).SelfDelimiting := by
  intro c c' b text hrun htext
  obtain ⟨a, c₁, s, t, rfl, ⟨hr, hs⟩, hrest, ht⟩ := exists_reads_of_run_bind hrun htext
  exact (h hr hs).bind (hf a hrest ht)

theorem NextDelimiting.bind (h : r.NextDelimiting) (hf : ∀ a, (f a).NextDelimiting) :
    (r >>= f).NextDelimiting := by
  intro c c' b text x hrun htext hx
  obtain ⟨a, c₁, s, t, rfl, ⟨hr, hs⟩, hrest, ht⟩ := exists_reads_of_run_bind hrun htext
  have hparses := hf a hrest ht hx
  intro pos rest
  cases t with
  | nil =>
    obtain rfl := Cursor.Reads.nil_iff.1 ht
    rw [List.append_nil, run_bind_ok (h hr hs hx pos rest)]
    exact hparses _ rest
  | cons y t =>
    have hy : c₁.peek? = some y := by rw [Cursor.peek?, ht.rest]; rfl
    rw [List.append_assoc, List.cons_append, run_bind_ok (h hr hs hy pos (t ++ x :: rest)),
      ← List.cons_append, hparses, byteLength_append, Nat.add_assoc]

/-- The next reader takes the character that ends what was read before it. -/
theorem NextDelimiting.bind_delimited (h : r.NextDelimiting) (hf : ∀ a, (f a).Delimited) :
    (r >>= f).Delimited := by
  refine ⟨fun c c' b text hrun htext => ?_, consumes_bind r fun a => (hf a).consumes⟩
  obtain ⟨a, c₁, s, t, rfl, ⟨hr, hs⟩, hrest, ht⟩ := exists_reads_of_run_bind hrun htext
  have hparses := (hf a).selfDelimiting hrest ht
  cases t with
  | nil =>
    have hlt := ((hf a).consumes hrest).length_lt
    obtain rfl := Cursor.Reads.nil_iff.1 ht
    omega
  | cons x t =>
    have hx : c₁.peek? = some x := by rw [Cursor.peek?, ht.rest]; rfl
    exact (h hr hs hx).bind hparses

theorem Delimited.bind (h : r.Delimited) (hf : ∀ a, (f a).SelfDelimiting) : (r >>= f).Delimited :=
  ⟨h.selfDelimiting.bind hf, h.consumes.bind f⟩

theorem Delimited.nextDelimiting (h : r.Delimited) : r.NextDelimiting :=
  h.selfDelimiting.nextDelimiting

theorem nextDelimiting_takeWhile (p : Char → Bool) :
    (takeWhile p : Reader ε (List Char)).NextDelimiting := by
  intro c c' run text x h htext hx
  obtain ⟨hreads, hrun, hstop⟩ := run_takeWhile_eq_ok_iff.1 h
  obtain rfl := htext.text_unique hreads
  intro pos rest
  rw [run_takeWhile_eq_ok_iff]
  refine ⟨⟨rfl, rfl⟩, hrun, fun y hy => ?_⟩
  obtain rfl := Option.some.inj hy
  exact hstop x hx

end LexerGen.Text.Reader

namespace LexerGen.Source

open Text Reader

variable {α β : Type}

/-! ### Tokens -/

theorem run_char_eq_ok_iff {x : Char} {c c' : Cursor} {a : Unit} :
    (char x).run c = .ok (a, c') ↔ c.Reads [x] c' := by
  simp only [char, run_bind_eq_ok_iff, run_satisfy_eq_ok_iff, decide_eq_true_eq]
  constructor
  · rintro ⟨y, c₁, ⟨rfl, hreads⟩, hpure⟩
    obtain ⟨-, rfl⟩ := run_pure_eq_ok_iff.1 hpure
    exact hreads
  · intro hreads
    exact ⟨x, c', ⟨rfl, hreads⟩, rfl⟩

theorem delimited_char (x : Char) : (char x).Delimited := by
  refine ⟨fun c c' a text h htext => ?_, (consumes_satisfy _ _).bind _⟩
  obtain rfl := htext.text_unique (run_char_eq_ok_iff.1 h)
  exact parses_char x

theorem delimited_text {s : String} (hs : s.toList ≠ []) : (text s).Delimited := by
  have hreads : ∀ {c c' : Cursor} {a : Unit}, (text s).run c = .ok (a, c') →
      c.Reads s.toList c' := by
    intro c c' a h
    simp only [text, exactly] at h
    split at h
    · cases h
    · rename_i hskip
      obtain ⟨-, rfl⟩ := Prod.mk.inj (Except.ok.inj h)
      exact Cursor.reads_of_skip? hskip
  refine ⟨fun c c' a word h htext => ?_, fun c c' a h => ⟨_, hs, hreads h⟩⟩
  obtain rfl := htext.text_unique (hreads h)
  exact parses_text s

theorem delimited_lexeme {r : TableReader α} (h : r.Delimited) : (lexeme r).Delimited :=
  (nextDelimiting_takeWhile isSpace).bind_delimited fun _ => h

theorem nextDelimiting_lexeme {r : TableReader α} (h : r.NextDelimiting) :
    (lexeme r).NextDelimiting :=
  (nextDelimiting_takeWhile isSpace).bind fun _ => h

/-- A value is self-delimiting together with a character that has to follow it. -/
theorem selfDelimiting_ended {value : TableReader α} (hvalue : value.NextDelimiting) (x : Char)
    {f : α → Unit → TableReader β} (hf : ∀ a u, (f a u).SelfDelimiting) :
    (value >>= fun a => lexeme (char x) >>= f a).SelfDelimiting :=
  (hvalue.bind_delimited fun a =>
    (delimited_lexeme (delimited_char x)).bind (hf a)).selfDelimiting

/-- Numbers are runs of digits that are not too large. -/
theorem run_number_eq_ok_iff {c c' : Cursor} {n : Nat} :
    number.run c = .ok (n, c') ↔ ∃ digits,
      (c.Reads digits c' ∧ (∀ d ∈ digits, isDecimalDigit d = true) ∧ c'.StopsAt isDecimalDigit) ∧
        digits ≠ [] ∧ decimalValue digits ≤ maxPosition ∧ n = decimalValue digits := by
  simp only [← Cursor.takeWhile_eq_iff, number]
  cases htake : c.takeWhile isDecimalDigit with
  | mk digits c₁ =>
    simp only [Prod.mk.injEq]
    constructor
    · intro h
      split at h
      · cases h
      · rename_i hne
        split at h
        · cases h
        · rename_i hle
          obtain ⟨rfl, rfl⟩ := Prod.mk.inj (Except.ok.inj h)
          refine ⟨digits, ⟨rfl, rfl⟩, ?_, Nat.le_of_not_lt hle, rfl⟩
          rwa [List.isEmpty_iff] at hne
    · rintro ⟨_, ⟨rfl, rfl⟩, hne, hle, rfl⟩
      rw [if_neg (by rwa [List.isEmpty_iff]), if_neg (Nat.not_lt.2 hle)]

theorem nextDelimiting_number : number.NextDelimiting := by
  intro c c' n text x h htext hx pos rest
  obtain ⟨digits, ⟨hreads, hdigits, hstop⟩, hne, hle, rfl⟩ := run_number_eq_ok_iff.1 h
  obtain rfl := htext.text_unique hreads
  refine run_number_eq_ok_iff.2 ⟨text, ⟨⟨rfl, rfl⟩, hdigits, fun y hy => ?_⟩, hne, hle, rfl⟩
  obtain rfl := Option.some.inj hy
  exact hstop x hx

/-! ### Literals -/

theorem unescape?_append {c c' : Cursor} {x : Char} {text : List Char}
    (h : unescape? c = some (x, c')) (htext : c.Reads text c') (pos : Nat) (rest : List Char) :
    unescape? ⟨pos, text ++ rest⟩ = some (x, ⟨pos + byteLength text, rest⟩) := by
  unfold unescape? at h
  split at h
  · cases h
  · rename_i y c₁ hnext
    have hy := Cursor.reads_of_next? hnext
    split at h
    case h_8 =>
      obtain ⟨ds, hne, hlength, hreads, hhex⟩ := Regex.bracedCodePoint?_eq_some_iff.1 h
      obtain rfl := htext.text_unique (hy.trans hreads)
      change bracedCodePoint? ⟨pos + 'u'.utf8Size, '\x7b' :: (ds ++ ['\x7d']) ++ rest⟩ = _
      refine Regex.bracedCodePoint?_eq_some_iff.2 ⟨ds, hne, hlength, ⟨rfl, ?_⟩, hhex⟩
      rw [byteLength_append, ← Nat.add_assoc]
      rfl
    case h_9 => cases h
    all_goals
      obtain ⟨rfl, rfl⟩ := Prod.mk.inj (Option.some.inj h)
      obtain rfl := htext.text_unique hy
      rfl

theorem literalChar_append {quote x : Char} {c c' : Cursor} {text : List Char}
    (h : literalChar quote c = .ok (x, c')) (htext : c.Reads text c') (pos : Nat)
    (rest : List Char) :
    literalChar quote ⟨pos, text ++ rest⟩ = .ok (x, ⟨pos + byteLength text, rest⟩) := by
  unfold literalChar at h
  split at h
  · cases h
  · rename_i y c₁ hnext
    have hy := Cursor.reads_of_next? hnext
    split at h
    · rename_i hbackslash
      subst hbackslash
      split at h
      · cases h
      · rename_i answer hanswer
        obtain rfl := Except.ok.inj h
        obtain ⟨t, -, ht⟩ := advances_of_unescape? hanswer
        obtain rfl := htext.text_unique (hy.trans ht)
        have hunescape := unescape?_append hanswer ht (pos + '\\'.utf8Size) rest
        simp [literalChar, Cursor.next?, hunescape, Nat.add_assoc]
    · rename_i hbackslash
      split at h
      · cases h
      · rename_i hquote
        obtain ⟨rfl, rfl⟩ := Prod.mk.inj (Except.ok.inj h)
        obtain rfl := htext.text_unique hy
        simp [literalChar, Cursor.next?, hbackslash, hquote]

theorem delimited_quotedChar : quotedChar.Delimited := by
  have hchar : (⟨literalChar '\'', fun h => (advances_of_literalChar h).moves⟩ :
      TableReader Char).SelfDelimiting := fun _ _ _ _ h htext => literalChar_append h htext
  refine (delimited_char '\'').bind fun _ => hchar.bind fun x => ?_
  exact (delimited_char '\'').selfDelimiting.bind fun _ => selfDelimiting_pure x

/-- The characters of a string literal end where a quote follows. -/
theorem literalChars_append {seen cs : List Char} {c c' : Cursor} {text : List Char}
    (h : literalChars seen c = (cs, c')) (htext : c.Reads text c') (pos : Nat) (rest : List Char) :
    literalChars seen ⟨pos, text ++ '"' :: rest⟩ =
      (cs, ⟨pos + byteLength text, '"' :: rest⟩) := by
  fun_induction literalChars seen c generalizing text pos with
  | case1 seen c =>
    obtain ⟨rfl, rfl⟩ := Prod.mk.inj h
    obtain rfl := htext.text_unique (.refl c)
    have hempty := literalChars_escapeAll seen [] pos rest
    simpa [escapeAll] using hempty
  | case2 seen c x c₁ hchar _ ih =>
    obtain ⟨s, -, hs⟩ := advances_of_literalChar hchar
    obtain ⟨t, ht⟩ := moves_literalChars (x :: seen) c₁
    rw [h] at ht
    obtain rfl := htext.text_unique (hs.trans ht)
    rw [List.append_assoc, literalChars_eq, literalChar_append hchar hs]
    simp only
    rw [ih h ht, byteLength_append, Nat.add_assoc]

theorem delimited_quotedString : quotedString.Delimited := by
  refine (delimited_char '"').bind fun _ c c' a text h htext => ?_
  obtain ⟨cs, c₁, s, t, rfl, ⟨hchars, hs⟩, hclose, ht⟩ := exists_reads_of_run_bind h htext
  obtain ⟨_, c₂, q, t, rfl, ⟨hquote, hq⟩, hpure, ht'⟩ := exists_reads_of_run_bind hclose ht
  obtain rfl := hq.text_unique (run_char_eq_ok_iff.1 hquote)
  have hend : (char '"' >>= fun _ => pure (String.ofList cs) : TableReader String).Parses
      ('"' :: t) a :=
    (parses_char '"').bind (selfDelimiting_pure _ hpure ht')
  have hbody : (⟨fun c => .ok (literalChars [] c), fun {c _ _} h => by
      have := moves_literalChars [] c
      rwa [Except.ok.inj h] at this⟩ : TableReader (List Char)).ParsesBefore s '"' cs :=
    fun pos rest => congrArg Except.ok (literalChars_append (Except.ok.inj hchars) hs pos rest)
  exact hbody.bind hend

theorem delimited_pair {first : TableReader α} {second : TableReader β}
    (hfirst : first.NextDelimiting) (hsecond : second.NextDelimiting) :
    (pair first second).Delimited := by
  refine (delimited_char '(').bind fun _ => ?_
  refine selfDelimiting_ended (nextDelimiting_lexeme hfirst) ',' fun a _ => ?_
  refine selfDelimiting_ended (nextDelimiting_lexeme hsecond) ')' fun b _ => ?_
  exact selfDelimiting_pure (a, b)

theorem delimited_edge : edge.Delimited := by
  have hchar := nextDelimiting_lexeme delimited_quotedChar.nextDelimiting
  refine (delimited_char '(').bind fun _ => ?_
  refine selfDelimiting_ended hchar ',' fun lo _ => ?_
  refine selfDelimiting_ended hchar ',' fun hi _ => ?_
  refine selfDelimiting_ended (nextDelimiting_lexeme nextDelimiting_number) ')' fun target _ => ?_
  exact selfDelimiting_pure _

/-! ### Lists -/

theorem exists_reads_of_run_lexeme_char {x : Char} {c c' : Cursor} {a : Unit}
    (h : (lexeme (char x)).run c = .ok (a, c')) :
    ∃ blanks, Blanks blanks ∧ c.Reads (blanks ++ [x]) c' := by
  obtain ⟨blanks, c₁, hblanks, hchar⟩ := run_bind_eq_ok_iff.1 h
  obtain ⟨hreads, hall, -⟩ := run_takeWhile_eq_ok_iff.1 hblanks
  exact ⟨blanks, hall, hreads.trans (run_char_eq_ok_iff.1 hchar)⟩

/-- The ends of a list: a bracket, and before it maybe a comma. -/
inductive EndsList : List Char → Prop where
  | bracket {blanks : List Char} (hb : Blanks blanks) : EndsList (blanks ++ [']'])
  | comma {before blanks : List Char} (hbefore : Blanks before) (hb : Blanks blanks) :
      EndsList (before ++ ',' :: (blanks ++ [']']))

theorem endsList_of_run {items items' : List α} {c c' : Cursor} {close : List Char}
    (h : (do
      let _ ← Reader.optional (lexeme (char ','))
      lexeme (char ']')
      return items : TableReader (List α)).run c = .ok (items', c')) (hclose : c.Reads close c') :
    items' = items ∧ EndsList close := by
  obtain ⟨comma, c₁, hcomma, hrest⟩ := run_bind_eq_ok_iff.1 h
  obtain ⟨_, c₂, hbracket, hpure⟩ := run_bind_eq_ok_iff.1 hrest
  obtain ⟨rfl, rfl⟩ := run_pure_eq_ok_iff.1 hpure
  obtain ⟨blanks, hb, hreads⟩ := exists_reads_of_run_lexeme_char hbracket
  refine ⟨rfl, ?_⟩
  simp only [Reader.optional] at hcomma
  split at hcomma
  · obtain ⟨-, rfl⟩ := Prod.mk.inj (Except.ok.inj hcomma)
    obtain rfl := hclose.text_unique hreads
    exact .bracket hb
  · rename_i hchar
    obtain ⟨-, rfl⟩ := Prod.mk.inj (Except.ok.inj hcomma)
    obtain ⟨before, hbefore, hreads'⟩ := exists_reads_of_run_lexeme_char hchar
    obtain rfl := hclose.text_unique (hreads'.trans hreads)
    rw [List.append_assoc, List.singleton_append]
    exact .comma hbefore hb

section

variable {item : TableReader α} {close : List Char}

theorem EndsList.closes (h : EndsList close) (hbracket : item.Refuses ']') : Closes item close := by
  cases h with
  | bracket hb => exact closes_bracket item hb
  | comma hbefore hb => exact closes_comma hbracket hbefore hb

/-- No item is read where the list ends. -/
theorem EndsList.lexeme_error (h : EndsList close) (hbracket : item.Refuses ']')
    (hcomma : item.Refuses ',') (pos : Nat) (rest : List Char) :
    ∃ e, (lexeme item).run ⟨pos, close ++ rest⟩ = .error e := by
  cases h with
  | bracket hb =>
    rw [List.append_assoc]
    exact Source.lexeme_error hb rfl hbracket pos rest
  | comma hbefore hb =>
    rw [List.append_assoc]
    exact Source.lexeme_error hbefore rfl hcomma pos _

/-- The items that were read before the end of a list are read again. The loop goes the same way:
the commas and the items are delimited, and behind the last one it stops at the end. -/
theorem itemsFrom_append (hitem : item.Delimited) (hclose : Stops item close) {seen items : List α}
    {c c' : Cursor} {text : List Char} (h : itemsFrom item seen c = (items, c'))
    (htext : c.Reads text c') (pos : Nat) (rest : List Char) :
    itemsFrom item seen ⟨pos, text ++ (close ++ rest)⟩ =
      (items, ⟨pos + byteLength text, close ++ rest⟩) := by
  have hstop : ∀ (pos : Nat) {seen : List α} {c : Cursor} {text : List Char},
      (seen.reverse, c) = (items, c') → c.Reads text c' →
        itemsFrom item seen ⟨pos, text ++ (close ++ rest)⟩ =
          (items, ⟨pos + byteLength text, close ++ rest⟩) := by
    intro pos seen c text h htext
    obtain ⟨rfl, rfl⟩ := Prod.mk.inj h
    obtain rfl := htext.text_unique (.refl c)
    exact hclose seen pos rest
  fun_induction itemsFrom item seen c generalizing text pos with
  | case1 seen c => exact hstop pos h htext
  | case2 seen c => exact hstop pos h htext
  | case3 seen c _ c₁ hcomma a c₂ ha _ ih =>
    obtain ⟨s, hs⟩ := Reader.moves _ hcomma
    obtain ⟨t, ht⟩ := Reader.moves _ ha
    obtain ⟨u, hu⟩ := moves_itemsFrom item (a :: seen) c₂
    rw [h] at hu
    obtain rfl := htext.text_unique ((hs.trans ht).trans hu)
    have hcomma' := (delimited_lexeme (delimited_char ',')).selfDelimiting hcomma hs
    have ha' := (delimited_lexeme hitem).selfDelimiting ha ht
    rw [List.append_assoc, List.append_assoc, itemsFrom_eq, hcomma']
    simp only
    rw [ha']
    simp only
    rw [ih h hu]
    simp [Nat.add_assoc]

theorem separated_append (hitem : item.Delimited) (hbracket : item.Refuses ']')
    (hcomma : item.Refuses ',') (hclose : EndsList close) {items : List α} {c c' : Cursor}
    {text : List Char} (h : (separated item).run c = .ok (items, c')) (htext : c.Reads text c')
    (pos : Nat) (rest : List Char) :
    (separated item).run ⟨pos, text ++ (close ++ rest)⟩ =
      .ok (items, ⟨pos + byteLength text, close ++ rest⟩) := by
  simp only [separated] at h
  split at h
  · obtain ⟨rfl, rfl⟩ := Prod.mk.inj (Except.ok.inj h)
    obtain rfl := htext.text_unique (.refl c)
    obtain ⟨e, he⟩ := hclose.lexeme_error hbracket hcomma pos rest
    simp only [separated, List.nil_append, he]
    rfl
  · rename_i a c₁ ha
    obtain ⟨s, hs⟩ := Reader.moves _ ha
    obtain ⟨t, ht⟩ := moves_itemsFrom item [a] c₁
    rw [Except.ok.inj h] at ht
    obtain rfl := htext.text_unique (hs.trans ht)
    have ha' := (delimited_lexeme hitem).selfDelimiting ha hs pos (t ++ (close ++ rest))
    have hitems := itemsFrom_append hitem (hclose.closes hbracket).stops (Except.ok.inj h) ht
      (pos + byteLength s) rest
    rw [List.append_assoc]
    simp only [separated, ha', hitems, byteLength_append, Nat.add_assoc]

/-- The items that were read are read again with any end of a list behind them. -/
theorem parses_items_append (hitem : item.Delimited) (hbracket : item.Refuses ']')
    (hcomma : item.Refuses ',') (hclose : EndsList close) {items : List α} {c c' : Cursor}
    {body : List Char} (h : (separated item).run c = .ok (items, c')) (hbody : c.Reads body c') :
    (do
      let items ← separated item
      let _ ← Reader.optional (lexeme (char ','))
      lexeme (char ']')
      return items : TableReader (List α)).Parses (body ++ close) items := by
  intro pos rest
  rw [List.append_assoc,
    run_bind_ok (separated_append hitem hbracket hcomma hclose h hbody pos rest),
    (hclose.closes hbracket).parses items, byteLength_append, Nat.add_assoc]

theorem delimited_list (hitem : item.Delimited) (hbracket : item.Refuses ']')
    (hcomma : item.Refuses ',') : (list item).Delimited := by
  refine (delimited_lexeme (delimited_text (by decide))).bind fun _ c c' items text h htext => ?_
  obtain ⟨items', c₁, body, close, rfl, ⟨hitems, hbody⟩, hend, hclose⟩ :=
    exists_reads_of_run_bind h htext
  obtain ⟨rfl, hends⟩ := endsList_of_run hend hclose
  exact parses_items_append hitem hbracket hcomma hends hitems hbody

end

/-! ### The tables -/

theorem delimited_declared {declaration : String} {value : TableReader α}
    (hd : declaration.toList ≠ []) (hvalue : value.NextDelimiting) :
    (declared declaration value).Delimited := by
  refine (delimited_lexeme (delimited_text hd)).bind fun _ => ?_
  refine (delimited_lexeme (delimited_char '=')).selfDelimiting.bind fun _ => ?_
  exact selfDelimiting_ended hvalue ';' fun a _ => selfDelimiting_pure a

/-- The item readers of the tables: each is delimited, and none starts with a bracket or a comma. -/
structure IsItem (item : TableReader α) : Prop where
  delimited : item.Delimited
  refuses_bracket : item.Refuses ']'
  refuses_comma : item.Refuses ','

theorem IsItem.delimited_list {item : TableReader α} (h : IsItem item) : (list item).Delimited :=
  Source.delimited_list h.delimited h.refuses_bracket h.refuses_comma

theorem isItem_edge : IsItem edge :=
  ⟨delimited_edge, refuses_edge (by decide), refuses_edge (by decide)⟩

theorem isItem_quotedString : IsItem quotedString :=
  ⟨delimited_quotedString, refuses_quotedString (by decide), refuses_quotedString (by decide)⟩

theorem isItem_pair {first : TableReader α} {second : TableReader β}
    (hfirst : first.NextDelimiting) (hsecond : second.NextDelimiting) :
    IsItem (pair first second) :=
  ⟨delimited_pair hfirst hsecond, refuses_pair _ _ (by decide), refuses_pair _ _ (by decide)⟩

theorem isItem_list {item : TableReader α} (h : IsItem item) : IsItem (list item) :=
  ⟨h.delimited_list, refuses_list _ rfl (by decide), refuses_list _ rfl (by decide)⟩

theorem isItem_accepting : IsItem (pair number quotedString) :=
  isItem_pair nextDelimiting_number delimited_quotedString.nextDelimiting

theorem isItem_keyword : IsItem (pair quotedString quotedString) :=
  isItem_pair delimited_quotedString.nextDelimiting delimited_quotedString.nextDelimiting

theorem delimited_declaredList {declaration : String} {item : TableReader α}
    (hd : declaration.toList ≠ []) (h : IsItem item) :
    (declared declaration (list item)).Delimited :=
  delimited_declared hd h.delimited_list.nextDelimiting

theorem selfDelimiting_tables : tables.SelfDelimiting := by
  have hentry := nextDelimiting_lexeme nextDelimiting_number
  refine (delimited_lexeme (delimited_text (by decide))).selfDelimiting.bind fun _ => ?_
  refine (delimited_lexeme (delimited_text (by decide))).selfDelimiting.bind fun _ => ?_
  refine (delimited_declared (by decide) hentry).selfDelimiting.bind fun entry => ?_
  refine (delimited_declaredList (by decide) isItem_accepting).selfDelimiting.bind
    fun accepting => ?_
  refine (delimited_declaredList (by decide) (isItem_list isItem_edge)).selfDelimiting.bind
    fun transitions => ?_
  refine (delimited_declaredList (by decide) isItem_quotedString).selfDelimiting.bind
    fun ignored => ?_
  refine (delimited_declaredList (by decide) isItem_keyword).selfDelimiting.bind fun keywords => ?_
  exact selfDelimiting_pure _

end LexerGen.Source
