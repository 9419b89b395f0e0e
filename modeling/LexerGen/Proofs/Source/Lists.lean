import LexerGen.Proofs.Source.Literals

/-! Lists are read as they were written: with the items in one line and commas between them, or with
each item on a line of its own and a comma behind it. -/

namespace LexerGen.Source

open Text Reader

variable {α β : Type}

theorem solid_cons {x : Char} (rest : List Char) (hx : isSpace x = false) : Solid (x :: rest) :=
  ⟨x, rest, rfl, hx⟩

theorem blanks_nil : Blanks [] := by
  intro c hc
  cases hc

theorem parses_lexeme_char {blanks : List Char} {x : Char} (hb : Blanks blanks)
    (hx : isSpace x = false) : (lexeme (char x)).Parses (blanks ++ [x]) () :=
  parses_lexeme hb (solid_cons [] hx) (parses_char x)

theorem refuses_lexeme {r : TableReader α} {x : Char} (hx : isSpace x = false)
    (h : r.Refuses x) : (lexeme r).Refuses x :=
  fun pos rest => lexeme_error blanks_nil hx h pos rest

/-! ### Items behind commas -/

theorem itemsFrom_eq (item : TableReader α) (seen : List α) (c : Cursor) :
    itemsFrom item seen c =
      match (lexeme (char ',')).run c with
      | .error _ => (seen.reverse, c)
      | .ok (_, c₁) =>
        match (lexeme item).run c₁ with
        | .error _ => (seen.reverse, c)
        | .ok (a, c₂) => itemsFrom item (a :: seen) c₂ := by
  rw [itemsFrom]
  split
  · rename_i h
    simp only [h]
  · rename_i h
    simp only [h]
    split
    · rename_i h'
      simp only [h']
    · rename_i h'
      simp only [h']

/-- No item is read from `text` on, whatever stands behind it. -/
def Stops (item : TableReader α) (text : List Char) : Prop :=
  ∀ (seen : List α) (pos : Nat) (rest : List Char),
    itemsFrom item seen ⟨pos, text ++ rest⟩ = (seen.reverse, ⟨pos, text ++ rest⟩)

theorem stops_bracket (item : TableReader α) {blanks : List Char} (hb : Blanks blanks) :
    Stops item (blanks ++ [']']) := by
  intro seen pos rest
  obtain ⟨e, he⟩ := lexeme_error hb (x := ']') rfl (refuses_char (x := ',') (by decide)) pos rest
  rw [List.append_assoc, itemsFrom_eq, List.singleton_append, he]

theorem stops_comma {item : TableReader α} (hitem : item.Refuses ']') {before blanks : List Char}
    (hbefore : Blanks before) (hb : Blanks blanks) :
    Stops item (before ++ ',' :: (blanks ++ [']'])) := by
  intro seen pos rest
  have hcomma := parses_lexeme_char (x := ',') hbefore rfl pos (blanks ++ ']' :: rest)
  obtain ⟨e, he⟩ := lexeme_error hb (x := ']') rfl hitem (pos + byteLength (before ++ [','])) rest
  have htext : before ++ ',' :: (blanks ++ [']']) ++ rest =
      before ++ [','] ++ (blanks ++ ']' :: rest) := by
    simp
  rw [htext, itemsFrom_eq, hcomma]
  simp only
  rw [he]

/-- The items behind the first one. -/
def tailText (blanks : List Char) (w : α → List Char) (items : List α) : List Char :=
  items.flatMap fun a => ',' :: (blanks ++ w a)

/-- Every item is read from its text, which does not start with a blank. -/
def ParsesAll (item : TableReader α) (w : α → List Char) (items : List α) : Prop :=
  ∀ a ∈ items, item.Parses (w a) a ∧ Solid (w a)

theorem itemsFrom_tailText {item : TableReader α} {blanks : List Char} {w : α → List Char}
    {items : List α} {close : List Char} (hb : Blanks blanks) (hitems : ParsesAll item w items)
    (hclose : Stops item close) (seen : List α) (pos : Nat) (rest : List Char) :
    itemsFrom item seen ⟨pos, tailText blanks w items ++ (close ++ rest)⟩ =
      (seen.reverse ++ items,
        ⟨pos + byteLength (tailText blanks w items), close ++ rest⟩) := by
  induction items generalizing seen pos with
  | nil =>
    rw [tailText, List.flatMap_nil, List.nil_append, hclose]
    simp
  | cons a items ih =>
    obtain ⟨ha, hsolid⟩ := hitems a List.mem_cons_self
    have hcomma := parses_lexeme_char (x := ',') blanks_nil rfl pos
      (blanks ++ w a ++ (tailText blanks w items ++ (close ++ rest)))
    have hitem := parses_lexeme hb hsolid ha (pos + byteLength [','])
      (tailText blanks w items ++ (close ++ rest))
    have htext : tailText blanks w (a :: items) ++ (close ++ rest) =
        [] ++ [','] ++ (blanks ++ w a ++ (tailText blanks w items ++ (close ++ rest))) := by
      simp [tailText]
    rw [htext, itemsFrom_eq, hcomma]
    simp only [List.nil_append]
    rw [hitem]
    simp only
    rw [ih fun b hb => hitems b (List.mem_cons_of_mem _ hb)]
    simp [tailText, Nat.add_assoc]

/-! ### Whole lists -/

/-- What the end of a list looks like to the reader of the list. -/
structure Closes (item : TableReader α) (close : List Char) : Prop where
  stops : Stops item close
  parses : ∀ items : List α, (do
    let _ ← Reader.optional (lexeme (char ','))
    lexeme (char ']')
    return items : TableReader (List α)).Parses close items

theorem closes_bracket (item : TableReader α) {blanks : List Char} (hb : Blanks blanks) :
    Closes item (blanks ++ [']']) := by
  refine ⟨stops_bracket item hb, fun items pos rest => ?_⟩
  obtain ⟨e, he⟩ := lexeme_error hb (x := ']') rfl (refuses_char (x := ',') (by decide)) pos rest
  have hnone : (Reader.optional (lexeme (char ','))).run ⟨pos, blanks ++ [']'] ++ rest⟩ =
      .ok (none, ⟨pos, blanks ++ [']'] ++ rest⟩) := by
    rw [List.append_assoc, List.singleton_append]
    simp only [Reader.optional, he]
  rw [run_bind_ok hnone]
  exact (parses_lexeme_char hb rfl).bind_pure (fun _ => items) pos rest

theorem closes_comma {item : TableReader α} (hitem : item.Refuses ']') {before blanks : List Char}
    (hbefore : Blanks before) (hb : Blanks blanks) :
    Closes item (before ++ ',' :: (blanks ++ [']'])) := by
  refine ⟨stops_comma hitem hbefore hb, fun items => ?_⟩
  have hsome : (Reader.optional (lexeme (char ','))).Parses (before ++ [',']) (some ()) := by
    intro pos rest
    simp only [Reader.optional, parses_lexeme_char (x := ',') hbefore rfl pos rest]
  have htext : before ++ ',' :: (blanks ++ [']']) = before ++ [','] ++ (blanks ++ [']']) := by
    simp
  rw [htext]
  exact hsome.bind ((parses_lexeme_char hb rfl).bind_pure fun _ => items)

theorem parses_list {item : TableReader α} {items : List α} {before body close : List Char}
    (hbefore : Blanks before) (hclose : Closes item close)
    (hbody : ∀ (pos : Nat) (rest : List Char),
      (separated item).run ⟨pos, body ++ (close ++ rest)⟩ =
        .ok (items, ⟨pos + byteLength body, close ++ rest⟩)) :
    (list item).Parses (before ++ "&[".toList ++ (body ++ close)) items := by
  refine (parses_lexeme hbefore (by decide) (parses_text "&[")).bind fun pos rest => ?_
  rw [List.append_assoc, run_bind_ok (hbody pos rest), hclose.parses items, byteLength_append,
    Nat.add_assoc]

theorem parses_list_cons {item : TableReader α} {w : α → List Char} {a : α} {items : List α}
    {before first between close : List Char} (hbefore : Blanks before) (hfirst : Blanks first)
    (hbetween : Blanks between) (hitems : ParsesAll item w (a :: items))
    (hclose : Closes item close) :
    (list item).Parses (before ++ "&[".toList ++
      (first ++ w a ++ tailText between w items ++ close)) (a :: items) := by
  refine parses_list hbefore hclose fun pos rest => ?_
  obtain ⟨ha, hsolid⟩ := hitems a List.mem_cons_self
  have hhead := parses_lexeme hfirst hsolid ha pos (tailText between w items ++ (close ++ rest))
  have htail := itemsFrom_tailText hbetween (fun b hb => hitems b (List.mem_cons_of_mem _ hb))
    hclose.stops [a] (pos + byteLength (first ++ w a)) rest
  rw [List.append_assoc (first ++ w a)]
  simp only [separated, hhead, htail]
  simp [Nat.add_assoc]

theorem parses_list_nil {item : TableReader α} (hitem : item.Refuses ']')
    {before blanks : List Char} (hbefore : Blanks before) (hb : Blanks blanks) :
    (list item).Parses (before ++ "&[".toList ++ (blanks ++ [']'])) [] := by
  have hnone : ∀ (pos : Nat) (rest : List Char),
      (separated item).run ⟨pos, [] ++ (blanks ++ [']'] ++ rest)⟩ =
        .ok ([], ⟨pos + byteLength [], blanks ++ [']'] ++ rest⟩) := by
    intro pos rest
    obtain ⟨e, he⟩ := lexeme_error hb (x := ']') rfl hitem pos rest
    rw [List.nil_append, List.append_assoc, List.singleton_append]
    simp only [separated, he]
    simp
  have hlist := parses_list hbefore (closes_bracket item hb) hnone
  rwa [List.nil_append] at hlist

/-! ### The two ways of writing -/

/-- The items in one line with commas between them. -/
def inlineText (w : α → List Char) (items : List α) : List Char :=
  "&[".toList ++ ", ".toList.intercalate (items.map w) ++ [']']

/-- The items on lines of their own with commas behind them. -/
def linesText (w : α → List Char) (items : List α) : List Char :=
  " &[\n".toList ++ (items.flatMap fun a => "    ".toList ++ w a ++ ",\n".toList) ++ "  ]".toList

theorem intercalate_cons (w : α → List Char) (a : α) (items : List α) :
    ", ".toList.intercalate ((a :: items).map w) = w a ++ tailText [' '] w items := by
  induction items generalizing a with
  | nil => simp [tailText]
  | cons b items ih =>
    rw [List.map_cons, List.intercalate_cons_of_ne_nil (by simp), ih]
    simp [tailText]

theorem parses_inlineText {item : TableReader α} {w : α → List Char} {items : List α}
    (hitem : item.Refuses ']') (hitems : ParsesAll item w items) :
    (list item).Parses (inlineText w items) items := by
  cases items with
  | nil =>
    have h := parses_list_nil hitem blanks_nil blanks_nil
    simpa [inlineText] using h
  | cons a items =>
    have hbetween : Blanks [' '] := by decide
    have h := parses_list_cons blanks_nil blanks_nil hbetween hitems
      (closes_bracket item blanks_nil)
    rw [inlineText, intercalate_cons]
    simpa using h

theorem flatMap_lines_cons (w : α → List Char) (a : α) (items : List α) :
    ((a :: items).flatMap fun a => "    ".toList ++ w a ++ ",\n".toList) =
      "    ".toList ++ w a ++ tailText "\n    ".toList w items ++ ",\n".toList := by
  induction items generalizing a with
  | nil => simp [tailText]
  | cons b items ih =>
    rw [List.flatMap_cons, ih]
    simp [tailText]

theorem parses_linesText {item : TableReader α} {w : α → List Char} {items : List α}
    (hitem : item.Refuses ']') (hitems : ParsesAll item w items) :
    (list item).Parses (linesText w items) items := by
  have hbefore : Blanks [' '] := by decide
  have hclose : Blanks "\n  ".toList := by decide
  cases items with
  | nil =>
    have h := parses_list_nil hitem hbefore hclose
    simpa [linesText] using h
  | cons a items =>
    have hline : Blanks "\n    ".toList := by decide
    have h := parses_list_cons hbefore hline hline hitems (closes_comma hitem blanks_nil hclose)
    rw [linesText, flatMap_lines_cons]
    simpa using h

end LexerGen.Source
