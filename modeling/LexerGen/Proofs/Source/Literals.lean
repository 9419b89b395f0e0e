import LexerGen.Proofs.Source.Parsing

/-! Literals and numbers are read as they were written, whatever stands behind them. -/

namespace LexerGen

open Text Reader

namespace Text

theorem hexDigit?_digitChar {d : Nat} (h : d < 16) : hexDigit? d.digitChar = some d := by
  have hall : ∀ d < 16, hexDigit? (Nat.digitChar d) = some d := by decide
  exact hall d h

theorem digitChar_ne_brace {d : Nat} (h : d < 16) : d.digitChar ≠ '\x7d' := by
  have hall : ∀ d < 16, Nat.digitChar d ≠ '\x7d' := by decide
  exact hall d h

theorem bracedDigits?_digit {room d : Nat} (h : d < 16) (value : Option Nat) (pos : Nat)
    (rest : List Char) :
    bracedDigits? (room + 1) value ⟨pos, d.digitChar :: rest⟩ =
      bracedDigits? room (some (value.getD 0 * 16 + d))
        ⟨pos + d.digitChar.utf8Size, rest⟩ := by
  rw [bracedDigits?]
  simp [Cursor.next?, digitChar_ne_brace h, hexDigit?_digitChar h]

theorem toNat_lt_of_isControl {c : Char} (h : isControl c = true) : c.toNat < 256 := by
  simp only [isControl, Bool.or_eq_true, Bool.and_eq_true, decide_eq_true_eq] at h
  omega

/-- Code points of at most two digits are read back. -/
theorem bracedDigits?_hexNumeral {n : Nat} (h : n < 256) (pos : Nat) (rest : List Char) :
    bracedDigits? 6 none ⟨pos, hexNumeral n ++ '\x7d' :: rest⟩ =
      some (n, ⟨pos + byteLength (hexNumeral n ++ ['\x7d']), rest⟩) := by
  have hclose : ∀ room m pos, bracedDigits? room (some m) ⟨pos, '\x7d' :: rest⟩ =
      some (m, ⟨pos + '\x7d'.utf8Size, rest⟩) := by
    intro room m pos
    rw [bracedDigits?.eq_def]
    simp [Cursor.next?]
  by_cases hn : n < 16
  · rw [hexNumeral, Nat.toDigits_of_lt_base hn, List.cons_append, List.nil_append,
      bracedDigits?_digit hn, hclose]
    simp [Nat.add_assoc]
  · have hdiv : n / 16 < 16 := by omega
    have hmod : n % 16 < 16 := by omega
    rw [hexNumeral, Nat.toDigits_of_base_le (by decide) (by omega), Nat.toDigits_of_lt_base hdiv,
      List.cons_append, List.nil_append, List.cons_append, List.cons_append, List.nil_append,
      bracedDigits?_digit hdiv, bracedDigits?_digit hmod, hclose]
    simp [Nat.add_assoc]
    omega

end Text

namespace Source

theorem unescape?_codePoint {c : Char} (h : isControl c = true) (pos : Nat) (rest : List Char) :
    unescape? ⟨pos, 'u' :: '\x7b' :: (hexNumeral c.toNat ++ '\x7d' :: rest)⟩ =
      some (c, ⟨pos + byteLength ('u' :: '\x7b' :: (hexNumeral c.toNat ++ ['\x7d'])), rest⟩) := by
  have hlt := toNat_lt_of_isControl h
  have hread : unescape? ⟨pos, 'u' :: '\x7b' :: (hexNumeral c.toNat ++ '\x7d' :: rest)⟩ =
      (bracedDigits? 6 none ⟨pos + 'u'.utf8Size + '\x7b'.utf8Size,
        hexNumeral c.toNat ++ '\x7d' :: rest⟩).bind fun r => (scalar? r.1).bind fun x =>
          some (x, r.2) := rfl
  rw [hread, bracedDigits?_hexNumeral hlt, Option.bind_some, scalar?_toNat, Option.bind_some]
  simp [Nat.add_assoc]

/-- A character is read back from its escape. -/
theorem literalChar_escape {quote : Char} (hq : quote = '\'' ∨ quote = '"') (c : Char) (pos : Nat)
    (rest : List Char) :
    literalChar quote ⟨pos, escape c ++ rest⟩ = .ok (c, ⟨pos + byteLength (escape c), rest⟩) := by
  have hescaped : ∀ {x y : Char}, unescape? ⟨pos + '\\'.utf8Size, x :: rest⟩ =
      some (y, ⟨pos + '\\'.utf8Size + x.utf8Size, rest⟩) →
      literalChar quote ⟨pos, ['\\', x] ++ rest⟩ = .ok (y, ⟨pos + byteLength ['\\', x], rest⟩) := by
    intro x y h
    simp [literalChar, Cursor.next?, h, Nat.add_assoc]
  unfold escape
  -- The seven short escapes.
  iterate 7
    split
    · rename_i hc
      subst hc
      exact hescaped rfl
  split
  · rename_i hc
    have h := unescape?_codePoint hc (pos + '\\'.utf8Size) rest
    simp [codePointEscape, literalChar, Cursor.next?, h, Nat.add_assoc]
  · rename_i hbackslash hsingle hdouble _
    have hquote : c ≠ quote := by
      rintro rfl
      exact hq.elim hsingle hdouble
    simp [literalChar, Cursor.next?, hbackslash, hquote]

theorem parses_quotedChar (c : Char) : quotedChar.Parses (charLiteral c) c := by
  have hchar : (⟨literalChar '\'', fun h => (advances_of_literalChar h).moves⟩ :
      TableReader Char).Parses (escape c) c := fun pos rest =>
    literalChar_escape (.inl rfl) c pos rest
  exact (parses_char '\'').bind (hchar.bind ((parses_char '\'').bind_pure fun _ => c))

theorem literalChars_eq (seen : List Char) (c : Cursor) :
    literalChars seen c =
      match literalChar '"' c with
      | .error _ => (seen.reverse, c)
      | .ok (x, c₁) => literalChars (x :: seen) c₁ := by
  rw [literalChars]
  split
  · rename_i h
    simp only [h]
  · rename_i h
    simp only [h]

theorem literalChars_escapeAll (seen cs : List Char) (pos : Nat) (rest : List Char) :
    literalChars seen ⟨pos, escapeAll cs ++ '"' :: rest⟩ =
      (seen.reverse ++ cs, ⟨pos + byteLength (escapeAll cs), '"' :: rest⟩) := by
  induction cs generalizing seen pos with
  | nil =>
    have herror : literalChar '"' ⟨pos, escapeAll [] ++ '"' :: rest⟩ = .error pos := by
      simp [escapeAll, literalChar, Cursor.next?]
    rw [literalChars_eq, herror]
    simp [escapeAll]
  | cons c cs ih =>
    have hchar := literalChar_escape (.inr rfl) c pos (escapeAll cs ++ '"' :: rest)
    have hall : escapeAll (c :: cs) ++ '"' :: rest =
        escape c ++ (escapeAll cs ++ '"' :: rest) := by
      simp [escapeAll]
    rw [literalChars_eq, hall, hchar]
    simp only
    rw [ih]
    simp [escapeAll, Nat.add_assoc]

theorem parses_quotedString (s : String) : quotedString.Parses (stringLiteral s.toList) s := by
  have hchars : (⟨fun c => .ok (literalChars [] c), fun {c _ _} h => by
      have := moves_literalChars [] c
      rwa [Except.ok.inj h] at this⟩ : TableReader (List Char)).ParsesBefore
        (escapeAll s.toList) '"' s.toList := fun pos rest =>
    congrArg Except.ok (literalChars_escapeAll [] s.toList pos rest)
  have hclose : (char '"' >>= fun _ => pure (String.ofList s.toList) : TableReader String).Parses
      ['"'] s := by
    rw [String.ofList_toList]
    exact (parses_char '"').bind_pure fun _ => s
  exact (parses_char '"').bind (hchars.bind hclose)

/-- Literals are read back as they were written, wherever they stand and whatever stands behind
them. -/
theorem literals_read_back :
    (∀ (s : String) (pos : Nat) (rest : List Char),
      quotedString.run ⟨pos, (quoteString s).toList ++ rest⟩ =
        .ok (s, ⟨pos + byteLength (quoteString s).toList, rest⟩)) ∧
    ∀ (c : Char) (pos : Nat) (rest : List Char),
      quotedChar.run ⟨pos, (quoteChar c).toList ++ rest⟩ =
        .ok (c, ⟨pos + byteLength (quoteChar c).toList, rest⟩) := by
  constructor
  · intro s pos rest
    rw [quoteString, String.toList_ofList]
    exact parses_quotedString s pos rest
  · intro c pos rest
    rw [quoteChar, String.toList_ofList]
    exact parses_quotedChar c pos rest

/-! ### Escaped text -/

/-- Escaped texts are equal only if the texts are. -/
theorem eq_of_escapeAll_eq {cs cs' : List Char} (h : escapeAll cs = escapeAll cs') : cs = cs' := by
  have hread := literalChars_escapeAll [] cs 0 []
  rw [h, literalChars_escapeAll] at hread
  exact (Prod.mk.inj hread).1.symm

theorem newline_not_mem_codePointEscape {c : Char} (h : isControl c = true) :
    '\n' ∉ codePointEscape c := by
  have hlt := toNat_lt_of_isControl h
  have hall : ∀ n < 256, '\n' ∉ hexNumeral n := by decide +kernel
  simp [codePointEscape, hall _ hlt]

theorem newline_not_mem_escape (c : Char) : '\n' ∉ escape c := by
  unfold escape
  split
  · decide
  · rename_i hnewline
    -- The six short escapes that are left.
    iterate 6
      split
      · decide
    split
    · rename_i hcontrol
      exact newline_not_mem_codePointEscape hcontrol
    · simpa using Ne.symm hnewline

theorem newline_not_mem_escapeAll (cs : List Char) : '\n' ∉ escapeAll cs := by
  intro hmem
  obtain ⟨c, -, hc⟩ := List.mem_flatMap.1 hmem
  exact newline_not_mem_escape c hc

/-! ### Numbers -/

theorem decimalDigit?_of_mem {n : Nat} {c : Char} (h : c ∈ Nat.toDigits 10 n) :
    decimalDigit? c = some (c.toNat - '0'.toNat) := by
  have hdigit := Nat.isDigit_of_mem_toDigits (by decide) (by decide) h
  simp only [Char.isDigit, Bool.and_eq_true, decide_eq_true_eq] at hdigit
  have hrange : '0' ≤ c ∧ c ≤ '9' := hdigit
  rw [decimalDigit?, if_pos hrange]

theorem isDecimalDigit_of_mem {n : Nat} {c : Char} (h : c ∈ Nat.toDigits 10 n) :
    isDecimalDigit c = true := by
  rw [isDecimalDigit, decimalDigit?_of_mem h]
  rfl

theorem decimalValue_toDigits (n : Nat) : decimalValue (Nat.toDigits 10 n) = n := by
  have hfold : ∀ (ds : List Char) (value : Nat),
      (∀ d ∈ ds, decimalDigit? d = some (d.toNat - '0'.toNat)) →
        ds.foldl (fun n d => n * 10 + (decimalDigit? d).getD 0) value =
          Nat.ofDigitChars 10 ds value := by
    intro ds
    induction ds with
    | nil => simp
    | cons d ds ih =>
      intro value h
      rw [List.forall_mem_cons] at h
      rw [List.foldl_cons, ih _ h.2, Nat.ofDigitChars_cons, h.1, Option.getD_some, Nat.mul_comm]
  rw [decimalValue, hfold _ _ fun d hd => decimalDigit?_of_mem hd, Nat.ofDigitChars_ten_toDigits]

/-- A number of 32 bits is read back where no digit stands behind it. -/
theorem parsesBefore_number {n : Nat} (hn : n ≤ maxPosition) {x : Char}
    (hx : isDecimalDigit x = false) : number.ParsesBefore (Nat.toDigits 10 n) x n := by
  intro pos rest
  have htake : (Nat.toDigits 10 n ++ x :: rest).takeWhile isDecimalDigit = Nat.toDigits 10 n := by
    rw [List.takeWhile_append_of_pos fun c hc => isDecimalDigit_of_mem hc,
      List.takeWhile_cons_of_neg (by simp [hx]), List.append_nil]
  have hdrop : (Nat.toDigits 10 n ++ x :: rest).dropWhile isDecimalDigit = x :: rest := by
    rw [List.dropWhile_append_of_pos fun c hc => isDecimalDigit_of_mem hc,
      List.dropWhile_cons_of_neg (by simp [hx])]
  have hle : ¬maxPosition < n := by omega
  have hdigits : (Nat.toDigits 10 n).isEmpty = false := by
    rw [List.isEmpty_eq_false_iff]
    exact Nat.toDigits_ne_nil
  simp only [number, Cursor.takeWhile, htake, hdrop, hdigits, decimalValue_toDigits, if_neg hle]
  rfl

end Source

end LexerGen
