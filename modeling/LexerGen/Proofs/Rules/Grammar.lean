import LexerGen.Rules.Reader

/-! The grammar of rule files: which text stands for which declaration. Blanks and comments may
stand between the tokens of a declaration and around declarations, and none of the relations below
says where a token has to end, since what may stand behind it never continues it. -/

namespace LexerGen.Rules.Grammar

open Text

/-! ### Tokens -/

/-- Blanks and comments with their line ends. -/
inductive Gap : List Char → Prop
  | nil : Gap []
  | space {x : Char} {rest : List Char} (hx : isSpace x = true) (h : Gap rest) : Gap (x :: rest)
  | comment {line rest : List Char} (hline : '\n' ∉ line) (h : Gap rest) :
      Gap ('#' :: (line ++ '\n' :: rest))

/-- Blanks and comments at the end of a file, where the last comment needs no line end. -/
inductive LastGap : List Char → Prop
  | gap {g : List Char} (h : Gap g) : LastGap g
  | comment {g line : List Char} (h : Gap g) (hline : '\n' ∉ line) : LastGap (g ++ '#' :: line)

/-- A character with `first` and any number of characters with `more`. -/
inductive Run (first more : Char → Bool) : List Char → Prop
  | intro {x : Char} {xs : List Char} (hx : first x = true) (hxs : ∀ y ∈ xs, more y = true) :
      Run first more (x :: xs)

abbrev Name := Run isNameStart isNameChar

abbrev Word := Run isWordChar isWordChar

/-- A body as it is written, and as it is meant: a dollar sign is written with a backslash before
it, and every other character as it is. -/
inductive BodyText : List Char → List Char → Prop
  | nil : BodyText [] []
  | dollar {raw text : List Char} (h : BodyText raw text) :
      BodyText ('\\' :: '$' :: raw) ('$' :: text)
  | char {x : Char} {raw text : List Char} (hx : x ≠ '$')
      (hslash : x = '\\' → ∃ y, raw.head? = some y ∧ y ≠ '$') (h : BodyText raw text) :
      BodyText (x :: raw) (x :: text)

/-! ### Lists -/

/-- The text behind an opening brace, up to the closing one and with it, where `entry` says what an
entry is. A comma may stand behind the last entry. -/
inductive Entries {α : Type} (entry : List Char → α → Prop) : List Char → List α → Prop
  | nil {g : List Char} (hg : Gap g) : Entries entry (g ++ ['\x7d']) []
  | last {g t h : List Char} {a : α} (hg : Gap g) (ht : entry t a) (hh : Gap h) :
      Entries entry (g ++ (t ++ (h ++ ['\x7d']))) [a]
  | more {g t h rest : List Char} {a : α} {as : List α} (hg : Gap g) (ht : entry t a) (hh : Gap h)
      (hrest : Entries entry rest as) : Entries entry (g ++ (t ++ (h ++ ',' :: rest))) (a :: as)

/-- A tag, a colon and a keyword. -/
inductive KeywordEntry : List Char → String × String → Prop
  | intro {n g h w : List Char} (hn : Name n) (hg : Gap g) (hh : Gap h) (hw : Word w) :
      KeywordEntry (n ++ (g ++ ':' :: (h ++ w))) (.ofList w, .ofList n)

inductive IgnoreEntry : List Char → String → Prop
  | intro {n : List Char} (hn : Name n) : IgnoreEntry n (.ofList n)

/-- A label in brackets, a list in braces and a dollar sign. -/
inductive Block {α : Type} (label : List Char) (entry : List Char → α → Prop) :
    List Char → List α → Prop
  | intro {g₁ g₂ g₃ g₄ t : List Char} {as : List α} (h₁ : Gap g₁) (h₂ : Gap g₂) (h₃ : Gap g₃)
      (ht : Entries entry t as) (h₄ : Gap g₄) :
      Block label entry
        ('[' :: (g₁ ++ (label ++ (g₂ ++ ']' :: (g₃ ++ '\x7b' :: (t ++ (g₄ ++ ['$']))))))) as

/-! ### Declarations -/

/-- The text of a declaration at byte `pos`, and what it declares. -/
inductive Statement (pos : Nat) : List Char → RuleKind → Prop
  | pattern {n g h raw text : List Char} (hn : Name n) (hg : Gap g) (hh : Gap h)
      (hstart : ∀ x, raw.head? = some x → isSpace x = false ∧ x ≠ '#') (hbody : BodyText raw text) :
      Statement pos (n ++ (g ++ ':' :: h) ++ (raw ++ ['$']))
        (.pattern (.ofList n) (.ofList text)
          ⟨pos + byteLength (n ++ (g ++ ':' :: h)),
            pos + byteLength (n ++ (g ++ ':' :: h)) + byteLength raw⟩)
  | keywords {t : List Char} {entries : List (String × String)}
      (h : Block "keywords".toList KeywordEntry t entries) : Statement pos t (.keywords entries)
  | ignore {t : List Char} {tags : List String} (h : Block "ignore".toList IgnoreEntry t tags) :
      Statement pos t (.ignore tags)
  | userCode {g₁ g₂ g₃ g₄ n raw text : List Char} (h₁ : Gap g₁) (h₂ : Gap g₂) (h₃ : Gap g₃)
      (hn : Name n) (h₄ : Gap g₄) (hbody : BodyText raw text) :
      Statement pos
        ('[' :: (g₁ ++ ("user_def".toList ++ (g₂ ++ ',' :: (g₃ ++ (n ++ (g₄ ++ ']' ::
          (raw ++ ['$'])))))))) (.userCode (.ofList n) (.ofList text))

/-- The text of a file from byte `pos` on, and its declarations with the bytes that each takes
up. -/
inductive File : (pos : Nat) → List Char → List Declaration → Prop
  | done {pos : Nat} {g : List Char} (hg : LastGap g) : File pos g []
  | more {pos : Nat} {g t rest : List Char} {kind : RuleKind} {ds : List Declaration} (hg : Gap g)
      (ht : Statement (pos + byteLength g) t kind)
      (hrest : File (pos + byteLength g + byteLength t) rest ds) :
      File pos (g ++ (t ++ rest))
        (⟨kind, ⟨pos + byteLength g, pos + byteLength g + byteLength t⟩⟩ :: ds)

end LexerGen.Rules.Grammar
