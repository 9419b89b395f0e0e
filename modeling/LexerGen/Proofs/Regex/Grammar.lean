import LexerGen.Limits
import LexerGen.Proofs.CanonicalSet
import LexerGen.Regex.Quantifier
import LexerGen.Text.Alphanumeric

/-! The grammar of patterns. A pattern is an alternation of sequences of atoms with quantifiers
behind them; the relations below say which text stands for which part of an expression, and none of
them speaks of how a pattern is read. Two bounds are part of the grammar: how deep groups may be
nested, and how many quantifiers may stand directly behind another one in the whole pattern. -/

namespace LexerGen.Regex.Grammar

open Text

/-! ### Escapes -/

/-- The letters and the digit that have a meaning behind a backslash. -/
def named : List (Char × CharSet) :=
  [('n', .singleton '\n'), ('t', .singleton '\t'), ('r', .singleton '\r'),
    ('f', .singleton '\x0c'), ('v', .singleton '\x0b'), ('0', .singleton '\x00'),
    ('d', .digit), ('D', CharSet.digit.complement), ('w', .word), ('W', CharSet.word.complement),
    ('s', .space), ('S', CharSet.space.complement)]

/-- The characters that write the number `n` in base sixteen, with `seen` for the digits before
them. -/
inductive Hex : Nat → List Char → Nat → Prop
  | nil (seen : Nat) : Hex seen [] seen
  | cons {seen d n : Nat} {x : Char} {ds : List Char} (hx : hexDigit? x = some d)
      (rest : Hex (seen * 16 + d) ds n) : Hex seen (x :: ds) n

/-- The text behind a backslash, and the characters that the escape stands for. -/
inductive Escape : List Char → CharSet → Prop
  | named {x : Char} {s : CharSet} (h : (x, s) ∈ named) : Escape [x] s
  | hexPair {x y c : Char} (h : Hex 0 [x, y] c.toNat) : Escape ['x', x, y] (.singleton c)
  | codePoint {ds : List Char} {c : Char} (hne : ds ≠ []) (hlength : ds.length ≤ 6)
      (h : Hex 0 ds c.toNat) : Escape ('u' :: '\x7b' :: (ds ++ ['\x7d'])) (.singleton c)
  | itself {x : Char} (h : isAlphanumeric x = false) : Escape [x] (.singleton x)

/-! ### Classes -/

/-- A single character as a class has it: written as it is, or as an escape. -/
inductive ClassChar : List Char → Char → Prop
  | itself {x : Char} (h : x ≠ '\\') : ClassChar [x] x
  | escape {t : List Char} {c : Char} (h : Escape t (.singleton c)) : ClassChar ('\\' :: t) c

/-- The rest of a class makes a range of the character before it: a dash, and behind it something
other than the closing bracket. -/
def RangeFollows (rest : List Char) : Prop := ∃ x more, rest = '-' :: x :: more ∧ x ≠ ']'

/-- An item of a class that goes on with `rest`, and the characters that it stands for. -/
inductive Item (rest : List Char) : List Char → CharSet → Prop
  | char {t : List Char} {c : Char} (h : ClassChar t c) (hrest : ¬RangeFollows rest) :
      Item rest t (.singleton c)
  | range {t u : List Char} {lo hi : Char} (hlo : ClassChar t lo) (hhi : ClassChar u hi)
      (hclose : u.head? ≠ some ']') (hle : lo ≤ hi) : Item rest (t ++ '-' :: u) (.ofRange lo hi)
  | set {t : List Char} {s : CharSet} (h : Escape t s) (hs : ∀ c, s ≠ .singleton c) :
      Item rest ('\\' :: t) s

/-- Items behind the first one, up to the closing bracket and with it. -/
inductive Items : List Char → List CharSet → Prop
  | close : Items [']'] []
  | item {t rest : List Char} {s : CharSet} {ss : List CharSet} (hitem : Item rest t s)
      (hclose : t.head? ≠ some ']') (hrest : Items rest ss) : Items (t ++ rest) (s :: ss)

/-- A class, and the characters in it, of which there must be some: those of its items, or all
others. Only the first item can start with a closing bracket. -/
inductive Class : List Char → CharSet → Prop
  | plain {t rest : List Char} {s chars : CharSet} {ss : List CharSet} (hitem : Item rest t s)
      (hcaret : t.head? ≠ some '^') (hrest : Items rest ss)
      (hchars : chars.Denotes fun c => ∃ u ∈ s :: ss, u.contains c = true)
      (hne : ∃ c, chars.contains c = true) : Class ('[' :: (t ++ rest)) chars
  | negated {t rest : List Char} {s chars : CharSet} {ss : List CharSet} (hitem : Item rest t s)
      (hrest : Items rest ss)
      (hchars : chars.Denotes fun c => ¬∃ u ∈ s :: ss, u.contains c = true)
      (hne : ∃ c, chars.contains c = true) : Class ('[' :: '^' :: (t ++ rest)) chars

/-! ### Quantifiers -/

/-- Digits for a count that is not above the greatest one. -/
structure Count (ds : List Char) (n : Nat) : Prop where
  ne_nil : ds ≠ []
  digits : ∀ d ∈ ds, isDecimalDigit d = true
  value : n = decimalValue ds
  le : n ≤ Limits.maxRepeat

inductive Quantifier : List Char → Bounds → Prop
  | star : Quantifier ['*'] ⟨0, none⟩
  | plus : Quantifier ['+'] ⟨1, none⟩
  | mark : Quantifier ['?'] ⟨0, some 1⟩
  | exactly {ds : List Char} {m : Nat} (h : Count ds m) :
      Quantifier ('\x7b' :: (ds ++ ['\x7d'])) ⟨m, some m⟩
  | atLeast {ds : List Char} {m : Nat} (h : Count ds m) :
      Quantifier ('\x7b' :: (ds ++ [',', '\x7d'])) ⟨m, none⟩
  | between {ds es : List Char} {m n : Nat} (hm : Count ds m) (hn : Count es n) (hle : m ≤ n) :
      Quantifier ('\x7b' :: (ds ++ ',' :: (es ++ ['\x7d']))) ⟨m, some n⟩

/-! ### Expressions -/

/-- The characters that do not stand for themselves outside of classes. -/
def special : List Char :=
  ['\\', '.', '[', ']', '(', ')', '|', '*', '+', '?', '\x7b', '\x7d']

/-- The text of a set of characters. -/
inductive SetText : List Char → CharSet → Prop
  | itself {x : Char} (h : x ∉ special) : SetText [x] (.singleton x)
  | dot : SetText ['.'] .dot
  | escape {t : List Char} {s : CharSet} (h : Escape t s) : SetText ('\\' :: t) s
  | bracket {t : List Char} {s : CharSet} (h : Class t s) : SetText t s

/-- The items one after the other; a single one stands for itself. -/
def concatOf : List Regex → Regex
  | [r] => r
  | rs => .concat rs

/-- One of the branches; a single one stands for itself. -/
def alternateOf : List Regex → Regex
  | [r] => r
  | rs => .alternate rs

mutual

/-- The text at byte `pos` of an atom, in which groups may be nested `room` deep. Here and below,
`stacked` counts the quantifiers directly behind another one. -/
inductive Atom : (room pos : Nat) → (text : List Char) → (stacked : Nat) → Regex → Prop
  | set {room pos : Nat} {text : List Char} {s : CharSet} (h : SetText text s) :
      Atom room pos text 0 (.set s)
  | group {room pos stacked : Nat} {text : List Char} {rs : List Regex}
      (h : Alternation room (pos + 1) text stacked rs) :
      Atom (room + 1) pos ('(' :: (text ++ [')'])) stacked (alternateOf rs)

/-- An atom and the quantifiers behind it, which apply to it from the left to the right;
`quantified` says whether there are any. -/
inductive Repeat : (room pos : Nat) → (text : List Char) → (stacked : Nat) → (quantified : Bool) →
    Regex → Prop
  | atom {room pos stacked : Nat} {text : List Char} {r : Regex}
      (h : Atom room pos text stacked r) : Repeat room pos text stacked false r
  | quantifier {room pos stacked : Nat} {t u : List Char} {quantified : Bool} {r : Regex}
      {b : Bounds} (h : Repeat room pos t stacked quantified r) (hu : Quantifier u b) :
      Repeat room pos (t ++ u) (stacked + quantified.toNat) true
        (.repeated r b.min b.max (pos + byteLength t))

/-- One or more items. -/
inductive Concat : (room pos : Nat) → (text : List Char) → (stacked : Nat) → List Regex → Prop
  | one {room pos stacked : Nat} {text : List Char} {quantified : Bool} {r : Regex}
      (h : Repeat room pos text stacked quantified r) : Concat room pos text stacked [r]
  | more {room pos k l : Nat} {t u : List Char} {quantified : Bool} {rs : List Regex} {r : Regex}
      (h : Concat room pos t k rs) (hr : Repeat room (pos + byteLength t) u l quantified r) :
      Concat room pos (t ++ u) (k + l) (rs ++ [r])

/-- One or more branches with bars between them. -/
inductive Alternation : (room pos : Nat) → (text : List Char) → (stacked : Nat) → List Regex → Prop
  | one {room pos stacked : Nat} {text : List Char} {rs : List Regex}
      (h : Concat room pos text stacked rs) : Alternation room pos text stacked [concatOf rs]
  | more {room pos k l : Nat} {t u : List Char} {bs rs : List Regex}
      (h : Alternation room pos t k bs) (hu : Concat room (pos + byteLength t + 1) u l rs) :
      Alternation room pos (t ++ '|' :: u) (k + l) (bs ++ [concatOf rs])

end

/-- The whole pattern `cs` stands for `r`, and keeps to the bounds. -/
def Derives (cs : List Char) (r : Regex) : Prop :=
  ∃ stacked rs, Alternation Limits.maxDepth 0 cs stacked rs ∧ stacked ≤ Limits.maxDepth ∧
    r = alternateOf rs

end LexerGen.Regex.Grammar
