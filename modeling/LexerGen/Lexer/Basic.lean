import LexerGen.Lexer.Token
import LexerGen.StringMap
import LexerGen.Table.Basic
import LexerGen.Text.Cursor

/-! Lexers. A lexer follows its table for as long as it can, remembers the last accepting state that
it met, and cuts off the text up to there; keywords and ignored tags are looked at only then. -/

namespace LexerGen

open Text

structure Lexer where
  table : StateTable
  /-- Words with the tags that replace those of the table. -/
  keywords : Dictionary := .empty
  /-- The tags whose tokens are dropped. -/
  ignored : NameSet := .empty
deriving DecidableEq, Inhabited

/-- A match: its tag, its length in characters, and the cursor behind it. -/
structure Match where
  tag : String
  length : Nat
  next : Cursor

namespace Lexer

/-- Follows the table from `state` on through the text at `pos`, of which `count` characters after
`start` were read. `active` is the last tag met that was not empty, and `best` the longest match so
far. -/
def munchFrom (table : StateTable) (start : Nat) (state : Nat) (active : String) (count : Nat)
    (best : Option Match) (pos : Nat) : List Char → Except ScanError Match
  | [] =>
    match best with
    | some m => .ok m
    | none => .error (.unexpectedEnd start)
  | x :: rest =>
    match table.next? state x with
    | none =>
      match best with
      | some m => .ok m
      | none => .error (.noMatch pos x)
    | some state =>
      let pos := pos + x.utf8Size
      match table.tag? state with
      | none => munchFrom table start state active (count + 1) best pos rest
      | some tag =>
        let active := if tag = "" then active else tag
        let best := some ⟨active, count + 1, ⟨pos, rest⟩⟩
        munchFrom table start state active (count + 1) best pos rest

/-- The longest match at `c`. -/
def munch (table : StateTable) (c : Cursor) : Except ScanError Match :=
  munchFrom table c.pos table.entry "" 0 none c.pos c.rest

theorem length_of_munchFrom {table : StateTable} {start state count pos : Nat} {active : String}
    {best : Option Match} {cs : List Char} {m : Match}
    (h : munchFrom table start state active count best pos cs = .ok m) :
    best = some m ∨ m.next.rest.length < cs.length := by
  induction cs generalizing state active count best pos with
  | nil =>
    cases best with
    | none => cases h
    | some m' => exact .inl (congrArg some (Except.ok.inj h))
  | cons x rest ih =>
    unfold munchFrom at h
    split at h
    · cases best with
      | none => cases h
      | some m' => exact .inl (congrArg some (Except.ok.inj h))
    · simp only at h
      split at h
      · exact (ih h).imp_right fun h => Nat.lt_succ_of_lt h
      · rcases ih h with h | h
        · obtain rfl := Option.some.inj h
          exact .inr (Nat.lt_succ_self _)
        · exact .inr (Nat.lt_succ_of_lt h)

theorem length_of_munch {table : StateTable} {c : Cursor} {m : Match}
    (h : munch table c = .ok m) : m.next.rest.length < c.rest.length :=
  (length_of_munchFrom h).resolve_left (by simp)

/-- The tag of a match: that of its keyword if it is one. -/
def resolve (lexer : Lexer) (tag text : String) : String := (lexer.keywords.get? text).getD tag

/-- The next token at `c` that is not ignored, and the cursor behind it; `none` if there is no text
left. -/
def nextToken? (lexer : Lexer) (c : Cursor) : Option (Except ScanError (Token × Cursor)) :=
  match c.rest with
  | [] => none
  | _ :: _ =>
    match h : munch lexer.table c with
    | .error e => some (.error e)
    | .ok m =>
      let text := String.ofList (c.rest.take m.length)
      let tag := lexer.resolve m.tag text
      if lexer.ignored.contains tag then
        have := length_of_munch h
        lexer.nextToken? m.next
      else
        match Token.at tag text c.pos with
        | .error e => some (.error e)
        | .ok t => some (.ok (t, m.next))
termination_by c.rest.length

theorem length_of_nextToken? {lexer : Lexer} {c c' : Cursor} {t : Token}
    (h : lexer.nextToken? c = some (.ok (t, c'))) : c'.rest.length < c.rest.length := by
  fun_induction nextToken? lexer c with
  | case1 => cases h
  | case2 => simp at h
  | case3 c _ _ _ m h₁ _ _ _ _ ih => exact Nat.lt_trans (ih h) (length_of_munch h₁)
  | case4 => simp at h
  | case5 c _ _ _ m h₁ _ _ _ _ _ =>
    obtain ⟨-, rfl⟩ := Prod.mk.inj (Except.ok.inj (Option.some.inj h))
    exact length_of_munch h₁

/-- The tokens from `c` on. -/
def tokensFrom (lexer : Lexer) (c : Cursor) : Except ScanError (List Token) :=
  match h : lexer.nextToken? c with
  | none => .ok []
  | some (.error e) => .error e
  | some (.ok (t, c')) =>
    have := length_of_nextToken? h
    match lexer.tokensFrom c' with
    | .error e => .error e
    | .ok ts => .ok (t :: ts)
termination_by c.rest.length

/-- The tokens of a text. -/
def tokenize (lexer : Lexer) (input : String) : Except ScanError (List Token) :=
  lexer.tokensFrom (.start input.toList)

end Lexer

/-- The rest of a text that is being cut into tokens. It is `finished` once its end or an error was
given out. -/
structure TokenStream where
  cursor : Cursor
  finished : Bool
deriving Repr, DecidableEq

namespace TokenStream

def ofString (input : String) : TokenStream := ⟨.start input.toList, false⟩

/-- The next token; `none` from the end of the text on, and after an error. -/
def next? (lexer : Lexer) (s : TokenStream) : Option (Except ScanError Token) × TokenStream :=
  if s.finished then (none, s)
  else
    match lexer.nextToken? s.cursor with
    | none => (none, { s with finished := true })
    | some (.error e) => (some (.error e), { s with finished := true })
    | some (.ok (t, c)) => (some (.ok t), { s with cursor := c })

end TokenStream

end LexerGen
