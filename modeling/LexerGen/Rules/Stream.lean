import LexerGen.Rules.Reader

/-! Rule files, one declaration at a time or all at once. -/

namespace LexerGen.Rules

open Text

theorem consumes_expect (x : Char) : (expect x).Consumes :=
  Reader.consumes_bind _ fun _ => (Reader.consumes_satisfy _ _).bind _

theorem consumes_name : name.Consumes :=
  Reader.consumes_bind _ fun _ => (Reader.consumes_satisfy _ _).bind _

theorem consumes_statement (x : Char) : (statement x).Consumes := by
  unfold statement
  split
  · exact consumes_name.bind _
  · split
    · exact (consumes_expect _).bind _
    · exact Reader.consumes_fail _

/-- Everything but the end of the file takes up some text. -/
theorem advances_of_declaration {c c' : Cursor} {d : Declaration}
    (h : declaration.run c = .ok (d, c')) (hd : d.isEnd = false) : c.Advances c' := by
  have hskip : c.Moves (skipped c) := moves_skipped c
  have hrun : skip.run c = .ok ((), skipped c) := rfl
  have hhere : (Reader.here : RuleReader Cursor).run (skipped c) = .ok (skipped c, skipped c) := rfl
  rw [declaration, Reader.run_bind_ok hrun, Reader.run_bind_ok hhere] at h
  split at h
  · obtain ⟨rfl, -⟩ := Prod.mk.inj (Except.ok.inj h)
    cases hd
  · exact hskip.trans_advances ((consumes_statement _).bind _ h)

/-- The rest of a rule file. It is `finished` once its end or an error was given out. -/
structure Stream where
  cursor : Cursor
  finished : Bool
deriving Repr, DecidableEq

namespace Stream

def ofString (source : String) : Stream := ⟨.start source.toList, false⟩

/-- The next declaration, which is the end of the file over and over once it is reached. After an
error the stream stands where it stood. -/
def readNext (s : Stream) : Except RuleError Declaration × Stream :=
  match declaration.run s.cursor with
  | .error e => (.error e, s)
  | .ok (d, c) => (.ok d, { s with cursor := c })

/-- The next declaration; `none` from the end of the file on, and after an error. -/
def next? (s : Stream) : Option (Except RuleError Declaration) × Stream :=
  if s.finished then (none, s)
  else
    match s.readNext with
    | (.error e, s) => (some (.error e), { s with finished := true })
    | (.ok d, s) => if d.isEnd then (none, { s with finished := true }) else (some (.ok d), s)

end Stream

/-- The declarations from `c` on. -/
def declarationsFrom (c : Cursor) : Except RuleError (List Declaration) :=
  match h : declaration.run c with
  | .error e => .error e
  | .ok (d, c') =>
    match hd : d.isEnd with
    | true => .ok []
    | false =>
      have := (advances_of_declaration h hd).length_lt
      match declarationsFrom c' with
      | .error e => .error e
      | .ok ds => .ok (d :: ds)
termination_by c.rest.length

/-- The declarations of a rule file. -/
def parse (source : String) : Except RuleError (List Declaration) :=
  declarationsFrom (.start source.toList)

end LexerGen.Rules
