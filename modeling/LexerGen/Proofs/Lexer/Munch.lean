import LexerGen.Lexer.Basic
import LexerGen.Proofs.TableRun
import Mathlib.Data.List.Infix
import Mathlib.Data.Nat.Find

/-! The longest match. Following a table as far as it goes and falling back to the last accepting
state finds the longest accepted text that is not empty, and fails exactly if there is none. -/

namespace LexerGen.Lexer

open Text

/-- The table accepts `text` from `state` on. -/
def AcceptsFrom (t : StateTable) (state : Nat) (text : List Char) : Prop :=
  ∃ tag, t.tagFrom? state text = some tag

/-- `text` is the longest text that `rest` starts with, is not empty and is accepted. -/
structure Longest (accepts : List Char → Prop) (rest text : List Char) : Prop where
  ne_nil : text ≠ []
  starts : text <+: rest
  accepted : accepts text
  longest : ∀ other, other ≠ [] → other <+: rest → accepts other → other.length ≤ text.length

theorem longest_iff {accepts : List Char → Prop} {rest text : List Char} :
    Longest accepts rest text ↔ text ≠ [] ∧ text ∈ rest.inits ∧ accepts text ∧
      ∀ other ∈ rest.inits, other ≠ [] → accepts other → other.length ≤ text.length := by
  simp only [List.mem_inits]
  constructor
  · rintro ⟨hne, hstarts, haccepts, hlongest⟩
    exact ⟨hne, hstarts, haccepts, fun other hs ho ha => hlongest other ho hs ha⟩
  · rintro ⟨hne, hstarts, haccepts, hlongest⟩
    exact ⟨hne, hstarts, haccepts, fun other ho hs ha => hlongest other hs ho ha⟩

/-- A text has finitely many starts, so where texts can be tested the longest one can be. -/
instance (accepts : List Char → Prop) [DecidablePred accepts] (rest text : List Char) :
    Decidable (Longest accepts rest text) :=
  decidable_of_iff _ longest_iff.symm

/-- Nothing but the empty text is accepted at the start of `rest`. -/
def NoneAccepted (accepts : List Char → Prop) (rest : List Char) : Prop :=
  ∀ text, text ≠ [] → text <+: rest → ¬accepts text

theorem exists_longest (accepts : List Char → Prop) (rest : List Char) :
    NoneAccepted accepts rest ∨ ∃ text, Longest accepts rest text := by
  classical
  by_cases hnone : NoneAccepted accepts rest
  · exact .inl hnone
  · right
    unfold NoneAccepted at hnone
    push Not at hnone
    obtain ⟨text, hne, hstarts, haccepts⟩ := hnone
    have hgreatest := Nat.findGreatest_spec (P := fun n => ∃ text, text ≠ [] ∧ text <+: rest ∧
      accepts text ∧ text.length = n) hstarts.length_le ⟨text, hne, hstarts, haccepts, rfl⟩
    obtain ⟨text, hne, hstarts, haccepts, hlen⟩ := hgreatest
    refine ⟨text, hne, hstarts, haccepts, fun other ho hs ha => ?_⟩
    rw [hlen]
    exact Nat.le_findGreatest hs.length_le ⟨other, ho, hs, ha, rfl⟩

/-- The last tag that is not empty on the way along `text`, and `active` if there is none. -/
def lastTag (t : StateTable) (state : Nat) (active : String) : List Char → String
  | [] => active
  | x :: text =>
    match t.next? state x with
    | none => active
    | some next =>
      match t.tag? next with
      | none => lastTag t next active text
      | some tag => lastTag t next (if tag = "" then active else tag) text

section

variable {t : StateTable} {state next : Nat} {x : Char}

theorem acceptsFrom_cons (hnext : t.next? state x = some next) (text : List Char) :
    AcceptsFrom t state (x :: text) ↔ AcceptsFrom t next text := by
  rw [AcceptsFrom, AcceptsFrom, StateTable.tagFrom?_cons, hnext]
  rfl

theorem not_acceptsFrom_cons (hnext : t.next? state x = none) (text : List Char) :
    ¬AcceptsFrom t state (x :: text) := by
  rintro ⟨tag, htag⟩
  rw [StateTable.tagFrom?_cons, hnext] at htag
  cases htag

theorem tag?_of_noneAccepted {rest : List Char} (hnext : t.next? state x = some next)
    (h : NoneAccepted (AcceptsFrom t state) (x :: rest)) : t.tag? next = none := by
  cases htag : t.tag? next with
  | none => rfl
  | some tag =>
    refine absurd ⟨tag, ?_⟩ (h [x] (by simp) (by simp))
    rw [StateTable.tagFrom?_cons, hnext]
    exact htag

theorem noneAccepted_of_cons {rest : List Char} (hnext : t.next? state x = some next)
    (h : NoneAccepted (AcceptsFrom t state) (x :: rest)) :
    NoneAccepted (AcceptsFrom t next) rest := by
  intro text _ hstarts haccepts
  refine h (x :: text) (by simp) ?_ ((acceptsFrom_cons hnext text).2 haccepts)
  exact List.cons_prefix_cons.2 ⟨rfl, hstarts⟩

/-- Where the longest match is a single character, nothing is accepted behind it. -/
theorem noneAccepted_of_longest_single {rest : List Char} (hnext : t.next? state x = some next)
    (h : Longest (AcceptsFrom t state) (x :: rest) [x]) :
    NoneAccepted (AcceptsFrom t next) rest := by
  intro text hne hstarts haccepts
  have hle := h.longest (x :: text) (by simp) (List.cons_prefix_cons.2 ⟨rfl, hstarts⟩)
    ((acceptsFrom_cons hnext text).2 haccepts)
  have hpos := List.length_pos_iff.2 hne
  rw [List.length_cons, List.length_singleton] at hle
  omega

theorem longest_of_cons {rest text : List Char} (hnext : t.next? state x = some next)
    (hne : text ≠ []) (h : Longest (AcceptsFrom t state) (x :: rest) (x :: text)) :
    Longest (AcceptsFrom t next) rest text := by
  refine ⟨hne, (List.cons_prefix_cons.1 h.starts).2, (acceptsFrom_cons hnext text).1 h.accepted,
    fun other _ hs ha => ?_⟩
  have hle := h.longest (x :: other) (by simp) (List.cons_prefix_cons.2 ⟨rfl, hs⟩)
    ((acceptsFrom_cons hnext other).2 ha)
  simpa using hle

end

/-! ### The loop -/

section

variable {t : StateTable} {start state count pos : Nat} {active : String} {cs : List Char}

theorem munchFrom_of_none {m : Match} (h : NoneAccepted (AcceptsFrom t state) cs) :
    munchFrom t start state active count (some m) pos cs = .ok m := by
  induction cs generalizing state count pos active with
  | nil => rfl
  | cons x rest ih =>
    rw [munchFrom]
    cases hnext : t.next? state x with
    | none => rfl
    | some next =>
      simp only [tag?_of_noneAccepted hnext h]
      exact ih (noneAccepted_of_cons hnext h)

theorem munchFrom_eq_error (h : NoneAccepted (AcceptsFrom t state) cs) :
    ∃ e, munchFrom t start state active count none pos cs = .error e := by
  induction cs generalizing state count pos active with
  | nil => exact ⟨_, rfl⟩
  | cons x rest ih =>
    rw [munchFrom]
    cases hnext : t.next? state x with
    | none => exact ⟨_, rfl⟩
    | some next =>
      simp only [tag?_of_noneAccepted hnext h]
      exact ih (noneAccepted_of_cons hnext h)

/-- The loop finds the longest match, whatever it had found before. -/
theorem munchFrom_of_longest {best : Option Match} {text : List Char}
    (h : Longest (AcceptsFrom t state) cs text) :
    munchFrom t start state active count best pos cs =
      .ok ⟨lastTag t state active text, count + text.length,
        ⟨pos + byteLength text, cs.drop text.length⟩⟩ := by
  induction cs generalizing state count pos active best text with
  | nil => exact absurd (List.prefix_nil.1 h.starts) h.ne_nil
  | cons x rest ih =>
    obtain ⟨text, rfl⟩ : ∃ text', text = x :: text' := by
      cases text with
      | nil => exact absurd rfl h.ne_nil
      | cons y text =>
        obtain ⟨rfl, -⟩ := List.cons_prefix_cons.1 h.starts
        exact ⟨text, rfl⟩
    rw [munchFrom.eq_def, lastTag]
    cases hnext : t.next? state x with
    | none => exact absurd h.accepted (not_acceptsFrom_cons hnext text)
    | some next =>
      have hbytes : pos + byteLength (x :: text) = pos + x.utf8Size + byteLength text := by
        rw [byteLength_cons, Nat.add_assoc]
      have hcount : count + (x :: text).length = count + 1 + text.length := by
        rw [List.length_cons]
        omega
      rw [hbytes, hcount, List.length_cons, List.drop_succ_cons]
      by_cases hne : text = []
      · subst hne
        obtain ⟨tag, htag⟩ := h.accepted
        rw [StateTable.tagFrom?_cons, hnext] at htag
        have htag : t.tag? next = some tag := htag
        simp only [hnext, htag]
        exact munchFrom_of_none (noneAccepted_of_longest_single hnext h)
      · cases htag : t.tag? next with
        | none =>
          simp only [hnext, htag]
          exact ih (longest_of_cons hnext hne h)
        | some tag =>
          simp only [hnext, htag]
          exact ih (longest_of_cons hnext hne h)

end

theorem munch_eq_error {t : StateTable} {c : Cursor}
    (h : NoneAccepted (AcceptsFrom t t.entry) c.rest) : ∃ e, munch t c = .error e :=
  munchFrom_eq_error h

/-- A match is the longest accepted text, with the last tag on the way. -/
theorem munch_eq_ok_iff {t : StateTable} {c : Cursor} {m : Match} :
    munch t c = .ok m ↔ ∃ text, Longest (AcceptsFrom t t.entry) c.rest text ∧
      m = ⟨lastTag t t.entry "" text, text.length,
        ⟨c.pos + byteLength text, c.rest.drop text.length⟩⟩ := by
  constructor
  · intro h
    rcases exists_longest (AcceptsFrom t t.entry) c.rest with hnone | ⟨text, htext⟩
    · obtain ⟨e, he⟩ := munch_eq_error hnone
      rw [he] at h
      cases h
    · rw [munch, munchFrom_of_longest htext, Nat.zero_add] at h
      exact ⟨text, htext, (Except.ok.inj h).symm⟩
  · rintro ⟨text, htext, rfl⟩
    rw [munch, munchFrom_of_longest htext, Nat.zero_add]

/-- Where no accepted text has the empty tag, the last tag is that of the text. -/
theorem lastTag_eq {t : StateTable} {state : Nat} {active tag : String} {text : List Char}
    (htags : ∀ v, t.tagFrom? state v ≠ some "") (hne : text ≠ [])
    (h : t.tagFrom? state text = some tag) : lastTag t state active text = tag := by
  induction text generalizing state active with
  | nil => exact absurd rfl hne
  | cons x text ih =>
    rw [lastTag]
    rw [StateTable.tagFrom?_cons] at h
    cases hnext : t.next? state x with
    | none => rw [hnext] at h; cases h
    | some next =>
      rw [hnext] at h
      have htags' : ∀ v, t.tagFrom? next v ≠ some "" := by
        intro v hv
        apply htags (x :: v)
        rw [StateTable.tagFrom?_cons, hnext]
        exact hv
      by_cases htext : text = []
      · subst htext
        have h : t.tag? next = some tag := h
        have hempty : tag ≠ "" := fun heq => htags' [] (by rw [StateTable.tagFrom?_nil, h, heq])
        simp [h, lastTag, hempty]
      · cases htag : t.tag? next with
        | none =>
          simp only [htag]
          exact ih htags' htext h
        | some tag' =>
          simp only [htag]
          exact ih htags' htext h

end LexerGen.Lexer
