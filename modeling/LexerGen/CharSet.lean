import LexerGen.CharRange

/-! Sets of characters as lists of inclusive ranges. Every operation keeps the ranges sorted,
disjoint and with a character between each two neighbours, so equal sets have equal lists. -/

namespace LexerGen

open Text

structure CharSet where
  ranges : List CharRange
deriving Repr, DecidableEq

namespace CharSet

def empty : CharSet := ⟨[]⟩

def isEmpty (s : CharSet) : Bool := s.ranges.isEmpty

def contains (s : CharSet) (c : Char) : Bool := s.ranges.any (·.contains c)

/-- `ranges` with the characters of `r`, which swallows every range that it meets or touches. -/
def insertRange (r : CharRange) : List CharRange → List CharRange
  | [] => [r]
  | s :: rest =>
    if r.apart s then r :: s :: rest
    else if s.apart r then s :: insertRange r rest
    else insertRange ⟨if s.lo < r.lo then s.lo else r.lo, if r.hi < s.hi then s.hi else r.hi⟩ rest

/-- `s` with the characters from `lo` to `hi`, of which there are none if `hi < lo`. -/
def addRange (s : CharSet) (lo hi : Char) : CharSet :=
  if lo ≤ hi then ⟨insertRange ⟨lo, hi⟩ s.ranges⟩ else s

def addChar (s : CharSet) (c : Char) : CharSet := s.addRange c c

/-- `s` with the characters of `t`. -/
def union (s t : CharSet) : CharSet := t.ranges.foldl (fun u r => u.addRange r.lo r.hi) s

/-- The ranges between `ranges`, from the character with index `start` on. -/
def gapsFrom (start : Nat) : List CharRange → List CharRange
  | [] => (CharRange.ofIndices? start Char.numCodePoints).toList
  | r :: rest =>
    (CharRange.ofIndices? start (index r.lo)).toList ++ gapsFrom (index r.hi + 1) rest

/-- All characters that are not in `s`. -/
def complement (s : CharSet) : CharSet := ⟨gapsFrom 0 s.ranges⟩

def ofRange (lo hi : Char) : CharSet := empty.addRange lo hi

def ofRanges (ranges : List CharRange) : CharSet := empty.union ⟨ranges⟩

def singleton (c : Char) : CharSet := ofRange c c

/-- The character of a set that holds just one. -/
def single? (s : CharSet) : Option Char :=
  match s.ranges with
  | [r] => if r.lo = r.hi then some r.lo else none
  | _ => none

/-- Every character but the newline. -/
def dot : CharSet := (singleton '\n').complement

def digit : CharSet := ofRange '0' '9'

/-- Letters and digits of ASCII, and the underscore. -/
def word : CharSet := ofRanges [⟨'0', '9'⟩, ⟨'A', 'Z'⟩, ⟨'_', '_'⟩, ⟨'a', 'z'⟩]

/-- Tab, newline, vertical tab, form feed, carriage return and space. -/
def space : CharSet := ofRanges [⟨'\t', '\r'⟩, ⟨' ', ' '⟩]

end CharSet

end LexerGen
