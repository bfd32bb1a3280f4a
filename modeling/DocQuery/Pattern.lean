import DocQuery.Unicode.Case

/-!
Text patterns and what they match.

A pattern relates the positions of a text: from a position where a match may start it leads to the
positions where that match may end. `ends` computes this for a set of starts at once, so no choice is
ever taken back. A text contains a match if some end can be reached from some start.
-/

namespace DocQuery

/-- A set of characters as it is written in a pattern. -/
inductive CharClass where
  | codes (set : Unicode.CodeSet)
  | category (category : Unicode.Category)
  | alphabetic
  | word
  | digit
  | cased
  | nothing
  | not (c : CharClass)
  | union (a b : CharClass)
  | inter (a b : CharClass)
  /-- The characters that have a variant of case in the class. -/
  | caseless (ascii : Bool) (c : CharClass)

namespace CharClass

def char (c : Char) : CharClass := .codes [(c.toNat, c.toNat)]

def any : CharClass := .not .nothing

def diff (a b : CharClass) : CharClass := .inter a (.not b)

def symmDiff (a b : CharClass) : CharClass := .union (diff a b) (diff b a)

def unions (cs : List CharClass) : CharClass := cs.foldr .union .nothing

def contains : CharClass → Char → Bool
  | codes set, x => set.contains x.toNat
  | category c, x => Unicode.categoryOf x = c
  | alphabetic, x => Unicode.isAlphabetic x
  | word, x => Unicode.isWord x
  | digit, x => Unicode.isDecimalDigit x
  | cased, x => Unicode.isCased x
  | nothing, _ => false
  | not c, x => !c.contains x
  | union a b, x => a.contains x || b.contains x
  | inter a b, x => a.contains x && b.contains x
  | caseless ascii c, x =>
    if ascii then c.contains x || c.contains x.toLower || c.contains x.toUpper
    else (Unicode.caseVariants x).any c.contains

end CharClass

/-- What holds at a position between two characters. -/
inductive Assertion where
  | startText
  | endText
  /-- The start of a line, where `crlf` tells whether a carriage return ends lines too. -/
  | startLine (crlf : Bool)
  | endLine (crlf : Bool)
  | wordBoundary (w : CharClass)
  | notWordBoundary (w : CharClass)
  | wordStart (w : CharClass)
  | wordEnd (w : CharClass)
  | notAfterWord (w : CharClass)
  | notBeforeWord (w : CharClass)

/-- Does the assertion hold between these two characters? Each is absent at its end of the text. -/
def Assertion.holds (before after : Option Char) : Assertion → Bool
  | startText => before.isNone
  | endText => after.isNone
  | startLine false => before.isNone || before = some '\n'
  | endLine false => after.isNone || after = some '\n'
  | startLine true => before.isNone || before = some '\n' || (before = some '\r' && after ≠ some '\n')
  | endLine true => after.isNone || after = some '\r' || (after = some '\n' && before ≠ some '\r')
  | wordBoundary w => before.any w.contains != after.any w.contains
  | notWordBoundary w => before.any w.contains == after.any w.contains
  | wordStart w => !before.any w.contains && after.any w.contains
  | wordEnd w => before.any w.contains && !after.any w.contains
  | notAfterWord w => !before.any w.contains
  | notBeforeWord w => !after.any w.contains

inductive Pattern where
  | empty
  | char (c : CharClass)
  | assertion (a : Assertion)
  | seq (p q : Pattern)
  | alt (p q : Pattern)
  /-- At least `least` times, and at most `most` times if it is given. -/
  | times (p : Pattern) (least : Nat) (most : Option Nat)

namespace Pattern

/-- A text with the characters at its positions. -/
abbrev Subject := Array Char

def before (text : Subject) (position : Nat) : Option Char :=
  if position = 0 then none else text[position - 1]?

/-- An ascending list that starts with `position`, united with another one; `rest` unites what follows. -/
def unionWith (position : Nat) (rest : List Nat → List Nat) : List Nat → List Nat
  | [] => position :: rest []
  | next :: more =>
    if position < next then position :: rest (next :: more)
    else if next < position then next :: unionWith position rest more
    else position :: rest more

/-- The union of two ascending lists. -/
def unionPositions : List Nat → List Nat → List Nat
  | [], b => b
  | position :: a, b => unionWith position (unionPositions a) b

/-- `step` applied `count` times. -/
def iterate (step : List Nat → List Nat) : Nat → List Nat → List Nat
  | 0, positions => positions
  | count + 1, positions => iterate step count (step positions)

/-- All that is reached in at most `count` steps, where `reached` has been so far and `latest` only in the
    last step. Only what a step adds can lead to more. -/
def closure (step : List Nat → List Nat) : Nat → List Nat → List Nat → List Nat
  | 0, _, reached => reached
  | count + 1, latest, reached =>
    match (step latest).filter (!reached.contains ·) with
    | [] => reached
    | added => closure step count added (unionPositions added reached)

/-- The positions where a match that starts at one of `starts` may end. A repetition needs no more rounds
    than there are positions: a round that moves on uses up text, and one that does not adds nothing. -/
def ends (text : Subject) : Pattern → List Nat → List Nat
  | empty, starts => starts
  | char c, starts => (starts.filter fun i => text[i]?.any c.contains).map (· + 1)
  | assertion a, starts => starts.filter fun i => a.holds (before text i) text[i]?
  | seq p q, starts => q.ends text (p.ends text starts)
  | alt p q, starts => unionPositions (p.ends text starts) (q.ends text starts)
  | times p least most, starts =>
    let rounds := text.size + 1
    let more := match most with
      | some most => min (most - least) rounds
      | none => rounds
    let reached := iterate (p.ends text) (min least rounds) starts
    closure (p.ends text) more reached reached

/-- Does the pattern match some part of the text? -/
def isMatch (p : Pattern) (text : String) : Bool :=
  let subject := text.toList.toArray
  !(p.ends subject (List.range (subject.size + 1))).isEmpty

end Pattern

end DocQuery
