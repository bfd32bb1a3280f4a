import DocQuery.Pattern.ClassName
import DocQuery.Text.Numeral

/-!
The written form of patterns.

A pattern is read from left to right with a stack of the groups that are open. Every round reads at
least one character, so the length of the text bounds the rounds. A pattern that does not follow the
form is refused as a whole.
-/

namespace DocQuery.Pattern

/-- What the letters of `(?imsRux)` switch. -/
structure Flags where
  ignoreCase : Bool := false
  multiLine : Bool := false
  dotAll : Bool := false
  crlf : Bool := false
  unicode : Bool := true
  verbose : Bool := false

/-- Skips blanks, and comments from `#` to the end of the line. -/
def skipVerbose (inComment : Bool) : List Char → List Char
  | [] => []
  | c :: rest =>
    if inComment then skipVerbose (c ≠ '\n') rest
    else if Unicode.isWhiteSpace c then skipVerbose false rest
    else if c = '#' then skipVerbose true rest
    else c :: rest

/-- Skips what does not count, in verbose patterns only. -/
def Flags.skip (flags : Flags) (text : List Char) : List Char :=
  if flags.verbose then skipVerbose false text else text

/-! ### Characters and escapes -/

/-- One element of a pattern or of a bracketed class. -/
inductive Primitive where
  | literal (c : Char)
  | set (c : CharClass)
  | assertion (a : Assertion)
  | dot

/-- The characters that mean something somewhere in a pattern. -/
def metaChars : List Char :=
  ['\\', '.', '+', '*', '?', '(', ')', '|', '[', ']', '\x7b', '\x7d', '^', '$', '#', '&', '-', '~']

/-- May the character be escaped to stand for itself? ASCII letters and digits may not, nor may angles. -/
def isEscapable (c : Char) : Bool :=
  metaChars.contains c
    || (Unicode.isAscii c && !Unicode.isAsciiLetter c && !c.isDigit && c ≠ '<' && c ≠ '>')

def hexValue? (c : Char) : Option Nat := Unicode.hexDigit? c.toLower

/-- The character with a code, if it is one. -/
def charOfCode? (code : Nat) : Option Char := if code.isValidChar then some (Char.ofNat code) else none

/-- Exactly `count` hexadecimal digits. -/
def fixedHex (flags : Flags) : Nat → Nat → List Char → Option (Nat × List Char)
  | 0, value, text => some (value, text)
  | count + 1, value, text =>
    match text with
    | [] => none
    | c :: rest => do fixedHex flags count (16 * value + (← hexValue? c)) (flags.skip rest)

/-- The text up to a closing brace, and what follows the brace. -/
def untilBrace (text : List Char) : Option (List Char × List Char) :=
  match text.dropWhile (· ≠ '\x7d') with
  | [] => none
  | _ :: rest => some (text.takeWhile (· ≠ '\x7d'), rest)

/-- Drops what verbose patterns skip from the inside of braces. -/
def compact (flags : Flags) : Nat → List Char → List Char
  | 0, _ => []
  | fuel + 1, text =>
    match flags.skip text with
    | [] => []
    | c :: rest => c :: compact flags fuel rest

/-- A character by its code: `count` digits, or any number of them in braces. -/
def hexEscape (flags : Flags) (count : Nat) (text : List Char) : Option (Char × List Char) :=
  match flags.skip text with
  | '\x7b' :: rest => do
    let (inside, rest) ← untilBrace rest
    let digits := compact flags inside.length inside
    if digits.isEmpty then none
    else
      let values ← digits.mapM hexValue?
      let c ← charOfCode? (values.foldl (fun n d => 16 * n + d) 0)
      return (c, flags.skip rest)
  | rest => do
    let (code, rest) ← fixedHex flags count 0 rest
    return (← charOfCode? code, rest)

/-- Splits a name at the first place where `mark` stands. -/
def splitAtMark (mark : List Char) : List Char → Option (List Char × List Char)
  | [] => none
  | c :: rest =>
    if mark.isPrefixOf (c :: rest) then some ([], (c :: rest).drop mark.length)
    else (splitAtMark mark rest).map fun (name, value) => (c :: name, value)

/-- The class that the inside of `\p` braces names. -/
def propertyClass? (inside : List Char) : Option CharClass :=
  let valued (name value : List Char) := CharClass.valued? (String.ofList name) (String.ofList value)
  match splitAtMark ['!', '='] inside with
  | some (name, value) => (valued name value).map .not
  | none =>
    match (splitAtMark [':'] inside).or (splitAtMark ['='] inside) with
    | some (name, value) => valued name value
    | none => CharClass.named? (String.ofList inside)

def Flags.fold (flags : Flags) (c : CharClass) : CharClass :=
  if flags.ignoreCase then .caseless (!flags.unicode) c else c

/-- A class by its property: one letter, or a name in braces. Only Unicode has properties. -/
def propertyEscape (flags : Flags) (negated : Bool) (text : List Char) : Option (CharClass × List Char) := do
  let (inside, rest) ← match flags.skip text with
    | '\x7b' :: rest => do
      let (inside, rest) ← untilBrace rest
      pure (compact flags inside.length inside, rest)
    | '\\' :: _ | [] => none
    | c :: rest => some ([c], flags.skip rest)
  let c ← if flags.unicode then propertyClass? inside else none
  return (if negated then .not (flags.fold c) else flags.fold c, rest)

/-- A shorthand class. Without Unicode its complement would hold halves of characters. -/
def shorthand (flags : Flags) (negated : Bool) (c : CharClass) : Option CharClass :=
  if !negated then some c else if flags.unicode then some (.not c) else none

/-- A word boundary; braces after it may name one side of it. A brace that opens a repetition is left. -/
def boundaryEscape (flags : Flags) (text : List Char) : Option (Assertion × List Char) :=
  let w := CharClass.wordClass flags.unicode
  let isNameChar (c : Char) := Unicode.isAsciiLetter c || c = '-'
  match text with
  | '\x7b' :: rest =>
    match flags.skip rest with
    | [] => none
    | c :: _ =>
      if !isNameChar c then some (.wordBoundary w, text)
      else do
        let (inside, rest) ← untilBrace rest
        match String.ofList (compact flags inside.length inside) with
        | "start" => some (.wordStart w, rest)
        | "end" => some (.wordEnd w, rest)
        | "start-half" => some (.notAfterWord w, rest)
        | "end-half" => some (.notBeforeWord w, rest)
        | _ => none
  | _ => some (.wordBoundary w, text)

/-- What follows a backslash. -/
def escape (flags : Flags) : List Char → Option (Primitive × List Char)
  | [] => none
  | c :: rest =>
    let literal (c : Char) : Option (Primitive × List Char) := some (.literal c, rest)
    let perl (negated : Bool) (cls : CharClass) : Option (Primitive × List Char) :=
      (shorthand flags negated cls).map fun cls => (.set cls, rest)
    let property (negated : Bool) : Option (Primitive × List Char) :=
      (propertyEscape flags negated rest).map fun (cls, rest) => (.set cls, rest)
    let hex (count : Nat) : Option (Primitive × List Char) :=
      (hexEscape flags count rest).map fun (c, rest) => (.literal c, rest)
    let place (a : Assertion) : Option (Primitive × List Char) := some (.assertion a, rest)
    let w := CharClass.wordClass flags.unicode
    if isEscapable c then literal c
    else match c with
      | 'x' => hex 2
      | 'u' => hex 4
      | 'U' => hex 8
      | 'p' => property false
      | 'P' => property true
      | 'd' => perl false (CharClass.digitClass flags.unicode)
      | 'D' => perl true (CharClass.digitClass flags.unicode)
      | 's' => perl false (CharClass.spaceClass flags.unicode)
      | 'S' => perl true (CharClass.spaceClass flags.unicode)
      | 'w' => perl false w
      | 'W' => perl true w
      | 'a' => literal (Char.ofNat 7)
      | 'f' => literal (Char.ofNat 12)
      | 't' => literal '\t'
      | 'n' => literal '\n'
      | 'r' => literal '\r'
      | 'v' => literal (Char.ofNat 11)
      | 'A' => place .startText
      | 'z' => place .endText
      | 'b' => (boundaryEscape flags rest).map fun (a, rest) => (.assertion a, rest)
      | 'B' => place (.notWordBoundary w)
      | '<' => place (.wordStart w)
      | '>' => place (.wordEnd w)
      | _ => none

/-- A character outside ASCII has no place in a pattern without Unicode. -/
def Flags.allows (flags : Flags) (c : Char) : Bool := flags.unicode || Unicode.isAscii c

/-! ### Bracketed classes -/

inductive SetOp where
  | inter
  | diff
  | symmDiff

/-- A bracket or a set operation that is still open. -/
inductive ClassFrame where
  | bracket (outer : List CharClass) (negated : Bool)
  | op (op : SetOp) (left : CharClass)

def SetOp.apply (flags : Flags) (op : SetOp) (a b : CharClass) : CharClass :=
  match op with
  | .inter => .inter (flags.fold a) (flags.fold b)
  | .diff => CharClass.diff (flags.fold a) (flags.fold b)
  | .symmDiff => CharClass.symmDiff (flags.fold a) (flags.fold b)

/-- The class of the items read last, joined with the operand before it. -/
def closeOperand (flags : Flags) (items : List CharClass) : List ClassFrame → CharClass × List ClassFrame
  | .op op left :: frames => (op.apply flags left (CharClass.unions items), frames)
  | frames => (CharClass.unions items, frames)

/-- What comes after an opening bracket: a caret, dashes that stand for themselves, and a closing bracket
    in the first place, which stands for itself too. -/
def openBracket (flags : Flags) (text : List Char) : Option (Bool × List CharClass × List Char) :=
  let text := flags.skip text
  let (negated, text) := match text with
    | '^' :: rest => (true, flags.skip rest)
    | text => (false, text)
  let (dashes, text) := leadingDashes text.length text
  match text with
  | [] => none
  | ']' :: rest =>
    if dashes.isEmpty then some (negated, [CharClass.char ']'], flags.skip rest) else some (negated, dashes, text)
  | _ => some (negated, dashes, text)
where
  leadingDashes : Nat → List Char → List CharClass × List Char
    | fuel + 1, '-' :: rest =>
      let (more, rest) := leadingDashes fuel (flags.skip rest)
      (CharClass.char '-' :: more, rest)
    | _, text => ([], text)

/-- A named class of ASCII, as `[:alpha:]` or `[:^alpha:]` after the bracket. -/
def asciiClass? (text : List Char) : Option (CharClass × List Char) :=
  match text with
  | ':' :: rest =>
    let (negated, rest) := match rest with
      | '^' :: rest => (true, rest)
      | rest => (false, rest)
    match rest.dropWhile (· ≠ ':') with
    | ':' :: ']' :: after =>
      (CharClass.ascii? (String.ofList (rest.takeWhile (· ≠ ':')))).map fun c => (if negated then .not c else c, after)
    | _ => none
  | _ => none

def classItem (flags : Flags) : List Char → Option (Primitive × List Char)
  | [] => none
  | '\\' :: rest => escape flags rest
  | c :: rest => some (.literal c, rest)

/-- An item of a class: a character, a range of characters, or a class by a name. -/
def classRange (flags : Flags) (text : List Char) : Option (CharClass × List Char) := do
  let (first, rest) ← classItem flags text
  let rest := flags.skip rest
  let single : Option (CharClass × List Char) := match first with
    | .literal c => if flags.allows c then some (CharClass.char c, rest) else none
    | .set c => some (c, rest)
    | _ => none
  match rest with
  | '-' :: after =>
    match flags.skip after with
    | [] => none
    | ']' :: _ | '-' :: _ => single
    | next => do
      let (last, rest) ← classItem flags next
      match first, last with
      | .literal low, .literal high =>
        if low.toNat ≤ high.toNat && flags.allows low && flags.allows high then
          some (.codes [(low.toNat, high.toNat)], rest)
        else none
      | _, _ => none
  | _ => single

/-- Reads a bracketed class to its end. `items` are those of the operand that is being read. -/
def classFrom (flags : Flags) : Nat → List CharClass → List ClassFrame → List Char → Option (CharClass × List Char)
  | 0, _, _, _ => none
  | fuel + 1, items, frames, text =>
    let operator (op : SetOp) (rest : List Char) :=
      let (left, frames) := closeOperand flags items frames
      classFrom flags fuel [] (.op op left :: frames) rest
    match flags.skip text with
    | [] => none
    | '[' :: rest =>
      match asciiClass? rest with
      | some (c, rest) => classFrom flags fuel (flags.fold c :: items) frames rest
      | none =>
        match openBracket flags rest with
        | some (negated, inner, rest) => classFrom flags fuel inner (.bracket items negated :: frames) rest
        | none => none
    | ']' :: rest =>
      match closeOperand flags items frames with
      | (set, .bracket outer negated :: frames) =>
        let c := if negated then .not (flags.fold set) else flags.fold set
        if frames.isEmpty then some (c, rest) else classFrom flags fuel (c :: outer) frames rest
      | _ => none
    | '&' :: '&' :: rest => operator .inter rest
    | '-' :: '-' :: rest => operator .diff rest
    | '~' :: '~' :: rest => operator .symmDiff rest
    | text =>
      match classRange flags text with
      | some (c, rest) => classFrom flags fuel (c :: items) frames rest
      | none => none

/-- A bracketed class after its bracket. Without Unicode it must not reach beyond ASCII. -/
def bracketed (flags : Flags) (text : List Char) : Option (CharClass × List Char) := do
  let (negated, items, rest) ← openBracket flags text
  let (c, rest) ← classFrom flags (rest.length + 1) items [.bracket [] negated] rest
  if flags.unicode || !c.contains (Char.ofNat 0x80) then some (c, rest) else none

/-! ### Groups -/

/-- A part of a sequence. A change of flags is one too, but nothing that could be repeated. -/
inductive Piece where
  | pattern (p : Pattern)
  | flags

/-- What is known of a group that is still open: its sequence so far, in reverse, and its finished branches. -/
structure Group where
  pieces : List Piece
  branches : List Pattern
  /-- The flags outside of the group. -/
  outer : Flags

def sequence (pieces : List Piece) : Pattern :=
  pieces.foldl (fun after piece => match piece with
    | .pattern p => .seq p after
    | .flags => after) .empty

/-- The pattern of a group: its branches and its last sequence. -/
def Group.close (g : Group) : Pattern := g.branches.foldl (fun last branch => .alt branch last) (sequence g.pieces)

structure State where
  flags : Flags
  group : Group
  /-- The groups around it, the innermost first. -/
  enclosing : List Group
  names : List String

def State.push (s : State) (p : Pattern) : State :=
  { s with group := { s.group with pieces := .pattern p :: s.group.pieces } }

def State.enter (s : State) (flags : Flags) : State :=
  { s with flags := flags, group := ⟨[], [], s.flags⟩, enclosing := s.group :: s.enclosing }

/-- Closes the innermost group, which becomes a piece of the one around it. -/
def State.leave (s : State) : Option State :=
  match s.enclosing with
  | [] => none
  | outer :: rest =>
    some { s with
      flags := s.group.outer
      group := { outer with pieces := .pattern s.group.close :: outer.pieces }
      enclosing := rest }

def State.branch (s : State) : State :=
  { s with group := { s.group with pieces := [], branches := sequence s.group.pieces :: s.group.branches } }

/-- Repeats the last piece. -/
def State.repeat (s : State) (least : Nat) (most : Option Nat) : Option State :=
  match s.group.pieces with
  | .pattern p :: rest => some { s with group := { s.group with pieces := .pattern (.times p least most) :: rest } }
  | _ => none

def setFlag (on : Bool) (flags : Flags) : Char → Option Flags
  | 'i' => some { flags with ignoreCase := on }
  | 'm' => some { flags with multiLine := on }
  | 's' => some { flags with dotAll := on }
  | 'R' => some { flags with crlf := on }
  | 'u' => some { flags with unicode := on }
  | 'x' => some { flags with verbose := on }
  | 'U' => some flags
  | _ => none

/-- Flag letters up to `:` or `)`. A letter stands once, and so does the dash before those that are
    switched off; the dash is not the last. -/
def flagLetters (flags : Flags) (on : Bool) (seen : List Char) : List Char → Option (Flags × List Char × List Char)
  | [] => none
  | c :: rest =>
    if c = ':' || c = ')' then if seen.head? = some '-' then none else some (flags, seen, c :: rest)
    else if seen.contains c then none
    else if c = '-' then flagLetters flags false (c :: seen) rest
    else match setFlag on flags c with
      | some flags => flagLetters flags on (c :: seen) rest
      | none => none

/-- The name of a group, up to an angle. -/
def groupName (text : List Char) : Option (String × List Char) :=
  let name := text.takeWhile (· ≠ '>')
  let isFirst (c : Char) := c = '_' || Unicode.isAlphabetic c
  let isLater (c : Char) := c = '_' || c = '.' || c = '[' || c = ']' || Unicode.isAlphanumeric c
  match name, text.dropWhile (· ≠ '>') with
  | first :: later, '>' :: rest =>
    if isFirst first && later.all isLater then some (String.ofList name, rest) else none
  | _, _ => none

/-- What follows an opening parenthesis. Patterns do not look ahead or behind. -/
def openGroup (s : State) (text : List Char) : Option (State × List Char) :=
  let named (rest : List Char) : Option (State × List Char) := do
    let (name, rest) ← groupName rest
    if s.names.contains name then none else some ({ s.enter s.flags with names := name :: s.names }, rest)
  match s.flags.skip text with
  | '?' :: '=' :: _ | '?' :: '!' :: _ | '?' :: '<' :: '=' :: _ | '?' :: '<' :: '!' :: _ => none
  | '?' :: 'P' :: '<' :: rest | '?' :: '<' :: rest => named rest
  | '?' :: rest =>
    match flagLetters s.flags true [] rest with
    | some (flags, seen, ')' :: rest) =>
      if seen.isEmpty then none
      else some ({ s with flags := flags, group := { s.group with pieces := .flags :: s.group.pieces } }, rest)
    | some (flags, _, _ :: rest) => some (s.enter flags, rest)
    | _ => none
  | rest => some (s.enter s.flags, rest)

/-! ### Repetitions -/

/-- A count: digits, with blanks around them. -/
def count (flags : Flags) (text : List Char) : Option (Nat × List Char) :=
  let digits := compact flags text.length (text.dropWhile Unicode.isWhiteSpace)
  let number := digits.takeWhile Char.isDigit
  let value := Text.naturalOf number
  if number.isEmpty || UInt32.size ≤ value then none
  else some (value, (digits.dropWhile Char.isDigit).dropWhile Unicode.isWhiteSpace)

/-- The inside of the braces of a counted repetition: `n`, `n,` or `n,m`. -/
def countRange (flags : Flags) (inside : List Char) : Option (Nat × Option Nat) := do
  let (least, rest) ← count flags inside
  match rest with
  | [] => some (least, some least)
  | ',' :: rest =>
    if (flags.skip rest).isEmpty then some (least, none)
    else do
      let (most, rest) ← count flags rest
      if rest.isEmpty && least ≤ most then some (least, some most) else none
  | _ => none

/-- A question mark after a repetition asks for few rounds; whether there is a match is the same. -/
def skipLazy : List Char → List Char
  | '?' :: rest => rest
  | text => text

/-! ### The whole pattern -/

def Primitive.pattern (flags : Flags) : Primitive → Option Pattern
  | .literal c => if flags.allows c then some (.char (flags.fold (CharClass.char c))) else none
  | .set c => some (.char c)
  | .assertion a => some (.assertion a)
  | .dot =>
    if !flags.unicode then none
    else if flags.dotAll then some (.char CharClass.any)
    else if flags.crlf then some (.char (.not (.codes [(10, 10), (13, 13)])))
    else some (.char (.not (.codes [(10, 10)])))

def primitive (flags : Flags) : Char → List Char → Option (Primitive × List Char)
  | '\\', rest => escape flags rest
  | '.', rest => some (.dot, rest)
  | '^', rest => some (.assertion (if flags.multiLine then .startLine flags.crlf else .startText), rest)
  | '$', rest => some (.assertion (if flags.multiLine then .endLine flags.crlf else .endText), rest)
  | c, rest => some (.literal c, rest)

/-- One element of the pattern. -/
def State.step (s : State) (c : Char) (rest : List Char) : Option (State × List Char) :=
  let repeated (least : Nat) (most : Option Nat) (rest : List Char) : Option (State × List Char) :=
    (s.repeat least most).map fun s => (s, skipLazy rest)
  match c with
  | '(' => openGroup s rest
  | ')' => s.leave.map fun s => (s, rest)
  | '|' => some (s.branch, rest)
  | '[' => (bracketed s.flags rest).map fun (cls, rest) => (s.push (.char cls), rest)
  | '?' => repeated 0 (some 1) rest
  | '*' => repeated 0 none rest
  | '+' => repeated 1 none rest
  | '\x7b' => do
    let (inside, rest) ← untilBrace rest
    let (least, most) ← countRange s.flags inside
    repeated least most (s.flags.skip rest)
  | c => do
    let (p, rest) ← primitive s.flags c rest
    let p ← p.pattern s.flags
    return (s.push p, rest)

def State.run : Nat → State → List Char → Option State
  | 0, _, _ => none
  | fuel + 1, s, text =>
    match s.flags.skip text with
    | [] => some s
    | c :: rest =>
      match s.step c rest with
      | some (s, rest) => run fuel s rest
      | none => none

/-- The pattern that a text writes. -/
def parse? (text : String) : Option Pattern := do
  let s ← State.run (text.toList.length + 1) ⟨{}, ⟨[], [], {}⟩, [], []⟩ text.toList
  if s.enclosing.isEmpty then some s.group.close else none

end DocQuery.Pattern
