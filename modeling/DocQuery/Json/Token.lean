import DocQuery.Double.Decimal
import DocQuery.Text.Numeral
import DocQuery.Unicode.CodeSet

/-!
The tokens of JSON text.

A scan reads one character at a time and keeps what it has of the current token. Words and numbers run
on until a character that belongs to neither; only then are they judged.
-/

namespace DocQuery.Json

open Text (naturalOf)

inductive Token where
  | openBrace
  | closeBrace
  | openBracket
  | closeBracket
  | comma
  | colon
  | null
  | bool (b : Bool)
  | integer (n : Int)
  | double (x : Double)
  | string (s : String)

/-! ### Numbers -/

/-- The parts of a number: the sign, the digits before and after the point, and the exponent. -/
structure NumberText where
  negative : Bool
  whole : List Char
  fraction : Option (List Char)
  exponent : Option (Bool × List Char)

/-- Splits a number at its point and exponent mark. -/
def NumberText.ofChars (text : List Char) : NumberText :=
  let negative := text.head? = some '-'
  let unsigned := if negative then text.drop 1 else text
  let whole := unsigned.takeWhile Char.isDigit
  let rest := unsigned.dropWhile Char.isDigit
  let (fraction, rest) := match rest with
    | '.' :: rest => (some (rest.takeWhile Char.isDigit), rest.dropWhile Char.isDigit)
    | rest => (none, rest)
  let exponent := match rest with
    | [] => none
    | mark :: rest =>
      if mark = 'e' || mark = 'E' then
        match rest with
        | '-' :: digits => some (true, digits)
        | '+' :: digits => some (false, digits)
        | digits => some (false, digits)
      else some (false, [])
  ⟨negative, whole, fraction, exponent⟩

/-- Each part that is there has digits and nothing else, and the first has no zero in front. -/
def NumberText.isValid (t : NumberText) : Bool :=
  let isRun (digits : List Char) := !digits.isEmpty && digits.all Char.isDigit
  isRun t.whole && (t.whole.length = 1 || t.whole.head? ≠ some '0')
    && t.fraction.all isRun && t.exponent.all (isRun ·.2)

/-- The number that the text writes. Minus zero is a double, and so is an integer of more than 64 bits;
    a number beyond the doubles is refused. -/
def NumberText.token? (t : NumberText) : Option Token :=
  let n := naturalOf t.whole
  let isInteger := t.fraction.isNone && t.exponent.isNone
    && if t.negative then 0 < n && n ≤ Int64.minValue.toInt.natAbs else n < UInt64.size
  if !t.isValid then none
  else if isInteger then some (.integer (if t.negative then -n else n))
  else
    let fraction := t.fraction.getD []
    let exponent : Int := match t.exponent with
      | some (true, digits) => -naturalOf digits
      | some (false, digits) => naturalOf digits
      | none => 0
    let x := Double.ofDecimal t.negative (naturalOf (t.whole ++ fraction)) (exponent - fraction.length)
    if x.isFinite then some (.double x) else none

/-! ### Scanning -/

/-- What a scan has of the current token; character lists are in reverse. -/
inductive Partial where
  | between
  | word (letters : List Char)
  | number (chars : List Char)
  | string (chars : List Char)
  | escape (chars : List Char)
  /-- Four digits of a code unit, of which `left` are to come; `high` is the first half of a pair. -/
  | unit (chars : List Char) (high : Option Nat) (left : Nat) (value : Nat)
  /-- After the first half of a pair: a backslash and a `u` must follow. -/
  | awaitBackslash (chars : List Char) (high : Nat)
  | awaitUnit (chars : List Char) (high : Nat)

def isBlank (c : Char) : Bool := c = ' ' || c = '\n' || c = '\r' || c = '\t'

def isLetter (c : Char) : Bool := 'a' ≤ c && c ≤ 'z'

def isNumberChar (c : Char) : Bool := c.isDigit || c = '-' || c = '+' || c = '.' || c = 'e' || c = 'E'

def punctuation? : Char → Option Token
  | '\x7b' => some .openBrace
  | '\x7d' => some .closeBrace
  | '[' => some .openBracket
  | ']' => some .closeBracket
  | ',' => some .comma
  | ':' => some .colon
  | _ => none

def word? (letters : List Char) : Option Token :=
  if letters = "null".toList then some .null
  else if letters = "true".toList then some (.bool true)
  else if letters = "false".toList then some (.bool false)
  else none

def escaped? : Char → Option Char
  | '"' => some '"'
  | '\\' => some '\\'
  | '/' => some '/'
  | 'b' => some (Char.ofNat 8)
  | 'f' => some (Char.ofNat 12)
  | 'n' => some '\n'
  | 'r' => some '\r'
  | 't' => some '\t'
  | _ => none

/-- The value of a hexadecimal digit of either case. -/
def hexDigit? (c : Char) : Option Nat := Unicode.hexDigit? c.toLower

/-- A complete code unit: a character, the first half of a pair, or a pair with its first half. -/
def afterUnit (chars : List Char) (high : Option Nat) (unit : Nat) : Option Partial :=
  match high with
  | none =>
    if 0xd800 ≤ unit && unit ≤ 0xdbff then some (.awaitBackslash chars unit)
    else if 0xdc00 ≤ unit && unit ≤ 0xdfff then none
    else some (.string (Char.ofNat unit :: chars))
  | some high =>
    if 0xdc00 ≤ unit && unit ≤ 0xdfff then
      some (.string (Char.ofNat (0x10000 + (high - 0xd800) * 0x400 + (unit - 0xdc00)) :: chars))
    else none

/-- The start of a token, or a token that is one character. -/
def startToken (c : Char) : Option (List Token × Partial) :=
  if isBlank c then some ([], .between)
  else if c = '"' then some ([], .string [])
  else if c.isDigit || c = '-' then some ([], .number [c])
  else if isLetter c then some ([], .word [c])
  else (punctuation? c).map fun token => ([token], .between)

/-- One character of input: the tokens that it completes and what is left open. -/
def Partial.step : Partial → Char → Option (List Token × Partial)
  | .between, c => startToken c
  | .word letters, c =>
    if isLetter c then some ([], .word (c :: letters))
    else do
      let token ← word? letters.reverse
      let (tokens, next) ← startToken c
      return (token :: tokens, next)
  | .number chars, c =>
    if isNumberChar c then some ([], .number (c :: chars))
    else do
      let token ← (NumberText.ofChars chars.reverse).token?
      let (tokens, next) ← startToken c
      return (token :: tokens, next)
  | .string chars, c =>
    if c = '"' then some ([.string (String.ofList chars.reverse)], .between)
    else if c = '\\' then some ([], .escape chars)
    else if c.toNat < 32 then none
    else some ([], .string (c :: chars))
  | .escape chars, c =>
    if c = 'u' then some ([], .unit chars none 4 0)
    else (escaped? c).map fun e => ([], .string (e :: chars))
  | .unit chars high left value, c => do
    let value := 16 * value + (← hexDigit? c)
    if left = 1 then return ([], ← afterUnit chars high value)
    else return ([], .unit chars high (left - 1) value)
  | .awaitBackslash chars high, c => if c = '\\' then some ([], .awaitUnit chars high) else none
  | .awaitUnit chars high, c => if c = 'u' then some ([], .unit chars (some high) 4 0) else none

/-- The last token, if the input may end here. -/
def Partial.finish : Partial → Option (List Token)
  | .between => some []
  | .word letters => (word? letters.reverse).map ([·])
  | .number chars => ((NumberText.ofChars chars.reverse).token?).map ([·])
  | _ => none

/-- The tokens of a text; `tokens` holds those before it, in reverse. -/
def scanFrom (tokens : List Token) (state : Partial) : List Char → Option (List Token)
  | [] => state.finish.map fun last => tokens.reverse ++ last
  | c :: rest =>
    match state.step c with
    | some (new, next) => scanFrom (new.reverse ++ tokens) next rest
    | none => none

def scan (text : String) : Option (List Token) := scanFrom [] .between text.toList

end DocQuery.Json
