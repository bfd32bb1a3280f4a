import DocQuery.Pattern
import DocQuery.Unicode.Script

/-!
The classes of characters that patterns call by a name.
-/

namespace DocQuery.CharClass

open Unicode

/-- The named classes of ASCII, in bracketed classes between `[:` and `:]`. -/
def ascii? : String → Option CharClass
  | "alnum" => some (.codes [(0x30, 0x39), (0x41, 0x5a), (0x61, 0x7a)])
  | "alpha" => some (.codes [(0x41, 0x5a), (0x61, 0x7a)])
  | "ascii" => some (.codes [(0, 0x7f)])
  | "blank" => some (.codes [(0x9, 0x9), (0x20, 0x20)])
  | "cntrl" => some (.codes [(0, 0x1f), (0x7f, 0x7f)])
  | "digit" => some (.codes [(0x30, 0x39)])
  | "graph" => some (.codes [(0x21, 0x7e)])
  | "lower" => some (.codes [(0x61, 0x7a)])
  | "print" => some (.codes [(0x20, 0x7e)])
  | "punct" => some (.codes [(0x21, 0x2f), (0x3a, 0x40), (0x5b, 0x60), (0x7b, 0x7e)])
  | "space" => some (.codes [(0x9, 0xd), (0x20, 0x20)])
  | "upper" => some (.codes [(0x41, 0x5a)])
  | "word" => some (.codes [(0x30, 0x39), (0x41, 0x5a), (0x5f, 0x5f), (0x61, 0x7a)])
  | "xdigit" => some (.codes [(0x30, 0x39), (0x41, 0x46), (0x61, 0x66)])
  | _ => none

/-- Word characters, of Unicode or of ASCII only. -/
def wordClass (unicode : Bool) : CharClass :=
  if unicode then .word else .codes [(0x30, 0x39), (0x41, 0x5a), (0x5f, 0x5f), (0x61, 0x7a)]

def digitClass (unicode : Bool) : CharClass := if unicode then .digit else .codes [(0x30, 0x39)]

def spaceClass (unicode : Bool) : CharClass :=
  if unicode then .codes whiteSpaceSet else .codes [(0x9, 0xd), (0x20, 0x20)]

def categories (cs : List Category) : CharClass := unions (cs.map .category)

def letter : CharClass :=
  categories [.uppercaseLetter, .lowercaseLetter, .titlecaseLetter, .modifierLetter, .otherLetter]

def mark : CharClass := categories [.nonspacingMark, .spacingMark, .enclosingMark]

def number : CharClass := categories [.decimalNumber, .letterNumber, .otherNumber]

def punctuation : CharClass :=
  categories [.connectorPunctuation, .dashPunctuation, .openPunctuation, .closePunctuation,
    .initialPunctuation, .finalPunctuation, .otherPunctuation]

def symbol : CharClass := categories [.mathSymbol, .currencySymbol, .modifierSymbol, .otherSymbol]

def separator : CharClass := categories [.spaceSeparator, .lineSeparator, .paragraphSeparator]

def other : CharClass := categories [.control, .format, .privateUse, .unassigned]

/-- The general categories and their groups by their names, in lower case without separators. -/
def categoryNames : List (List String × CharClass) :=
  [(["lu", "uppercaseletter"], .category .uppercaseLetter),
    (["ll", "lowercaseletter"], .category .lowercaseLetter),
    (["lt", "titlecaseletter"], .category .titlecaseLetter),
    (["lc", "casedletter"], categories [.uppercaseLetter, .lowercaseLetter, .titlecaseLetter]),
    (["lm", "modifierletter"], .category .modifierLetter),
    (["lo", "otherletter"], .category .otherLetter),
    (["l", "letter"], letter),
    (["mn", "nonspacingmark"], .category .nonspacingMark),
    (["mc", "spacingmark"], .category .spacingMark),
    (["me", "enclosingmark"], .category .enclosingMark),
    (["m", "mark", "combiningmark"], mark),
    (["nd", "decimalnumber", "digit"], .category .decimalNumber),
    (["nl", "letternumber"], .category .letterNumber),
    (["no", "othernumber"], .category .otherNumber),
    (["n", "number"], number),
    (["pc", "connectorpunctuation"], .category .connectorPunctuation),
    (["pd", "dashpunctuation"], .category .dashPunctuation),
    (["ps", "openpunctuation"], .category .openPunctuation),
    (["pe", "closepunctuation"], .category .closePunctuation),
    (["pi", "initialpunctuation"], .category .initialPunctuation),
    (["pf", "finalpunctuation"], .category .finalPunctuation),
    (["po", "otherpunctuation"], .category .otherPunctuation),
    (["p", "punctuation", "punct"], punctuation),
    (["sm", "mathsymbol"], .category .mathSymbol),
    (["sc", "currencysymbol"], .category .currencySymbol),
    (["sk", "modifiersymbol"], .category .modifierSymbol),
    (["so", "othersymbol"], .category .otherSymbol),
    (["s", "symbol"], symbol),
    (["zs", "spaceseparator"], .category .spaceSeparator),
    (["zl", "lineseparator"], .category .lineSeparator),
    (["zp", "paragraphseparator"], .category .paragraphSeparator),
    (["z", "separator"], separator),
    (["cc", "control", "cntrl"], .category .control),
    (["cf", "format"], .category .format),
    (["co", "privateuse"], .category .privateUse),
    (["cn", "unassigned"], .category .unassigned),
    (["c", "other"], other),
    (["any"], any),
    (["assigned"], .not (.category .unassigned)),
    (["ascii"], .codes [(0, 0x7f)])]

/-- Properties with two values by their names. -/
def propertyNames : List (List String × CharClass) :=
  [(["alpha", "alphabetic"], .alphabetic),
    (["lower", "lowercase"], .union (.category .lowercaseLetter) (.codes otherLowercase)),
    (["upper", "uppercase"], .union (.category .uppercaseLetter) (.codes otherUppercase)),
    (["space", "wspace", "whitespace"], .codes whiteSpaceSet),
    (["cased"], .cased),
    (["ahex", "asciihexdigit"], .codes [(0x30, 0x39), (0x41, 0x46), (0x61, 0x66)])]

def scriptNames : List (List String × CharClass) := Script.named.map fun (names, set) => (names, .codes set)

/-- Names are compared without case, blanks, dashes, underscores and a leading `is`. -/
def looseName (name : String) : String :=
  let chars := (name.toList.filter fun c => isAscii c && c ≠ ' ' && c ≠ '_' && c ≠ '-').map Char.toLower
  match chars with
  | 'i' :: 's' :: rest => if rest = ['c'] then "isc" else String.ofList rest
  | chars => String.ofList chars

def lookup (table : List (List String × CharClass)) (name : String) : Option CharClass :=
  (table.find? (·.1.contains name)).map Prod.snd

/-- The class of a property, a category or a script called by its name alone. -/
def named? (name : String) : Option CharClass :=
  let name := looseName name
  (lookup propertyNames name).or ((lookup categoryNames name).or (lookup scriptNames name))

/-- The class of a value of a property. -/
def valued? (property value : String) : Option CharClass :=
  match looseName property with
  | "gc" | "generalcategory" => lookup categoryNames (looseName value)
  | "sc" | "script" | "scx" | "scriptextensions" => lookup scriptNames (looseName value)
  | _ => none

end DocQuery.CharClass
