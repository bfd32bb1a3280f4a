import DocQuery.Unicode.Property

/-!
Quoted text, as keys and names are written in canonical form.

A quote and a backslash are escaped, so a quoted text ends at its first bare quote. Characters without a
shape of their own, and those that would attach to the one before, are written by their code.
-/

namespace DocQuery.Text

/-- The code of a character in braces behind a backslash and a `u`. -/
def escapeCode (c : Char) : List Char :=
  ['\\', 'u', '\x7b'] ++ Nat.toDigits 16 c.toNat ++ ['\x7d']

def quoteChar (c : Char) : List Char :=
  if c = '"' then ['\\', '"']
  else if c = '\\' then ['\\', '\\']
  else if c = '\n' then ['\\', 'n']
  else if c = '\r' then ['\\', 'r']
  else if c = '\t' then ['\\', 't']
  else if c.toNat = 0 then ['\\', '0']
  else if Unicode.isPrintable c && !Unicode.extendsGrapheme c then [c]
  else escapeCode c

def quoted (s : String) : String := "\"" ++ String.ofList (s.toList.flatMap quoteChar) ++ "\""

/-- The text without the white space at both ends. -/
def trim (s : String) : String :=
  String.ofList ((s.toList.dropWhile Unicode.isWhiteSpace).reverse.dropWhile Unicode.isWhiteSpace).reverse

end DocQuery.Text
