import Brace.Text.Printable

/-!
# Text — quoting

How messages quote a name or a piece of input: between double quotes, with a backslash before a
quote or a backslash, short escapes for NUL, tab, newline and carriage return, and the code point
in hexadecimal for every other character that a reader could not see.
-/

namespace Brace.Text

/-- The code point in lower-case hexadecimal, with no leading zeros. -/
def hex (code : Nat) : List Char := Nat.toDigits 16 code

/-- One character as it stands between the quotes. -/
def quoteChar (c : Char) : List Char :=
  if c = '"' then ['\\', '"']
  else if c = '\\' then ['\\', '\\']
  else if c = '\n' then ['\\', 'n']
  else if c = '\t' then ['\\', 't']
  else if c = '\r' then ['\\', 'r']
  else if c = '\x00' then ['\\', '0']
  else if isPlain c then [c]
  else ['\\', 'u', '\x7b'] ++ hex c.toNat ++ ['\x7d']

/-- The text between double quotes, on one line and with nothing unseen in it. -/
def quote (s : String) : String :=
  String.ofList ('"' :: s.toList.flatMap quoteChar ++ ['"'])

end Brace.Text
