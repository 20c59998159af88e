import StackScript.Text.Escaped

/-!
# Quoted texts

How listings and logs show a text: between double quotes, with a backslash
before a quote and a backslash, short escapes for four controls, and the code
point in hexadecimal for what cannot be shown.
-/

namespace StackScript.Text

/-- A character inside double quotes. -/
def escape (c : Char) : List Char :=
  if c == '"' then ['\\', '"']
  else if c == '\\' then ['\\', '\\']
  else if c == '\n' then ['\\', 'n']
  else if c == '\r' then ['\\', 'r']
  else if c == '\t' then ['\\', 't']
  else if c == '\x00' then ['\\', '0']
  else if isEscaped c then ['\\', 'u', '\x7b'] ++ Nat.toDigits 16 c.toNat ++ ['\x7d']
  else [c]

/-- A text between double quotes. -/
def quote (s : String) : String :=
  String.ofList ('"' :: s.toList.flatMap escape ++ ['"'])

end StackScript.Text
