import Requisite.Text.Printable

/-!
# Quoted text

How a message shows a piece of text that came from outside: between double quotes, with everything
that could not be seen or would end the quotation written as an escape.
-/
namespace Requisite.Text

/-- The escape of a character by its code point, such as `\u{200b}`. -/
def codePointEscape (c : Char) : List Char :=
  "\\u\x7b".toList ++ Nat.toDigits 16 c.toNat ++ ['\x7d']

/-- How one character stands between double quotes. -/
def quotedChar (c : Char) : List Char :=
  if c = '"' then ['\\', '"']
  else if c = '\\' then ['\\', '\\']
  else if c = '\t' then ['\\', 't']
  else if c = '\r' then ['\\', 'r']
  else if c = '\n' then ['\\', 'n']
  else if c.toNat = 0 then ['\\', '0']
  else if isPrintable c then [c]
  else codePointEscape c

/-- A text as messages show it. -/
def quoted (s : String) : String :=
  String.ofList ('"' :: s.toList.flatMap quotedChar ++ ['"'])

end Requisite.Text
