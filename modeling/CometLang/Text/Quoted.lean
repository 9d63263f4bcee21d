import CometLang.Text.GraphemeExtend
import CometLang.Text.Ignorable
import CometLang.Text.Unprintable

/-!
# Quoted texts

A message shows a piece of the program's text between double quotes. Inside,
the quote, the backslash and the usual controls have two-character escapes;
every other character that cannot be shown on its own is written by its code
point in hexadecimal.
-/

namespace CometLang
namespace Text

/-- Shown alone, the character would be invisible or would join its neighbour. -/
def needsCode (c : Char) : Bool :=
  extendsGrapheme c || isIgnorable c || isUnprintable c

/-- The escape by code point: lower-case hexadecimal between braces. -/
def codeEscape (c : Char) : List Char :=
  "\\u\x7b".toList ++ Nat.toDigits 16 c.toNat ++ ['}']

/-- One character as it stands inside a quoted text. -/
def quotedChar (c : Char) : List Char :=
  if c = '"' then ['\\', '"']
  else if c = '\\' then ['\\', '\\']
  else if c = '\n' then ['\\', 'n']
  else if c = '\r' then ['\\', 'r']
  else if c = '\t' then ['\\', 't']
  else if c = '\x00' then ['\\', '0']
  else if needsCode c then codeEscape c
  else [c]

/-- A text between double quotes, with its escapes. -/
def quoted (s : String) : String :=
  String.ofList ('"' :: s.toList.flatMap quotedChar ++ ['"'])

end Text
end CometLang
