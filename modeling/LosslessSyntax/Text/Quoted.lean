import LosslessSyntax.Unicode.CombiningMark
import LosslessSyntax.Unicode.Printable

/-!
# Quoted text

A text is shown between quotes with every character that would not show, or would be read as
something else, escaped. The rule is the same for any quote and any notion of a character that shows
plainly: `encode` takes both as arguments, and `quotedString` and `quotedChar` fix the quote. A
double quote is escaped in a string only, a single quote in a character only. Which characters show
plainly is an argument of `quotedString`, and of all that is shown with it, whose default is
`isPlain`.
-/

namespace LosslessSyntax

namespace Quoted

/-- The code point of a character in lower-case hexadecimal digits, between braces. -/
def escapeCodePoint (c : Char) : List Char :=
  '\\' :: 'u' :: '\x7b' :: (Nat.toDigits 16 c.toNat ++ ['\x7d'])

/-- One character of a text between two quotes. The five short escapes come first, then the quote,
then the plain characters, and any other is given by its code point. -/
def encodeChar (plain : Char → Bool) (quote c : Char) : List Char :=
  if c = '\x00' then ['\\', '0']
  else if c = '\t' then ['\\', 't']
  else if c = '\r' then ['\\', 'r']
  else if c = '\n' then ['\\', 'n']
  else if c = '\\' ∨ c = quote then ['\\', c]
  else if plain c then [c]
  else escapeCodePoint c

/-- The characters of a text between two quotes. -/
def encode (plain : Char → Bool) (quote : Char) (cs : List Char) : List Char :=
  cs.flatMap (encodeChar plain quote)

/-- A character that shows by itself, and keeps its place when others stand before it. -/
def isPlain (c : Char) : Bool :=
  !isCombiningMark c && isPrintable c

end Quoted

/-- A string between double quotes. -/
def quotedString (s : String) (plain : Char → Bool := Quoted.isPlain) : String :=
  String.ofList ('"' :: (Quoted.encode plain '"' s.toList ++ ['"']))

/-- A character between single quotes. -/
def quotedChar (c : Char) : String :=
  String.ofList ('\'' :: (Quoted.encode Quoted.isPlain '\'' [c] ++ ['\'']))

end LosslessSyntax
