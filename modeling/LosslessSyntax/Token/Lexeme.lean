import LosslessSyntax.Token.Kind
import LosslessSyntax.Text.Cut
import LosslessSyntax.Unicode.Numeric

/-!
# Lexemes

A lexeme is the text of one token, without trivia. Its first character decides what it is:

* an alphabetic character or an underscore starts the longest run of alphanumeric characters and
  underscores;
* an ASCII digit starts the longest run of digits, together with a dot and the digits after it if a
  digit follows the dot;
* a dot before a digit starts a fraction, unless the character before the dot belongs to a word;
* a quote starts a literal that ends at the next quote of its sort on the same line, where a
  backslash takes the character after it along;
* any other character, a quote without its partner included, stands for itself.

`Lexeme.next` takes a lexeme off a text, and `Lexeme.of_next` says that no character is lost.
-/

namespace LosslessSyntax

/-- Whether a character can start an identifier. -/
def startsWord (c : Char) : Bool :=
  isAlphabetic c || c = '_'

/-- Whether a character can belong to an identifier. -/
def isWord (c : Char) : Bool :=
  isAlphanumeric c || c = '_'

/-- Whether a text begins with an ASCII digit. -/
def startsWithDigit (cs : List Char) : Bool :=
  cs.head?.any Char.isDigit

/-- Divides a text after the first closing quote on its line, if there is one. A backslash and the
character after it are passed over together. -/
def throughQuote? (quote : Char) : List Char → Option (List Char × List Char)
  | '\\' :: c :: cs =>
    if isBreak c then none
    else (throughQuote? quote cs).map fun (body, rest) => ('\\' :: c :: body, rest)
  | c :: cs =>
    if c = '\\' || isBreak c then none
    else if c = quote then some ([c], cs)
    else (throughQuote? quote cs).map fun (body, rest) => (c :: body, rest)
  | [] => none

theorem throughQuote?_append {quote : Char} {cs body rest : List Char}
    (h : throughQuote? quote cs = some (body, rest)) : body ++ rest = cs := by
  fun_induction throughQuote? quote cs generalizing body rest with
  | case1 => cases h
  | case2 c cs _ ih =>
    obtain ⟨⟨_, _⟩, hs, he⟩ := Option.map_eq_some_iff.1 h
    cases he
    rw [← ih hs]; rfl
  | case3 => cases h
  | case4 => cases h; rfl
  | case5 c cs _ _ _ ih =>
    obtain ⟨⟨_, _⟩, hs, he⟩ := Option.map_eq_some_iff.1 h
    cases he
    rw [← ih hs]; rfl
  | case6 => cases h

namespace Lexeme

/-- The number that starts with a digit: an integer, or a float if a dot and a digit follow. -/
def number (c : Char) (cs : List Char) : Cut TokenKind :=
  let digits := cs.takeWhile Char.isDigit
  match cs.dropWhile Char.isDigit with
  | '.' :: rest =>
    if startsWithDigit rest then .run .float (c :: (digits ++ ['.'])) Char.isDigit rest
    else ⟨.integer, c :: digits, '.' :: rest⟩
  | rest => ⟨.integer, c :: digits, rest⟩

/-- The literal between two quotes of the same sort, if the second one is there. -/
def quoted? (kind : TokenKind) (quote : Char) (cs : List Char) : Option (Cut TokenKind) :=
  (throughQuote? quote cs).map fun (body, rest) => ⟨kind, quote :: body, rest⟩

/-- A character that stands for itself. -/
def single (c : Char) (cs : List Char) : Cut TokenKind :=
  ⟨(TokenKind.punctuation? c).getD .badToken, [c], cs⟩

/-- The lexeme that starts with `c` and goes on into `cs`, where `before` is the character before it
in the text. -/
def next (before : Option Char) (c : Char) (cs : List Char) : Cut TokenKind :=
  if startsWord c then .run .identifier [c] isWord cs
  else if c.isDigit then number c cs
  else if c = '.' && startsWithDigit cs && !before.any isWord then .run .float [c] Char.isDigit cs
  else if c = '"' then (quoted? .string c cs).getD (single c cs)
  else if c = '\'' then (quoted? .char c cs).getD (single c cs)
  else single c cs

theorem of_number (c : Char) (cs : List Char) : (number c cs).Of (c :: cs) := by
  have h := List.takeWhile_append_dropWhile (p := Char.isDigit) (l := cs)
  unfold number
  split
  · next rest hr =>
    rw [hr] at h
    split
    · refine ⟨?_, by simp [Cut.run]⟩
      simp [Cut.run, h]
    · exact ⟨by simp [h], by simp⟩
  · exact ⟨by simp [h], by simp⟩

theorem of_single (c : Char) (cs : List Char) : (single c cs).Of (c :: cs) :=
  ⟨rfl, by simp [single]⟩

theorem of_quoted? {kind : TokenKind} {quote : Char} {cs : List Char} {cut : Cut TokenKind}
    (h : quoted? kind quote cs = some cut) : cut.Of (quote :: cs) := by
  obtain ⟨⟨body, rest⟩, hs, rfl⟩ := Option.map_eq_some_iff.1 h
  exact ⟨by simp [throughQuote?_append hs], by simp⟩

theorem of_getD_quoted? (kind : TokenKind) (quote : Char) (cs : List Char) :
    ((quoted? kind quote cs).getD (single quote cs)).Of (quote :: cs) := by
  cases h : quoted? kind quote cs with
  | none => exact of_single quote cs
  | some cut => exact of_quoted? h

/-- A lexeme is cut off the front of the text. -/
theorem of_next (before : Option Char) (c : Char) (cs : List Char) :
    (next before c cs).Of (c :: cs) := by
  unfold next
  split
  · exact Cut.of_run _ _ _ (by simp)
  · split
    · exact of_number c cs
    · split
      · exact Cut.of_run _ _ _ (by simp)
      · split
        · exact of_getD_quoted? _ _ _
        · split
          · exact of_getD_quoted? _ _ _
          · exact of_single c cs

theorem length_rest_le (before : Option Char) (c : Char) (cs : List Char) :
    (next before c cs).rest.length ≤ cs.length :=
  Nat.le_of_lt_succ (of_next before c cs).length_rest_lt

end Lexeme

end LosslessSyntax
