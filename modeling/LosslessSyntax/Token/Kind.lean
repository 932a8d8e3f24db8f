/-!
# Kinds of tokens

The kinds fall into four groups: those without a spelling of their own (identifiers, literals, the
end of the input, and the marks for what is bad or missing), the three kinds of blank tokens, single
punctuation characters, and operators of two or three characters. The lexer never makes a blank
token or an operator of several characters; the parser merges the latter from single characters.

`TokenKind.text?` gives the spelling of the kinds that have one, `TokenKind.punctuation?` reads it
back for a single character, and `TokenKind.ofName?` reads back what `TokenKind.name` shows.
-/

namespace LosslessSyntax

/-- The kinds of tokens. -/
inductive TokenKind
  /-- No kind at all. -/
  | nullToken
  /-- The end of the input. -/
  | endToken
  /-- Blanks as a token of their own; the lexer attaches them to other tokens instead. -/
  | whitespace
  /-- Tabs as a token of their own. -/
  | tabspace
  /-- A line break as a token of its own. -/
  | newline
  | identifier
  | integer
  | float
  | char
  | string
  /-- A character that starts no token. -/
  | badToken
  /-- What stands where another kind was expected. -/
  | missingToken
  | exclamationMark
  | doubleQuote
  | octothorpe
  | percentage
  | ampersand
  | singleQuote
  | leftParen
  | rightParen
  | asterisk
  | plus
  | comma
  | minus
  | dot
  | forwardSlash
  | colon
  | semicolon
  | lessThanSign
  | equals
  | greaterThanSign
  | questionMark
  | atSymbol
  | leftSquareBracket
  | backwardSlash
  | rightSquareBracket
  | caret
  | backtick
  | leftCurlyBrace
  | verticalBar
  | rightCurlyBrace
  | tilde
  | equalsEquals
  | exclamationEquals
  | lessThanEquals
  | greaterThanEquals
  | lessThanLessThan
  | greaterThanGreaterThan
  | lessThanLessThanLessThan
  | ampersandAmpersand
  | verticalBarVerticalBar
deriving DecidableEq, Repr, Inhabited

namespace TokenKind

/-- All kinds, in the order of their declaration. -/
def all : List TokenKind :=
  [.nullToken, .endToken, .whitespace, .tabspace, .newline, .identifier, .integer, .float, .char,
   .string, .badToken, .missingToken, .exclamationMark, .doubleQuote, .octothorpe, .percentage,
   .ampersand, .singleQuote, .leftParen, .rightParen, .asterisk, .plus, .comma, .minus, .dot,
   .forwardSlash, .colon, .semicolon, .lessThanSign, .equals, .greaterThanSign, .questionMark,
   .atSymbol, .leftSquareBracket, .backwardSlash, .rightSquareBracket, .caret, .backtick,
   .leftCurlyBrace, .verticalBar, .rightCurlyBrace, .tilde, .equalsEquals, .exclamationEquals,
   .lessThanEquals, .greaterThanEquals, .lessThanLessThan, .greaterThanGreaterThan,
   .lessThanLessThanLessThan, .ampersandAmpersand, .verticalBarVerticalBar]

/-- The name of a kind. -/
def name : TokenKind → String
  | nullToken => "NullToken"
  | endToken => "EndToken"
  | whitespace => "Whitespace"
  | tabspace => "Tabspace"
  | newline => "Newline"
  | identifier => "Identifier"
  | integer => "Integer"
  | float => "Float"
  | char => "Char"
  | string => "String"
  | badToken => "BadToken"
  | missingToken => "MissingToken"
  | exclamationMark => "ExclamationMark"
  | doubleQuote => "DoubleQuote"
  | octothorpe => "Octothorpe"
  | percentage => "Percentage"
  | ampersand => "Ampersand"
  | singleQuote => "SingleQuote"
  | leftParen => "LeftParen"
  | rightParen => "RightParen"
  | asterisk => "Asterisk"
  | plus => "Plus"
  | comma => "Comma"
  | minus => "Minus"
  | dot => "Dot"
  | forwardSlash => "ForwardSlash"
  | colon => "Colon"
  | semicolon => "Semicolon"
  | lessThanSign => "LessThanSign"
  | equals => "Equals"
  | greaterThanSign => "GreaterThanSign"
  | questionMark => "QuestionMark"
  | atSymbol => "AtSymbol"
  | leftSquareBracket => "LeftSquareBracket"
  | backwardSlash => "BackwardSlash"
  | rightSquareBracket => "RightSquareBracket"
  | caret => "Caret"
  | backtick => "Backtick"
  | leftCurlyBrace => "LeftCurlyBrace"
  | verticalBar => "VerticalBar"
  | rightCurlyBrace => "RightCurlyBrace"
  | tilde => "Tilde"
  | equalsEquals => "EqualsEquals"
  | exclamationEquals => "ExclamationEquals"
  | lessThanEquals => "LessThanEquals"
  | greaterThanEquals => "GreaterThanEquals"
  | lessThanLessThan => "LessThanLessThan"
  | greaterThanGreaterThan => "GreaterThanGreaterThan"
  | lessThanLessThanLessThan => "LessThanLessThanLessThan"
  | ampersandAmpersand => "AmpersandAmpersand"
  | verticalBarVerticalBar => "VerticalBarVerticalBar"

/-- The kind with a given name. -/
def ofName? (name : String) : Option TokenKind :=
  all.find? fun kind => kind.name == name

/-- The kind of a single punctuation character. -/
def punctuation? : Char → Option TokenKind
  | '!' => some exclamationMark
  | '"' => some doubleQuote
  | '#' => some octothorpe
  | '%' => some percentage
  | '&' => some ampersand
  | '\'' => some singleQuote
  | '(' => some leftParen
  | ')' => some rightParen
  | '*' => some asterisk
  | '+' => some plus
  | ',' => some comma
  | '-' => some minus
  | '.' => some dot
  | '/' => some forwardSlash
  | ':' => some colon
  | ';' => some semicolon
  | '<' => some lessThanSign
  | '=' => some equals
  | '>' => some greaterThanSign
  | '?' => some questionMark
  | '@' => some atSymbol
  | '[' => some leftSquareBracket
  | '\\' => some backwardSlash
  | ']' => some rightSquareBracket
  | '^' => some caret
  | '\x60' => some backtick
  | '\x7b' => some leftCurlyBrace
  | '|' => some verticalBar
  | '\x7d' => some rightCurlyBrace
  | '~' => some tilde
  | _ => none

/-- The spelling of the kinds that are always written in the same way. -/
def text? : TokenKind → Option String
  | exclamationMark => some "!"
  | doubleQuote => some "\""
  | octothorpe => some "#"
  | percentage => some "%"
  | ampersand => some "&"
  | singleQuote => some "'"
  | leftParen => some "("
  | rightParen => some ")"
  | asterisk => some "*"
  | plus => some "+"
  | comma => some ","
  | minus => some "-"
  | dot => some "."
  | forwardSlash => some "/"
  | colon => some ":"
  | semicolon => some ";"
  | lessThanSign => some "<"
  | equals => some "="
  | greaterThanSign => some ">"
  | questionMark => some "?"
  | atSymbol => some "@"
  | leftSquareBracket => some "["
  | backwardSlash => some "\\"
  | rightSquareBracket => some "]"
  | caret => some "^"
  | backtick => some "\x60"
  | leftCurlyBrace => some "\x7b"
  | verticalBar => some "|"
  | rightCurlyBrace => some "\x7d"
  | tilde => some "~"
  | equalsEquals => some "=="
  | exclamationEquals => some "!="
  | lessThanEquals => some "<="
  | greaterThanEquals => some ">="
  | lessThanLessThan => some "<<"
  | greaterThanGreaterThan => some ">>"
  | lessThanLessThanLessThan => some "<<<"
  | ampersandAmpersand => some "&&"
  | verticalBarVerticalBar => some "||"
  | _ => none

/-- Whether a kind is that of a blank token, which the parser looks past. -/
def isTrivia (kind : TokenKind) : Bool :=
  kind = whitespace || kind = tabspace || kind = newline

/-- A kind with a spelling is shown by it, between single quotes, and any other by its name. -/
instance : ToString TokenKind :=
  ⟨fun kind => (kind.text?.map fun text => "'" ++ text ++ "'").getD kind.name⟩

/-- A single punctuation character is the spelling of its kind. -/
theorem text?_of_punctuation? {c : Char} {kind : TokenKind} (h : punctuation? c = some kind) :
    kind.text? = some (String.singleton c) := by
  unfold punctuation? at h
  split at h <;> cases h <;> rfl

end TokenKind

end LosslessSyntax
