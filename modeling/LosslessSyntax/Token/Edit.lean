import LosslessSyntax.Token.Stream

/-!
# Edits of a token stream

A stream can be changed before it is parsed: cut short, tokens removed, repeated or given another
kind, other texts put behind it, and trivia added and taken away. An edit that names a token which
is not there is a fault.
-/

namespace LosslessSyntax

/-- One of the two sides of a token. -/
inductive Side
  | leading
  | trailing
deriving DecidableEq, Repr

/-- A change of a stream of tokens. Indices count from zero. -/
inductive Edit
  /-- Keep the first tokens only. -/
  | truncate (count : Nat)
  /-- Take a token out. -/
  | remove (index : Nat)
  /-- Give a token another kind. -/
  | retag (index : Nat) (kind : TokenKind)
  /-- Make a token stand for a missing one. -/
  | missing (index : Nat)
  /-- Put a copy of a token at an index. -/
  | copy (source target : Nat)
  /-- Put an end of input at an index. -/
  | insertEnd (index position : Nat)
  /-- Put the tokens of a text at the end. -/
  | append (text : String)
  /-- Put an item of trivia at the end of the list on one side of a token. -/
  | addTrivia (index : Nat) (side : Side) (item : Trivia)
  /-- Take away all trivia on one side of a token. -/
  | strip (index : Nat) (side : Side)
deriving Repr

namespace Token

/-- Changes the trivia on one side of a token. -/
def mapTrivia (change : List Trivia → List Trivia) (token : Token) : Side → Token
  | .leading => { token with leading := change token.leading }
  | .trailing => { token with trailing := change token.trailing }

end Token

namespace Edit

/-- Changes the token at an index. -/
def changeAt (change : Token → Token) (index : Nat) (tokens : List Token) :
    Except Fault (List Token) :=
  if index < tokens.length then .ok (tokens.modify index change) else .error .outOfRange

/-- Puts a token at an index, which may be the one after the last. -/
def insertAt (index : Nat) (token : Token) (tokens : List Token) : Except Fault (List Token) :=
  if index ≤ tokens.length then .ok (tokens.insertIdx index token) else .error .outOfRange

/-- Makes one change. -/
def apply (tokens : List Token) : Edit → Except Fault (List Token)
  | truncate count => .ok (tokens.take count)
  | remove index =>
    if index < tokens.length then .ok (tokens.eraseIdx index) else .error .outOfRange
  | retag index kind => changeAt (fun token => { token with kind := kind }) index tokens
  | missing index => changeAt Token.toMissing index tokens
  | copy source target =>
    match tokens[source]? with
    | none => .error .outOfRange
    | some token => insertAt target token tokens
  | insertEnd index position => insertAt index (Token.endAt position) tokens
  | append text => .ok (tokens ++ tokenize text)
  | addTrivia index side item => changeAt (·.mapTrivia (· ++ [item]) side) index tokens
  | strip index side => changeAt (·.mapTrivia (fun _ => []) side) index tokens

/-- Makes changes one after the other. -/
def applyAll (tokens : List Token) (edits : List Edit) : Except Fault (List Token) :=
  edits.foldlM apply tokens

end Edit

end LosslessSyntax
