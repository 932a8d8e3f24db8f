import LosslessSyntax.Tree.Leaf

/-!
# The parser

Parsing never fails. Where a token of some kinds has to come, the next token is taken whatever it
is, and if its kind is another it goes into the tree as missing and is recorded. Past the end of the
stream there is nothing but ends of the input, all equal to one sentinel: an argument of every
function here, which a function that needs a token takes when there are no others.

A function of the grammar answers with what it parsed, what it recorded on the way, and the number
of tokens it took, sentinels counted; it always takes at least one (`Parsed.taken_pos`), which
bounds the parser's work. The tokens after those are for the function that comes next.

Operators between operands are read by precedence: `expression` at a level takes only operators that
bind more tightly than the level, so that operators of equal precedence group to the left. An
identifier before an equals sign is an assignment of all that follows, at whatever level it stands.
-/

namespace LosslessSyntax

/-- What was parsed, the unexpected tokens that were met on the way, and how many tokens it took. -/
structure Parsed (α τ : Type) where
  value : τ
  errors : List (Unexpected α)
  taken : Nat
  taken_pos : 0 < taken

namespace Parsed

variable {α σ τ : Type}

/-- A single token, which was expected. -/
def one (value : τ) : Parsed α τ :=
  ⟨value, [], 1, Nat.one_pos⟩

/-- Changes what was parsed. -/
def map (f : σ → τ) (p : Parsed α σ) : Parsed α τ :=
  ⟨f p.value, p.errors, p.taken, p.taken_pos⟩

/-- Puts what was parsed next into its place. -/
def app (p : Parsed α (σ → τ)) (q : Parsed α σ) : Parsed α τ :=
  ⟨p.value q.value, p.errors ++ q.errors, p.taken + q.taken, Nat.add_pos_left p.taken_pos _⟩

/-- The tokens of a stream that are left. -/
def rest (p : Parsed α τ) (ts : List α) : List α :=
  ts.drop p.taken

theorem length_rest_le (p : Parsed α τ) (ts : List α) :
    (p.rest ts).length ≤ ts.length := by
  simp [rest]

theorem length_rest_lt (p : Parsed α τ) (t : α) (ts : List α) :
    (p.rest (t :: ts)).length < (t :: ts).length := by
  have := p.taken_pos
  simp only [rest, List.length_drop, List.length_cons]
  omega

theorem two_mul_length_rest_le (p : Parsed α τ) (ts : List α) :
    2 * (p.rest ts).length < 2 * ts.length + 1 := by
  have := p.length_rest_le ts
  omega

theorem two_mul_length_rest_lt (p : Parsed α τ) (t : α) (ts : List α) :
    2 * (p.rest (t :: ts)).length + 1 < 2 * (t :: ts).length := by
  have := p.length_rest_lt t ts
  omega

/-- The number of tokens that some parts took together. -/
def total : List (Parsed α τ) → Nat
  | [] => 0
  | p :: ps => p.taken + total ps

end Parsed

namespace Parser

variable {α : Type} [Readable α]

/-! ### Single tokens -/

/-- Takes a token that should be of one of some kinds, and records it if it is not. -/
def expect (sentinel : α) (kinds : List TokenKind) (ts : List α) : Parsed α (Leaf α) :=
  let token := ts.headD sentinel
  { value := if kind token ∈ kinds then .plain token else .missing kinds token
    errors := if kind token ∈ kinds then [] else [⟨kinds, token⟩]
    taken := 1
    taken_pos := Nat.one_pos }

/-- Whether a stream begins with tokens of given kinds, each touching the next. -/
def spells : List TokenKind → List α → Bool
  | [], _ => true
  | _ :: _, [] => false
  | [k], t :: _ => kind t = k
  | k :: ks, t :: ts => kind t = k && ts.head?.any (touches t) && spells ks ts

/-- Takes the operator with which a stream begins: a compound operator where one is spelled, else
the first token, whatever it is. -/
def operator (t : α) (ts : List α) : Parsed α (Leaf α) :=
  match compoundOperators.find? fun compound => spells compound.1 (t :: ts) with
  | none => .one (.plain t)
  | some (spelling, compound) =>
    let others := ts.take (spelling.length - 1)
    ⟨.merged compound t others, [], 1 + others.length, by omega⟩

/-- Takes the equals sign with which a stream begins, unless it is a part of a longer operator. -/
def equals? : List α → Option (Parsed α (Leaf α))
  | [] => none
  | t :: ts => if (operator t ts).value.kind = .equals then some (operator t ts) else none

/-- The kind of the first token that is not blank. -/
def significantKind (sentinel : α) (ts : List α) : TokenKind :=
  kind ((ts.find? fun t => !(kind t).isTrivia).getD sentinel)

/-! ### Expressions -/

mutual

/-- An expression whose operators bind more tightly than the level. -/
def expression (sentinel : α) (level : Nat) (ts : List α) : Parsed α (Expression (Leaf α)) :=
  let left := operand sentinel level ts
  climb sentinel level left (left.rest ts)
termination_by 2 * ts.length + 1
decreasing_by
  · exact Nat.lt_succ_self _
  · exact Parsed.two_mul_length_rest_le _ ts

/-- What can stand beside an operator: an operator with its operand, an assignment, an identifier,
an expression between parentheses, or a literal. -/
def operand (sentinel : α) (level : Nat) : List α → Parsed α (Expression (Leaf α))
  | [] => (expect sentinel literalKinds []).map .literal
  | t :: ts =>
    let sign := operator t ts
    let precedence := unaryPrecedence sign.value.kind
    if precedence ≠ 0 ∧ level ≤ precedence then
      (sign.map .unary).app (expression sentinel precedence (sign.rest (t :: ts)))
    else match kind t with
      | .identifier =>
        match equals? ts with
        | none => .one (.identifier (.plain t))
        | some equals =>
          ((Parsed.one (.assignment (.plain t))).app equals).app
            (expression sentinel 0 (equals.rest ts))
      | .leftParen =>
        let inner := expression sentinel 0 ts
        ((Parsed.one (.parenthesized (.plain t))).app inner).app
          (expect sentinel [.rightParen] (inner.rest ts))
      | _ => (expect sentinel literalKinds (t :: ts)).map .literal
termination_by ts => 2 * ts.length
decreasing_by
  · exact Parsed.two_mul_length_rest_lt _ t ts
  · have := Parsed.two_mul_length_rest_le equals ts
    simp only [List.length_cons]
    omega
  · simp only [List.length_cons]
    omega

/-- Goes on from a left operand as long as operators follow that bind more tightly than the level.
-/
def climb (sentinel : α) (level : Nat) (left : Parsed α (Expression (Leaf α))) :
    List α → Parsed α (Expression (Leaf α))
  | [] => left
  | t :: ts =>
    let sign := operator t ts
    let precedence := binaryPrecedence sign.value.kind
    if precedence ≤ level then left
    else
      let rest := sign.rest (t :: ts)
      let right := expression sentinel precedence rest
      climb sentinel level (((left.map .binary).app sign).app right) (right.rest rest)
termination_by ts => 2 * ts.length
decreasing_by
  · exact Parsed.two_mul_length_rest_lt _ t ts
  · exact Nat.lt_of_le_of_lt (Nat.le_of_lt (Parsed.two_mul_length_rest_le _ _))
      (Parsed.two_mul_length_rest_lt _ t ts)

end

/-! ### Statements -/

/-- An expression and a semicolon. -/
def expressionStatement (sentinel : α) (ts : List α) : Parsed α (Statement (Leaf α)) :=
  let value := expression sentinel 0 ts
  (value.map .expression).app (expect sentinel [.semicolon] (value.rest ts))

/-- A type, a name, a value after an equals sign if there is one, and a semicolon. -/
def declaration (sentinel : α) (t : α) (ts : List α) : Parsed α (Statement (Leaf α)) :=
  let type := Parsed.one (Leaf.plain t)
  let name := expect sentinel [.identifier] ts
  let rest := name.rest ts
  match equals? rest with
  | none => ((type.map .declaration).app name).app (expect sentinel [.semicolon] rest)
  | some equals =>
    let rest := equals.rest rest
    let value := expression sentinel 0 rest
    ((((type.map .initialization).app name).app equals).app value).app
      (expect sentinel [.semicolon] (value.rest rest))

mutual

/-- The statement that begins with the token `t`. An opening brace begins a block, and two
identifiers, blank tokens between them not counted, a declaration. -/
def statement (sentinel : α) (t : α) (ts : List α) : Parsed α (Statement (Leaf α)) :=
  match kind t, significantKind sentinel ts with
  | .leftCurlyBrace, _ =>
    let body := statements sentinel [.rightCurlyBrace, .endToken] ts
    let closing := expect sentinel [.rightCurlyBrace] (ts.drop (Parsed.total body))
    { value := .block (.plain t) (body.map Parsed.value) closing.value
      errors := body.flatMap Parsed.errors ++ closing.errors
      taken := 1 + Parsed.total body + closing.taken
      taken_pos := by omega }
  | .identifier, .identifier => declaration sentinel t ts
  | _, _ => expressionStatement sentinel (t :: ts)
termination_by 2 * ts.length + 1

/-- The statements up to a token of one of some kinds, or up to the end of the stream. -/
def statements (sentinel : α) (closers : List TokenKind) :
    List α → List (Parsed α (Statement (Leaf α)))
  | [] => []
  | t :: ts =>
    if kind t ∈ closers then []
    else
      let first := statement sentinel t ts
      first :: statements sentinel closers (first.rest (t :: ts))
termination_by ts => 2 * ts.length
decreasing_by
  · simp only [List.length_cons]
    omega
  · exact Nat.lt_of_succ_lt (Parsed.two_mul_length_rest_lt _ t ts)

end

/-! ### Programs -/

/-- A program over leaves: its statements, and what came where they ended. -/
structure Program (α : Type) where
  statements : List (Statement (Leaf α))
  closing : Leaf α

/-- What is parsed of a stream: a program, up to the first end of the input between statements. -/
def parsed (sentinel : α) (ts : List α) : Parsed α (Program α) :=
  let body := statements sentinel [.endToken] ts
  let closing := expect sentinel [.endToken] (ts.drop (Parsed.total body))
  { value := ⟨body.map Parsed.value, closing.value⟩
    errors := body.flatMap Parsed.errors ++ closing.errors
    taken := Parsed.total body + closing.taken
    taken_pos := Nat.add_pos_right _ closing.taken_pos }

end Parser

/-- The tree of a program that was parsed: the tokens of its leaves, and the errors that report what
was recorded. -/
def Parsed.tree (p : Parsed Token (Parser.Program Token)) : SyntaxTree where
  statements := p.value.statements.map (Statement.map Leaf.token)
  endOfFile := p.value.closing.token
  diagnostics := p.errors.map Unexpected.error

/-- The end of the input that stands behind a stream: its last token if that is one, else an end of
the input just after the last token and its trivia. -/
def sentinelOf (tokens : List Token) (arithmetic : Arithmetic := .exact) : Except Fault Token :=
  match tokens.getLast? with
  | none => .ok (.endAt 0)
  | some last => do
    let span ← last.fullSpan arithmetic
    let stop ← span.stopIn arithmetic
    return if last.kind = .endToken then last else .endAt stop

/-- Parses a stream of tokens. -/
def parse (tokens : List Token) (arithmetic : Arithmetic := .exact) : Except Fault SyntaxTree := do
  let sentinel ← sentinelOf tokens arithmetic
  return (Parser.parsed sentinel tokens).tree

end LosslessSyntax
