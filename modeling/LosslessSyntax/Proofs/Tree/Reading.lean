import LosslessSyntax.Tree.Parser

/-!
# Readings of a stream

What the parser does to a stream, as relations. `Reads sentinel level ts p` says that `p` is an
operand at the front of `ts`, extended by operators that bind more tightly than the level and their
right operands. `ReadsAll sentinel closers ts ps` says that `ps` are statements up to a closer or
the end of the stream. Each rule has the premises under which the parser goes this way, and where
the parser stops an expression the premise says at which operator.

Every answer of the parser is a reading (`reads_expression`, `reads_statements`). What is said about
all answers is proved by induction on the readings, with a case for each form of the grammar.
-/

namespace LosslessSyntax

namespace Parsed

variable {σ τ α : Type}

theorem rest_app (p : Parsed α (σ → τ)) (q : Parsed α σ) (ts : List α) :
    (p.app q).rest ts = q.rest (p.rest ts) := by
  simp [rest, app, List.drop_drop]

theorem rest_map (f : σ → τ) (p : Parsed α σ) (ts : List α) : (p.map f).rest ts = p.rest ts :=
  rfl

theorem rest_one (value : τ) (t : α) (ts : List α) :
    (one value : Parsed α τ).rest (t :: ts) = ts :=
  rfl

end Parsed

namespace Parser

variable {α : Type} [Readable α]

/-- How tightly the operator binds with which a stream begins; zero where there is none that stands
between operands. -/
def nextPrecedence : List α → Nat
  | [] => 0
  | t :: ts => binaryPrecedence (operator t ts).value.kind

/-! ### Expressions -/

/-- A reading of an expression at the front of a stream, perhaps not yet the longest one. -/
inductive Reads (sentinel : α) : Nat → List α → Parsed α (Expression (Leaf α)) → Prop
  | literal {level : Nat} {ts : List α} (hother : ∀ t rest, ts = t :: rest →
        ¬(unaryPrecedence (operator t rest).value.kind ≠ 0 ∧
          level ≤ unaryPrecedence (operator t rest).value.kind) ∧
        kind t ≠ .identifier ∧ kind t ≠ .leftParen) :
      Reads sentinel level ts ((expect sentinel literalKinds ts).map .literal)
  | identifier {level : Nat} {t : α} {ts : List α} (ht : kind t = .identifier)
      (hequals : equals? ts = none) :
      Reads sentinel level (t :: ts) (.one (.identifier (.plain t)))
  | assignment {level : Nat} {t : α} {ts : List α} {equals : Parsed α (Leaf α)}
      {value : Parsed α (Expression (Leaf α))} (ht : kind t = .identifier)
      (hequals : equals? ts = some equals) (hvalue : Reads sentinel 0 (equals.rest ts) value)
      (hstop : nextPrecedence (value.rest (equals.rest ts)) = 0) :
      Reads sentinel level (t :: ts)
        (((Parsed.one (.assignment (.plain t))).app equals).app value)
  | parenthesized {level : Nat} {t : α} {ts : List α} {inner : Parsed α (Expression (Leaf α))}
      (ht : kind t = .leftParen) (hinner : Reads sentinel 0 ts inner)
      (hstop : nextPrecedence (inner.rest ts) = 0) :
      Reads sentinel level (t :: ts)
        (((Parsed.one (.parenthesized (.plain t))).app inner).app
          (expect sentinel [.rightParen] (inner.rest ts)))
  | unary {level : Nat} {t : α} {ts : List α} {operand : Parsed α (Expression (Leaf α))}
      (hsign : unaryPrecedence (operator t ts).value.kind ≠ 0)
      (hlevel : level ≤ unaryPrecedence (operator t ts).value.kind)
      (hoperand : Reads sentinel (unaryPrecedence (operator t ts).value.kind)
        ((operator t ts).rest (t :: ts)) operand)
      (hstop : nextPrecedence (operand.rest ((operator t ts).rest (t :: ts))) ≤
        unaryPrecedence (operator t ts).value.kind) :
      Reads sentinel level (t :: ts) (((operator t ts).map .unary).app operand)
  | binary {level : Nat} {ts rest : List α} {t : α} {left right : Parsed α (Expression (Leaf α))}
      (hleft : Reads sentinel level ts left) (hrest : left.rest ts = t :: rest)
      (hsign : level < binaryPrecedence (operator t rest).value.kind)
      (hright : Reads sentinel (binaryPrecedence (operator t rest).value.kind)
        ((operator t rest).rest (t :: rest)) right)
      (hstop : nextPrecedence (right.rest ((operator t rest).rest (t :: rest))) ≤
        binaryPrecedence (operator t rest).value.kind) :
      Reads sentinel level ts (((left.map .binary).app (operator t rest)).app right)

/-- What begins neither with a sign nor with an identifier nor with a parenthesis is a literal. -/
theorem operand_of_not {sentinel : α} {level : Nat} {t : α} {ts : List α}
    (hsign : ¬(unaryPrecedence (operator t ts).value.kind ≠ 0 ∧
      level ≤ unaryPrecedence (operator t ts).value.kind))
    (hidentifier : kind t ≠ .identifier) (hparen : kind t ≠ .leftParen) :
    operand sentinel level (t :: ts) =
      (expect sentinel literalKinds (t :: ts)).map .literal := by
  rw [operand, if_neg hsign]
  split
  · exact absurd ‹_› hidentifier
  · exact absurd ‹_› hparen
  · rfl

/-- The answers of the three functions that read expressions are readings, and an expression is read
until the next operator does not bind more tightly than the level. -/
private theorem reads_all (sentinel : α) :
    (∀ level ts, Reads sentinel level ts (expression sentinel level ts) ∧
      nextPrecedence ((expression sentinel level ts).rest ts) ≤ level) ∧
    (∀ level left rest, ∀ ts, left.rest ts = rest → Reads sentinel level ts left →
      Reads sentinel level ts (climb sentinel level left rest) ∧
        nextPrecedence ((climb sentinel level left rest).rest ts) ≤ level) ∧
    ∀ level ts, Reads sentinel level ts (operand sentinel level ts) := by
  -- A climb is given the left operand that it goes on from, which is a reading by itself.
  apply expression.mutual_induct sentinel
  case case1 =>
    intro level ts left hoperand hclimb
    rw [expression]
    exact hclimb ts rfl hoperand
  case case2 =>
    intro level left ts hrest hleft
    rw [climb, hrest]
    exact ⟨hleft, Nat.zero_le _⟩
  case case3 =>
    intro level left t rest sign precedence hle ts hrest hleft
    rw [climb, if_pos hle, hrest]
    exact ⟨hleft, hle⟩
  case case4 =>
    intro level left t rest sign precedence hlt after right _ hright hclimb ts hrest hleft
    rw [climb, if_neg hlt]
    refine hclimb ts ?_ (.binary hleft hrest (Nat.lt_of_not_le hlt) hright.1 hright.2)
    rw [Parsed.rest_app, Parsed.rest_app, Parsed.rest_map, hrest]
  case case5 =>
    intro level
    rw [operand]
    exact .literal nofun
  case case6 =>
    intro level t ts sign precedence hunary hoperand
    rw [operand, if_pos hunary]
    exact .unary hunary.1 hunary.2 hoperand.1 hoperand.2
  case case7 =>
    intro level t ts sign precedence hunary ht hequals
    rw [operand, if_neg hunary]
    simp only [ht, hequals]
    exact .identifier ht hequals
  case case8 =>
    intro level t ts sign precedence hunary ht equals hequals hvalue
    rw [operand, if_neg hunary]
    simp only [ht, hequals]
    exact .assignment ht hequals hvalue.1 (Nat.le_zero.mp hvalue.2)
  case case9 =>
    intro level t ts sign precedence hunary ht hinner
    rw [operand, if_neg hunary]
    simp only [ht]
    exact .parenthesized ht hinner.1 (Nat.le_zero.mp hinner.2)
  case case10 =>
    intro level t ts sign precedence hunary hidentifier hparen
    rw [operand_of_not hunary hidentifier hparen]
    refine .literal fun t' rest hcons => ?_
    obtain ⟨rfl, rfl⟩ := List.cons.inj hcons
    exact ⟨hunary, hidentifier, hparen⟩

/-- An expression that the parser answers is a reading. -/
theorem reads_expression (sentinel : α) (level : Nat) (ts : List α) :
    Reads sentinel level ts (expression sentinel level ts) :=
  ((reads_all sentinel).1 level ts).1

/-! ### Statements -/

/-- A block that begins with the token `t`, from its statements and what came at its end. -/
def blockOf (sentinel : α) (t : α) (ts : List α) (body : List (Parsed α (Statement (Leaf α)))) :
    Parsed α (Statement (Leaf α)) :=
  let closing := expect sentinel [.rightCurlyBrace] (ts.drop (Parsed.total body))
  { value := .block (.plain t) (body.map Parsed.value) closing.value
    errors := body.flatMap Parsed.errors ++ closing.errors
    taken := 1 + Parsed.total body + closing.taken
    taken_pos := by omega }

theorem leaves_blockOf (sentinel t : α) (ts : List α)
    (body : List (Parsed α (Statement (Leaf α)))) :
    (blockOf sentinel t ts body).value.leaves =
      .plain t :: ((body.flatMap fun p => p.value.leaves) ++
        [(expect sentinel [.rightCurlyBrace] (ts.drop (Parsed.total body))).value]) := by
  simp only [blockOf, Statement.leaves, Statement.leavesOfAll_eq_flatMap, List.flatMap_map]

/-- An opening brace begins a block. -/
theorem statement_of_leftCurlyBrace {sentinel t : α} (h : kind t = .leftCurlyBrace) (ts : List α) :
    statement sentinel t ts =
      blockOf sentinel t ts (statements sentinel [.rightCurlyBrace, .endToken] ts) := by
  rw [statement]
  split <;> simp_all [blockOf]

/-- Two identifiers begin a declaration. -/
theorem statement_of_identifier {sentinel t : α} {ts : List α} (h : kind t = .identifier)
    (hnext : significantKind sentinel ts = .identifier) :
    statement sentinel t ts = declaration sentinel t ts := by
  rw [statement]
  split <;> simp_all

/-- All else is an expression. -/
theorem statement_of_not {sentinel t : α} {ts : List α} (hbrace : kind t ≠ .leftCurlyBrace)
    (hidentifier : kind t = .identifier → significantKind sentinel ts ≠ .identifier) :
    statement sentinel t ts = expressionStatement sentinel (t :: ts) := by
  rw [statement]
  split <;> simp_all

/-- A declaration without a value. -/
theorem declaration_of_equals?_eq_none {sentinel t : α} {ts : List α}
    (h : equals? (ts.drop 1) = none) :
    declaration sentinel t ts =
      (((Parsed.one (.plain t)).map .declaration).app (expect sentinel [.identifier] ts)).app
        (expect sentinel [.semicolon] (ts.drop 1)) := by
  change equals? ((expect sentinel [.identifier] ts).rest ts) = none at h
  simp only [declaration, h]
  rfl

/-- A declaration with a value. -/
theorem declaration_of_equals?_eq_some {sentinel t : α} {ts : List α} {equals : Parsed α (Leaf α)}
    (h : equals? (ts.drop 1) = some equals) :
    declaration sentinel t ts =
      (((((Parsed.one (.plain t)).map .initialization).app
        (expect sentinel [.identifier] ts)).app equals).app
        (expression sentinel 0 (equals.rest (ts.drop 1)))).app
        (expect sentinel [.semicolon] ((expression sentinel 0 (equals.rest (ts.drop 1))).rest
          (equals.rest (ts.drop 1)))) := by
  change equals? ((expect sentinel [.identifier] ts).rest ts) = some equals at h
  simp only [declaration, h]
  rfl

/-- A reading of the statements at the front of a stream. -/
inductive ReadsAll (sentinel : α) :
    List TokenKind → List α → List (Parsed α (Statement (Leaf α))) → Prop
  | nil {closers : List TokenKind} : ReadsAll sentinel closers [] []
  | closer {closers : List TokenKind} {t : α} {ts : List α} (ht : kind t ∈ closers) :
      ReadsAll sentinel closers (t :: ts) []
  | block {closers : List TokenKind} {t : α} {ts : List α}
      {body others : List (Parsed α (Statement (Leaf α)))} (ht : kind t ∉ closers)
      (hbrace : kind t = .leftCurlyBrace)
      (hbody : ReadsAll sentinel [.rightCurlyBrace, .endToken] ts body)
      (hothers : ReadsAll sentinel closers ((blockOf sentinel t ts body).rest (t :: ts)) others) :
      ReadsAll sentinel closers (t :: ts) (blockOf sentinel t ts body :: others)
  | declaration {closers : List TokenKind} {t : α} {ts : List α}
      {others : List (Parsed α (Statement (Leaf α)))} (ht : kind t ∉ closers)
      (hidentifier : kind t = .identifier)
      (hothers : ReadsAll sentinel closers ((declaration sentinel t ts).rest (t :: ts)) others) :
      ReadsAll sentinel closers (t :: ts) (declaration sentinel t ts :: others)
  | expression {closers : List TokenKind} {t : α} {ts : List α}
      {others : List (Parsed α (Statement (Leaf α)))} (ht : kind t ∉ closers)
      (hothers : ReadsAll sentinel closers
        ((expressionStatement sentinel (t :: ts)).rest (t :: ts)) others) :
      ReadsAll sentinel closers (t :: ts) (expressionStatement sentinel (t :: ts) :: others)

/-- The statements that the parser answers are a reading. -/
theorem reads_statements (sentinel : α) (closers : List TokenKind) (ts : List α) :
    ReadsAll sentinel closers ts (statements sentinel closers ts) := by
  -- A statement is put in front of any reading of the statements after it.
  refine (statement.mutual_induct
    (fun sentinel t ts => ∀ closers others, kind t ∉ closers →
      ReadsAll sentinel closers ((statement sentinel t ts).rest (t :: ts)) others →
      ReadsAll sentinel closers (t :: ts) (statement sentinel t ts :: others))
    (fun sentinel closers ts => ReadsAll sentinel closers ts (statements sentinel closers ts))
    ?_ ?_ ?_ ?_ ?_ ?_).2 sentinel closers ts
  · intro sentinel t ts hbrace hbody closers others ht hothers
    rw [statement_of_leftCurlyBrace hbrace ts] at hothers ⊢
    exact .block ht hbrace hbody hothers
  · intro sentinel t ts hnext hidentifier closers others ht hothers
    rw [statement_of_identifier hidentifier hnext] at hothers ⊢
    exact .declaration ht hidentifier hothers
  · intro sentinel t ts hbrace hdeclaration closers others ht hothers
    rw [statement_of_not hbrace hdeclaration] at hothers ⊢
    exact .expression ht hothers
  · intro sentinel closers
    rw [statements]
    exact .nil
  · intro sentinel closers t ts ht
    rw [statements, if_pos ht]
    exact .closer ht
  · intro sentinel closers t ts ht first hfirst hothers
    rw [statements, if_neg ht]
    exact hfirst closers _ ht hothers

end Parser

end LosslessSyntax
