import LosslessSyntax.Proofs.Tree.Conservation

/-!
# The parser on an endless stream

Behind the last token of a stream stands its sentinel, as often as the parser asks for a token
there. So the parser can be seen as a machine on an endless stream, which knows no more than the
position of the next token: it looks at tokens from there on, and goes on by as many as it takes.
Nothing about a position shows that this comes to an end. Each function of the machine is therefore
given a bound on the depth of its calls, a turn of a loop counted as a call, and answers `none`
where the bound is too small.

On a stream that goes on with its sentinel (`ofList`) the machine finds the program of the stream,
at any bound from twice the number of tokens on (`program?_ofList`). The proof goes with the
recursion of the parser: it follows its calls only as long as there are tokens left.

The machine does not see where the stream's own tokens end. Hence the stream with its sentinel
written out has the same program (`program_append_singleton`).
-/

namespace LosslessSyntax.Endless

variable {α : Type} [Readable α]

/-- The stream that begins with some tokens and goes on with a sentinel without end. -/
def ofList (sentinel : α) (ts : List α) (position : Nat) : α :=
  ts.getD position sentinel

/-! ### The machine -/

/-- The tokens of a stream from a position on, `count` of them. -/
def window (stream : Nat → α) (position count : Nat) : List α :=
  (List.range' position count).map stream

/-- Takes a token that should be of one of some kinds. -/
def expect (stream : Nat → α) (kinds : List TokenKind) (position : Nat) : Leaf α :=
  if kind (stream position) ∈ kinds then .plain (stream position)
  else .missing kinds (stream position)

/-- Whether tokens of given kinds stand from a position on, each touching the next. -/
def spells (stream : Nat → α) (position : Nat) (kinds : List TokenKind) : Bool :=
  let parts := window stream position kinds.length
  parts.map kind = kinds ∧ parts.IsChain fun a b => touches a b = true

/-- The operator at a position, and the position behind it. -/
def operator (stream : Nat → α) (position : Nat) : Leaf α × Nat :=
  match compoundOperators.find? fun compound => spells stream position compound.1 with
  | none => (.plain (stream position), position + 1)
  | some (spelling, compound) =>
    (.merged compound (stream position) (window stream (position + 1) (spelling.length - 1)),
      position + spelling.length)

/-- The kind of the first token from a position on that is not blank. -/
def significantKind? (stream : Nat → α) : Nat → Nat → Option TokenKind
  | 0, _ => none
  | depth + 1, position =>
    if (kind (stream position)).isTrivia then significantKind? stream depth (position + 1)
    else some (kind (stream position))

mutual

/-- An expression whose operators bind more tightly than the level. -/
def expression? (stream : Nat → α) :
    Nat → Nat → Nat → Option (Expression (Leaf α) × Nat)
  | 0, _, _ => none
  | depth + 1, level, position => do
    let (left, position) ← operand? stream depth level position
    climb? stream depth level left position

/-- What can stand beside an operator. -/
def operand? (stream : Nat → α) : Nat → Nat → Nat → Option (Expression (Leaf α) × Nat)
  | 0, _, _ => none
  | depth + 1, level, position =>
    let (sign, next) := operator stream position
    let precedence := unaryPrecedence sign.kind
    if precedence ≠ 0 ∧ level ≤ precedence then do
      let (operand, position) ← expression? stream depth precedence next
      return (.unary sign operand, position)
    else match kind (stream position) with
      | .identifier => do
        let name := Leaf.plain (stream position)
        let (equals, next) := operator stream (position + 1)
        if equals.kind = .equals then
          let (value, position) ← expression? stream depth 0 next
          return (.assignment name equals value, position)
        else return (.identifier name, position + 1)
      | .leftParen => do
        let opening := Leaf.plain (stream position)
        let (inner, position) ← expression? stream depth 0 (position + 1)
        return (.parenthesized opening inner (expect stream [.rightParen] position), position + 1)
      | _ => return (.literal (expect stream literalKinds position), position + 1)

/-- Goes on from a left operand as long as operators follow that bind more tightly than the level.
-/
def climb? (stream : Nat → α) :
    Nat → Nat → Expression (Leaf α) → Nat → Option (Expression (Leaf α) × Nat)
  | 0, _, _, _ => none
  | depth + 1, level, left, position =>
    let (sign, next) := operator stream position
    let precedence := binaryPrecedence sign.kind
    if precedence = 0 ∨ precedence ≤ level then return (left, position)
    else do
      let (right, position) ← expression? stream depth precedence next
      climb? stream depth level (.binary left sign right) position

end

/-- An expression and a semicolon. -/
def expressionStatement? (stream : Nat → α) (depth position : Nat) :
    Option (Statement (Leaf α) × Nat) := do
  let (value, position) ← expression? stream depth 0 position
  return (.expression value (expect stream [.semicolon] position), position + 1)

/-- A type, a name, a value after an equals sign if there is one, and a semicolon. -/
def declaration? (stream : Nat → α) (depth position : Nat) :
    Option (Statement (Leaf α) × Nat) := do
  let type := expect stream [.identifier] position
  let name := expect stream [.identifier] (position + 1)
  let (equals, next) := operator stream (position + 2)
  if equals.kind = .equals then
    let (value, position) ← expression? stream depth 0 next
    return (.initialization type name equals value (expect stream [.semicolon] position),
      position + 1)
  else return (.declaration type name (expect stream [.semicolon] (position + 2)), position + 3)

mutual

/-- The statement at a position. -/
def statement? (stream : Nat → α) : Nat → Nat → Option (Statement (Leaf α) × Nat)
  | 0, _ => none
  | depth + 1, position => do
    match kind (stream position), ← significantKind? stream depth (position + 1) with
    | .leftCurlyBrace, _ =>
      let opening := expect stream [.leftCurlyBrace] position
      let (body, position) ← statements? stream [.rightCurlyBrace, .endToken] depth (position + 1)
      return (.block opening body (expect stream [.rightCurlyBrace] position), position + 1)
    | .identifier, .identifier => declaration? stream depth position
    | _, _ => expressionStatement? stream depth position

/-- The statements up to a token of one of some kinds. -/
def statements? (stream : Nat → α) (closers : List TokenKind) :
    Nat → Nat → Option (List (Statement (Leaf α)) × Nat)
  | 0, _ => none
  | depth + 1, position =>
    if kind (stream position) ∈ closers then return ([], position)
    else do
      let (first, position) ← statement? stream depth position
      let (others, position) ← statements? stream closers depth position
      return (first :: others, position)

end

/-- A bounded function finds an answer at every bound that is greater than a measure. -/
def AnswersAbove {τ : Type} (measure : Nat) (f : Nat → Option τ) (answer : τ) : Prop :=
  ∀ depth, measure < depth → f depth = some answer

/-- The program that an endless stream spells, and the position behind it. -/
def program? (stream : Nat → α) (depth : Nat) : Option (Parser.Program α × Nat) := do
  let (body, position) ← statements? stream [.endToken] depth 0
  return (⟨body, expect stream [.endToken] position⟩, position + 1)

/-! ### Tokens of a stream that goes on with its sentinel -/

section

variable {sentinel : α} {tokens : List α} {position : Nat}

omit [Readable α] in
theorem ofList_eq_headD :
    ofList sentinel tokens position = (tokens.drop position).headD sentinel := by
  rw [ofList, List.headD_eq_head?_getD, List.head?_drop, List.getD_eq_getElem?_getD]

omit [Readable α] in
theorem ofList_of_drop_eq_cons {t : α} {ts : List α} (h : tokens.drop position = t :: ts) :
    ofList sentinel tokens position = t := by
  rw [ofList_eq_headD, h, List.headD_cons]

omit [Readable α] in
theorem ofList_of_drop_eq_nil (h : tokens.drop position = []) :
    ofList sentinel tokens position = sentinel := by
  rw [ofList_eq_headD, h, List.headD_nil]

omit [Readable α] in
theorem drop_add_one {t : α} {ts : List α} (h : tokens.drop position = t :: ts) :
    tokens.drop (position + 1) = ts := by
  rw [← List.tail_drop, h, List.tail_cons]

omit [Readable α] in
theorem drop_add_taken {τ : Type} {ts : List α} (h : tokens.drop position = ts) (p : Parsed α τ) :
    tokens.drop (position + p.taken) = p.rest ts := by
  rw [← List.drop_drop, h, Parsed.rest]

omit [Readable α] in
theorem window_ofList (count : Nat) :
    window (ofList sentinel tokens) position count =
      (tokens.drop position).takeD count sentinel := by
  induction count generalizing position with
  | zero => rfl
  | succ count ih =>
    simp only [window] at ih ⊢
    rw [List.range'_succ, List.map_cons, ih, List.takeD_succ, List.tail_drop, ofList_eq_headD,
      List.headD_eq_head?_getD]

theorem expect_ofList {ts : List α} (h : tokens.drop position = ts) (kinds : List TokenKind) :
    expect (ofList sentinel tokens) kinds position = (Parser.expect sentinel kinds ts).value := by
  rw [expect, ofList_eq_headD, h]
  rfl

/-! ### Operators -/

/-- No spelling has the sentinel in it, hence all of its tokens come from the stream. -/
theorem spells_ofList (hsentinel : kind sentinel = .endToken) {kinds : List TokenKind}
    (hkinds : .endToken ∉ kinds) :
    spells (ofList sentinel tokens) position kinds =
      Parser.spells kinds (tokens.drop position) := by
  rw [Bool.eq_iff_iff, Parser.spells_iff, spells, window_ofList, decide_eq_true_iff]
  constructor
  · rintro ⟨hmap, hchain⟩
    have hlength : kinds.length ≤ (tokens.drop position).length := by
      by_contra hlt
      rw [Parser.takeD_eq_append_replicate (by omega)] at hmap
      refine hkinds (hmap ▸ List.mem_map.mpr ⟨sentinel, ?_, hsentinel⟩)
      exact List.mem_append_right _ (List.mem_replicate.mpr ⟨by omega, rfl⟩)
    rw [List.takeD_eq_take _ hlength] at hmap hchain
    exact ⟨_, _, (List.take_append_drop _ _).symm, hmap, hchain⟩
  · rintro ⟨front, rest, hdrop, rfl, hchain⟩
    rw [hdrop, List.length_map, List.takeD_left]
    exact ⟨rfl, hchain⟩

/-- At the sentinel there is no operator of several tokens. -/
theorem operator_ofList_of_eq_nil (hsentinel : kind sentinel = .endToken)
    (h : tokens.drop position = []) :
    operator (ofList sentinel tokens) position = (.plain sentinel, position + 1) := by
  have hkinds : ∀ compound ∈ compoundOperators, .endToken ∉ compound.1 ∧
      Parser.spells compound.1 ([] : List α) = false := by
    intro compound hcompound
    have hall : ∀ compound ∈ compoundOperators, .endToken ∉ compound.1 ∧ compound.1 ≠ [] := by
      decide
    obtain ⟨hend, hne⟩ := hall compound hcompound
    obtain ⟨k, kinds, hcons⟩ := List.exists_cons_of_ne_nil hne
    exact ⟨hend, by rw [hcons, Parser.spells]⟩
  have hfind : (compoundOperators.find? fun compound =>
      spells (ofList sentinel tokens) position compound.1) = none := by
    refine List.find?_eq_none.mpr fun compound hcompound => ?_
    obtain ⟨hend, hnil⟩ := hkinds compound hcompound
    rw [spells_ofList hsentinel hend, h, hnil]
    exact Bool.false_ne_true
  rw [operator, hfind, ofList_of_drop_eq_nil h]

/-- The operator at a position is the one that the parser takes from the tokens there. -/
theorem operator_ofList_of_eq_cons (hsentinel : kind sentinel = .endToken) {t : α} {ts : List α}
    (h : tokens.drop position = t :: ts) :
    operator (ofList sentinel tokens) position =
      ((Parser.operator t ts).value, position + (Parser.operator t ts).taken) := by
  have hkinds : ∀ compound ∈ compoundOperators, .endToken ∉ compound.1 := by decide
  have hfind : (compoundOperators.find? fun compound =>
        spells (ofList sentinel tokens) position compound.1) =
      compoundOperators.find? fun compound => Parser.spells compound.1 (t :: ts) := by
    rw [← List.head?_filter, ← List.head?_filter]
    refine congrArg List.head? (List.filter_congr fun compound hcompound => ?_)
    rw [spells_ofList hsentinel (hkinds compound hcompound), h]
  rw [operator, hfind, Parser.operator, ofList_of_drop_eq_cons h]
  cases hspells : compoundOperators.find? fun compound => Parser.spells compound.1 (t :: ts) with
  | none => rfl
  | some found =>
    obtain ⟨spelling, compound⟩ := found
    -- The spelling fits into the tokens that are left, so that no sentinel is taken with it.
    have hfound := List.find?_some hspells
    obtain ⟨front, rest, hts, rfl, -⟩ := Parser.spells_iff.mp hfound
    have hne : front.map kind ≠ [] := by
      have hall : ∀ compound ∈ compoundOperators, compound.1 ≠ [] := by decide
      exact hall _ (List.mem_of_find?_eq_some hspells)
    obtain ⟨u, others, rfl⟩ := List.exists_cons_of_ne_nil (mt List.map_eq_nil_iff.mpr hne)
    rw [List.cons_append] at hts
    obtain ⟨rfl, rfl⟩ := List.cons.inj hts
    have hlength : ((t :: others).map kind).length - 1 = others.length := by simp
    have hwindow : window (ofList sentinel tokens) (position + 1) others.length = others := by
      rw [window_ofList, drop_add_one h, List.takeD_left]
    simp only [hlength, hwindow, List.take_left]
    simp [Nat.add_comm]

/-- Where the parser finds no equals sign, the machine finds another operator. -/
theorem kind_operator_ofList_ne (hsentinel : kind sentinel = .endToken)
    (h : Parser.equals? (tokens.drop position) = none) :
    (operator (ofList sentinel tokens) position).1.kind ≠ .equals := by
  cases hdrop : tokens.drop position with
  | nil =>
    rw [operator_ofList_of_eq_nil hsentinel hdrop]
    exact fun hkind => absurd (hsentinel.symm.trans hkind) (by decide)
  | cons t ts =>
    rw [operator_ofList_of_eq_cons hsentinel hdrop]
    rw [hdrop, Parser.equals?] at h
    exact fun hkind => absurd (h.symm.trans (if_pos hkind)) (by simp)

/-- Where the parser takes an equals sign, the machine does. -/
theorem operator_ofList_of_equals? (hsentinel : kind sentinel = .endToken)
    {equals : Parsed α (Leaf α)} (h : Parser.equals? (tokens.drop position) = some equals) :
    operator (ofList sentinel tokens) position = (equals.value, position + equals.taken) ∧
      equals.value.kind = .equals := by
  cases hdrop : tokens.drop position with
  | nil =>
    rw [hdrop] at h
    cases h
  | cons t ts =>
    rw [hdrop, Parser.equals?, Option.ite_none_right_eq_some] at h
    obtain ⟨hkind, hequals⟩ := h
    rw [← Option.some.inj hequals]
    exact ⟨operator_ofList_of_eq_cons hsentinel hdrop, hkind⟩

/-! ### Expressions -/

omit [Readable α] in
/-- What is to be shown at a bound is shown for the calls at the bound below it. -/
theorem AnswersAbove.of_succ {τ : Type} {measure : Nat} {f : Nat → Option τ} {answer : τ}
    (h : ∀ depth, measure ≤ depth → f (depth + 1) = some answer) :
    AnswersAbove measure f answer := by
  intro depth hdepth
  obtain ⟨depth, rfl⟩ := Nat.exists_eq_add_one_of_ne_zero (Nat.ne_zero_of_lt hdepth)
  exact h depth (Nat.le_of_lt_succ hdepth)

/-- The three functions that read expressions, on the tokens that are left and then on sentinels.
The measure by which the parser's own calls become smaller is a measure for the bound. -/
private theorem expression?_all (hsentinel : kind sentinel = .endToken) (tokens : List α) :
    (∀ level ts, ∀ position, tokens.drop position = ts →
      AnswersAbove (2 * ts.length + 1)
        (expression? (ofList sentinel tokens) · level position)
        ((Parser.expression sentinel level ts).value,
          position + (Parser.expression sentinel level ts).taken)) ∧
    (∀ level left ts, ∀ start, tokens.drop (start + left.taken) = ts →
      AnswersAbove (2 * ts.length)
        (climb? (ofList sentinel tokens) · level left.value (start + left.taken))
        ((Parser.climb sentinel level left ts).value,
          start + (Parser.climb sentinel level left ts).taken)) ∧
    ∀ level ts, ∀ position, tokens.drop position = ts →
      AnswersAbove (2 * ts.length)
        (operand? (ofList sentinel tokens) · level position)
        ((Parser.operand sentinel level ts).value,
          position + (Parser.operand sentinel level ts).taken) := by
  apply Parser.expression.mutual_induct sentinel
  case case1 =>
    intro level ts left hoperand hclimb position hdrop
    refine .of_succ fun depth hdepth => ?_
    have hrest := left.two_mul_length_rest_le ts
    have hleft : operand? (ofList sentinel tokens) depth level position =
        some (left.value, position + left.taken) := hoperand position hdrop depth (by omega)
    rw [expression?, hleft, Parser.expression]
    exact hclimb position (drop_add_taken hdrop left) depth (by omega)
  -- At the sentinel no operator goes on with the operand.
  case case2 =>
    intro level left start hdrop
    refine .of_succ fun depth _ => ?_
    rw [climb?, operator_ofList_of_eq_nil hsentinel hdrop, Parser.climb]
    exact if_pos (.inl (congrArg binaryPrecedence hsentinel))
  case case3 =>
    intro level left t ts sign precedence hle start hdrop
    refine .of_succ fun depth _ => ?_
    rw [climb?, operator_ofList_of_eq_cons hsentinel hdrop, Parser.climb, if_pos hle]
    exact if_pos (.inr hle)
  -- A further operand is read only behind an operator of the stream, hence from fewer tokens.
  case case4 =>
    intro level left t ts sign precedence hlt after right _ hright hclimb start hdrop
    refine .of_succ fun depth hdepth => ?_
    have hafter : 2 * after.length + 1 < 2 * (t :: ts).length := sign.two_mul_length_rest_lt t ts
    have hrest : (right.rest after).length ≤ after.length := right.length_rest_le after
    have hdrop' : tokens.drop (start + left.taken + sign.taken) = after := drop_add_taken hdrop sign
    have hstep : expression? (ofList sentinel tokens) depth precedence
          (start + left.taken + sign.taken) =
        some (right.value, start + left.taken + sign.taken + right.taken) :=
      hright _ hdrop' depth (Nat.lt_of_lt_of_le hafter hdepth)
    have hgo := hclimb start (by
      simp only [Parsed.app, Parsed.map, ← Nat.add_assoc]
      exact drop_add_taken hdrop' right) depth (by omega)
    have hpos : precedence ≠ 0 := fun h0 => hlt (Nat.le_trans (Nat.le_of_eq h0) (Nat.zero_le level))
    rw [climb?, operator_ofList_of_eq_cons hsentinel hdrop, Parser.climb, if_neg hlt]
    refine (if_neg (not_or.mpr ⟨hpos, hlt⟩)).trans ?_
    rw [hstep, Option.bind_eq_bind, Option.bind_some]
    simp only [Parsed.app, Parsed.map, ← Nat.add_assoc] at hgo ⊢
    exact hgo
  -- At the sentinel an operand is a missing literal.
  case case5 =>
    intro level position hdrop
    refine .of_succ fun depth _ => ?_
    have hunary : unaryPrecedence (Leaf.plain sentinel).kind = 0 :=
      congrArg unaryPrecedence hsentinel
    rw [operand?, operator_ofList_of_eq_nil hsentinel hdrop, Parser.operand]
    refine (if_neg fun h => h.1 hunary).trans ?_
    rw [ofList_of_drop_eq_nil hdrop, hsentinel, expect_ofList hdrop]
    rfl
  case case6 =>
    intro level t ts sign precedence hunary hoperand position hdrop
    refine .of_succ fun depth hdepth => ?_
    have hrest := sign.two_mul_length_rest_lt t ts
    have hright : expression? (ofList sentinel tokens) depth precedence (position + sign.taken) =
        some (_, _) :=
      hoperand _ (drop_add_taken hdrop sign) depth (Nat.lt_of_lt_of_le hrest hdepth)
    rw [operand?, operator_ofList_of_eq_cons hsentinel hdrop, Parser.operand, if_pos hunary]
    refine (if_pos hunary).trans ?_
    rw [hright, Option.bind_eq_bind, Option.bind_some]
    simp only [Parsed.app, Parsed.map, ← Nat.add_assoc]
    rfl
  case case7 =>
    intro level t ts sign precedence hunary ht hequals position hdrop
    refine .of_succ fun depth hdepth => ?_
    have hkind : (operator (ofList sentinel tokens) (position + 1)).1.kind ≠ .equals :=
      kind_operator_ofList_ne hsentinel (by rw [drop_add_one hdrop, hequals])
    rw [operand?, operator_ofList_of_eq_cons hsentinel hdrop, Parser.operand, if_neg hunary]
    refine (if_neg hunary).trans ?_
    rw [ofList_of_drop_eq_cons hdrop]
    simp only [ht, hequals]
    exact if_neg hkind
  case case8 =>
    intro level t ts sign precedence hunary ht equals hequals hvalue position hdrop
    refine .of_succ fun depth hdepth => ?_
    obtain ⟨hoperator, hkind⟩ := operator_ofList_of_equals? hsentinel
      (hequals ▸ congrArg Parser.equals? (drop_add_one hdrop))
    have hrest := equals.two_mul_length_rest_le ts
    have hstep : expression? (ofList sentinel tokens) depth 0 (position + 1 + equals.taken) =
        some (_, _) :=
      hvalue _ (drop_add_taken (drop_add_one hdrop) equals) depth (by
        rw [List.length_cons] at hdepth
        omega)
    rw [operand?, operator_ofList_of_eq_cons hsentinel hdrop, Parser.operand, if_neg hunary]
    refine (if_neg hunary).trans ?_
    rw [ofList_of_drop_eq_cons hdrop]
    simp only [ht, hequals, hoperator, hstep]
    refine (if_pos hkind).trans ?_
    simp only [Parsed.app, Parsed.one, ← Nat.add_assoc]
    rfl
  case case9 =>
    intro level t ts sign precedence hunary ht hinner position hdrop
    refine .of_succ fun depth hdepth => ?_
    rw [List.length_cons] at hdepth
    have hstep : expression? (ofList sentinel tokens) depth 0 (position + 1) = some (_, _) :=
      hinner _ (drop_add_one hdrop) depth (by omega)
    rw [operand?, operator_ofList_of_eq_cons hsentinel hdrop, Parser.operand, if_neg hunary]
    refine (if_neg hunary).trans ?_
    rw [ofList_of_drop_eq_cons hdrop]
    simp only [ht, hstep, Option.bind_eq_bind, Option.bind_some,
      expect_ofList (drop_add_taken (drop_add_one hdrop) _)]
    simp only [Parsed.app, Parsed.one, ← Nat.add_assoc]
    rfl
  case case10 =>
    intro level t ts sign precedence hunary hidentifier hparen position hdrop
    refine .of_succ fun depth hdepth => ?_
    rw [operand?, operator_ofList_of_eq_cons hsentinel hdrop, Parser.operand_of_not hunary
      hidentifier hparen]
    refine (if_neg hunary).trans ?_
    rw [ofList_of_drop_eq_cons hdrop, expect_ofList hdrop]
    split
    · exact (hidentifier ‹_›).elim
    · exact (hparen ‹_›).elim
    · rfl

/-- The machine reads the expression that the parser reads. -/
theorem expression?_ofList (hsentinel : kind sentinel = .endToken) {ts : List α}
    (h : tokens.drop position = ts) (level : Nat) :
    AnswersAbove (2 * ts.length + 1) (expression? (ofList sentinel tokens) · level position)
      ((Parser.expression sentinel level ts).value,
        position + (Parser.expression sentinel level ts).taken) :=
  (expression?_all hsentinel tokens).1 level ts position h

/-! ### Statements -/

/-- The look-ahead passes the blanks that are left and then sees that the sentinel is none. -/
theorem significantKind?_ofList (hsentinel : kind sentinel = .endToken) {ts : List α}
    (h : tokens.drop position = ts) :
    AnswersAbove ts.length (significantKind? (ofList sentinel tokens) · position)
      (Parser.significantKind sentinel ts) := by
  induction ts generalizing position with
  | nil =>
    refine .of_succ fun depth _ => ?_
    rw [significantKind?, ofList_of_drop_eq_nil h, hsentinel]
    exact congrArg some hsentinel.symm
  | cons t ts ih =>
    refine .of_succ fun depth hdepth => ?_
    rw [significantKind?, ofList_of_drop_eq_cons h, Parser.significantKind, List.find?_cons]
    cases htrivia : (kind t).isTrivia with
    | true => exact ih (drop_add_one h) depth hdepth
    | false => rfl

theorem expressionStatement?_ofList (hsentinel : kind sentinel = .endToken) {ts : List α}
    (h : tokens.drop position = ts) :
    AnswersAbove (2 * ts.length + 1) (expressionStatement? (ofList sentinel tokens) · position)
      ((Parser.expressionStatement sentinel ts).value,
        position + (Parser.expressionStatement sentinel ts).taken) := by
  intro depth hdepth
  have hvalue := expression?_ofList hsentinel h 0 depth hdepth
  simp only [expressionStatement?, hvalue, Option.bind_eq_bind, Option.bind_some,
    expect_ofList (drop_add_taken h _)]
  simp only [Parser.expressionStatement, Parsed.app, Parsed.map, ← Nat.add_assoc]
  rfl

/-- A token of a wanted kind goes into the tree as it is. -/
theorem expect_ofList_of_mem {t : α} {ts : List α} (h : tokens.drop position = t :: ts)
    {kinds : List TokenKind} (ht : kind t ∈ kinds) :
    expect (ofList sentinel tokens) kinds position = .plain t := by
  rw [expect, ofList_of_drop_eq_cons h, if_pos ht]

theorem declaration?_ofList (hsentinel : kind sentinel = .endToken) {t : α} {ts : List α}
    (h : tokens.drop position = t :: ts) (ht : kind t = .identifier) :
    AnswersAbove (2 * ts.length + 1) (declaration? (ofList sentinel tokens) · position)
      ((Parser.declaration sentinel t ts).value,
        position + (Parser.declaration sentinel t ts).taken) := by
  intro depth hdepth
  have htype : expect (ofList sentinel tokens) [.identifier] position = .plain t :=
    expect_ofList_of_mem h (List.mem_singleton.mpr ht)
  have hname : expect (ofList sentinel tokens) [.identifier] (position + 1) = _ :=
    expect_ofList (drop_add_one h) [.identifier]
  have hdrop : tokens.drop (position + 2) = ts.drop 1 := by
    rw [← drop_add_one h, List.drop_drop]
  simp only [declaration?, htype, hname]
  cases hequals : Parser.equals? (ts.drop 1) with
  | none =>
    rw [Parser.declaration_of_equals?_eq_none hequals,
      if_neg (kind_operator_ofList_ne hsentinel (hdrop.symm ▸ hequals)), expect_ofList hdrop]
    rfl
  | some equals =>
    obtain ⟨hoperator, hkind⟩ := operator_ofList_of_equals? hsentinel (hdrop.symm ▸ hequals)
    have hrest := equals.length_rest_le (ts.drop 1)
    have hvalue := expression?_ofList hsentinel (drop_add_taken hdrop equals) 0 depth (by
      rw [List.length_drop] at hrest
      omega)
    rw [Parser.declaration_of_equals?_eq_some hequals, hoperator, if_pos hkind]
    simp only [hvalue, Option.bind_eq_bind, Option.bind_some,
      expect_ofList (drop_add_taken (drop_add_taken hdrop equals) _)]
    simp only [Parsed.app, Parsed.map, Parsed.one, Parser.expect, ← Nat.add_assoc]
    rfl

/-- The two functions that read statements, as above: a closer is found at the sentinel at last. -/
private theorem statement?_all (tokens : List α) :
    (∀ sentinel t ts, kind sentinel = .endToken → ∀ position, tokens.drop position = t :: ts →
      AnswersAbove (2 * ts.length + 4) (statement? (ofList sentinel tokens) · position)
        ((Parser.statement sentinel t ts).value,
          position + (Parser.statement sentinel t ts).taken)) ∧
    ∀ sentinel closers ts, kind sentinel = .endToken → .endToken ∈ closers →
      ∀ position, tokens.drop position = ts →
      AnswersAbove (2 * ts.length + 3) (statements? (ofList sentinel tokens) closers · position)
        ((Parser.statements sentinel closers ts).map Parsed.value,
          position + Parsed.total (Parser.statements sentinel closers ts)) := by
  apply Parser.statement.mutual_induct
  case case1 =>
    intro sentinel t ts hbrace hbody hsentinel position hdrop
    refine .of_succ fun depth hdepth => ?_
    have hdrop' := drop_add_one hdrop
    have hlook : significantKind? (ofList sentinel tokens) depth (position + 1) = some _ :=
      significantKind?_ofList hsentinel hdrop' depth (by omega)
    have hstep := hbody hsentinel (by simp) _ hdrop' depth (by omega)
    have hbehind (count : Nat) : tokens.drop (position + 1 + count) = ts.drop count := by
      rw [← List.drop_drop, hdrop']
    rw [statement?, ofList_of_drop_eq_cons hdrop, hbrace, hlook,
      Parser.statement_of_leftCurlyBrace hbrace]
    simp only [hstep, Option.bind_eq_bind, Option.bind_some, expect_ofList (hbehind _),
      expect_ofList_of_mem hdrop (List.mem_singleton.mpr hbrace)]
    simp only [Parser.blockOf, Parser.expect, ← Nat.add_assoc]
    rfl
  case case2 =>
    intro sentinel t ts hnext hidentifier hsentinel position hdrop
    refine .of_succ fun depth hdepth => ?_
    have hlook : significantKind? (ofList sentinel tokens) depth (position + 1) = some _ :=
      significantKind?_ofList hsentinel (drop_add_one hdrop) depth (by omega)
    rw [statement?, ofList_of_drop_eq_cons hdrop, hidentifier, hlook, hnext,
      Parser.statement_of_identifier hidentifier hnext]
    exact declaration?_ofList hsentinel hdrop hidentifier depth (by omega)
  case case3 =>
    intro sentinel t ts hbrace hdeclaration hsentinel position hdrop
    refine .of_succ fun depth hdepth => ?_
    have hlook : significantKind? (ofList sentinel tokens) depth (position + 1) = some _ :=
      significantKind?_ofList hsentinel (drop_add_one hdrop) depth (by omega)
    rw [statement?, ofList_of_drop_eq_cons hdrop, hlook, Option.bind_eq_bind, Option.bind_some,
      Parser.statement_of_not hbrace hdeclaration]
    split
    · exact (hbrace ‹_›).elim
    · exact (hdeclaration ‹_› ‹_›).elim
    · exact expressionStatement?_ofList hsentinel hdrop depth (by
        rw [List.length_cons]
        omega)
  -- The sentinel is among the closers, so that statements end there at the latest.
  case case4 =>
    intro sentinel closers hsentinel hend position hdrop
    refine .of_succ fun depth _ => ?_
    rw [statements?, ofList_of_drop_eq_nil hdrop, hsentinel, if_pos hend, Parser.statements]
    rfl
  case case5 =>
    intro sentinel closers t ts ht hsentinel hend position hdrop
    refine .of_succ fun depth _ => ?_
    rw [statements?, ofList_of_drop_eq_cons hdrop, if_pos ht, Parser.statements, if_pos ht]
    rfl
  case case6 =>
    intro sentinel closers t ts ht first hfirst hothers hsentinel hend position hdrop
    refine .of_succ fun depth hdepth => ?_
    have hrest := first.length_rest_lt t ts
    have hstep : statement? (ofList sentinel tokens) depth position = some (_, _) :=
      hfirst hsentinel _ hdrop depth (by
        rw [List.length_cons] at hdepth
        omega)
    have hgo : statements? (ofList sentinel tokens) closers depth (position + first.taken) =
        some (_, _) := hothers hsentinel hend _ (drop_add_taken hdrop first) depth (by omega)
    rw [statements?, ofList_of_drop_eq_cons hdrop, if_neg ht, Parser.statements, if_neg ht, hstep,
      Option.bind_eq_bind, Option.bind_some]
    refine (congrArg (Option.bind · _) hgo).trans ?_
    simp only [Parsed.total, ← Nat.add_assoc]
    rfl

/-- The machine reads the statements that the parser reads. -/
theorem statements?_ofList (hsentinel : kind sentinel = .endToken) {closers : List TokenKind}
    (hclosers : .endToken ∈ closers) {ts : List α} (h : tokens.drop position = ts) :
    AnswersAbove (2 * ts.length + 3) (statements? (ofList sentinel tokens) closers · position)
      ((Parser.statements sentinel closers ts).map Parsed.value,
        position + Parsed.total (Parser.statements sentinel closers ts)) :=
  (statement?_all tokens).2 sentinel closers ts hsentinel hclosers position h

/-! ### Programs -/

/-- On a stream that goes on with its sentinel, the machine finds the program that the parser finds,
and takes as many tokens. -/
theorem program?_ofList (hsentinel : kind sentinel = .endToken) (tokens : List α) :
    AnswersAbove (2 * tokens.length + 3) (program? (ofList sentinel tokens))
      (Parser.program sentinel tokens, Parser.taken sentinel tokens) := by
  intro depth hdepth
  have hbody : statements? (ofList sentinel tokens) [.endToken] depth 0 = some (_, _) :=
    statements?_ofList hsentinel (List.mem_singleton_self _) (tokens.drop_zero) depth hdepth
  rw [program?, hbody, Option.bind_eq_bind, Option.bind_some, Nat.zero_add]
  simp only [expect_ofList (rfl : tokens.drop _ = _)]
  rfl

end

omit [Readable α] in
/-- A stream that goes on with its sentinel does so behind its first sentinel, too. -/
theorem ofList_append_singleton (sentinel : α) (tokens : List α) :
    ofList sentinel (tokens ++ [sentinel]) = ofList sentinel tokens := by
  funext position
  rw [ofList, ofList, List.getD_eq_getElem?_getD, List.getD_eq_getElem?_getD]
  rcases Nat.lt_trichotomy position tokens.length with hlt | rfl | hgt
  · rw [List.getElem?_append_left hlt]
  · rw [List.getElem?_concat_length, List.getElem?_eq_none (Nat.le_refl _)]
    rfl
  · rw [List.getElem?_eq_none (by
      rw [List.length_append]
      exact hgt), List.getElem?_eq_none (Nat.le_of_lt hgt)]

/-- Hence the parser finds the same program with the first sentinel written out. -/
theorem program_append_singleton {sentinel : α} (hsentinel : kind sentinel = .endToken)
    (tokens : List α) :
    Parser.program sentinel (tokens ++ [sentinel]) = Parser.program sentinel tokens := by
  have hlong := program?_ofList hsentinel (tokens ++ [sentinel])
  have hshort := program?_ofList hsentinel tokens
  rw [ofList_append_singleton] at hlong
  rw [List.length_append, List.length_singleton] at hlong
  have heq := (hlong (2 * tokens.length + 6) (by omega)).symm.trans
    (hshort (2 * tokens.length + 6) (by omega))
  exact congrArg Prod.fst (Option.some.inj heq)

end LosslessSyntax.Endless
