import LosslessSyntax.Proofs.Tree.Conservation
import LosslessSyntax.Proofs.Tree.Shape

/-!
# Derivations and their tokens

A tree over leaves is a derivation of the tokens that its leaves are made of (`Expression.parts`,
`Statement.parts`). It is canonical if it is well shaped and its leaves are exact: tokens as they
are, and compound operators with the tokens that spell them.

From the tokens of a canonical expression, and whatever comes behind it, the parser reads this
expression (`readsBack_of_wellShaped`), provided that what comes behind does not go on with it.
There are three ways in which it could. The next operator could take a part of the expression as its
left operand; `Expression.Admits` excludes this. An equals sign could turn an identifier at the
right edge into an assignment. And the last token of an operator could touch the first token of its
operand and make up a longer operator with it: this does not happen, since the only token that ends
a spelling which another operator begins is an equals sign, and no expression begins with one
(`operator_parts_append`).
-/

namespace LosslessSyntax

variable {α : Type}

/-! ### Tokens of a derivation -/

private theorem flatMap_parts_ne_nil {leaves : List (Leaf α)} (h : leaves ≠ []) :
    leaves.flatMap Leaf.parts ≠ [] := by
  obtain ⟨leaf, leaves, rfl⟩ := List.exists_cons_of_ne_nil h
  rw [List.flatMap_cons]
  exact List.append_ne_nil_of_left_ne_nil leaf.parts_ne_nil _

namespace Parsed

variable {τ : Type}

/-- The answer of a function that takes some tokens and no others, all of which it expects. -/
def whole (value : τ) {parts : List α} (h : parts ≠ []) : Parsed α τ :=
  ⟨value, [], parts.length, List.length_pos_of_ne_nil h⟩

theorem rest_whole (value : τ) {parts : List α} (h : parts ≠ []) (ts : List α) :
    (whole value h).rest (parts ++ ts) = ts :=
  List.drop_left

theorem eq_whole {p : Parsed α τ} {value : τ} {parts : List α} (hvalue : p.value = value)
    (herrors : p.errors = []) (h : parts ≠ []) (htaken : p.taken = parts.length) :
    p = .whole value h := by
  obtain ⟨_, errors, taken, taken_pos⟩ := p
  subst hvalue herrors htaken
  rfl

end Parsed

/-- A leaf, read from its tokens. -/
abbrev Leaf.whole (leaf : Leaf α) : Parsed α (Leaf α) :=
  .whole leaf leaf.parts_ne_nil

namespace Expression

/-- The tokens that an expression is made of. -/
def parts (e : Expression (Leaf α)) : List α :=
  e.leaves.flatMap Leaf.parts

theorem parts_ne_nil (e : Expression (Leaf α)) : e.parts ≠ [] := by
  refine flatMap_parts_ne_nil fun hnil => ?_
  have := e.head?_leaves
  rw [hnil] at this
  cases this

/-- An expression, read from its tokens. -/
abbrev whole (e : Expression (Leaf α)) : Parsed α (Expression (Leaf α)) :=
  .whole e e.parts_ne_nil

theorem parts_binary (left right : Expression (Leaf α)) (operator : Leaf α) :
    (binary left operator right).parts = left.parts ++ (operator.parts ++ right.parts) := by
  rw [parts, leaves, List.flatMap_append, List.flatMap_cons, ← parts, ← parts]

theorem parts_assignment (name equals : Leaf α) (value : Expression (Leaf α)) :
    (assignment name equals value).parts = name.parts ++ (equals.parts ++ value.parts) := by
  rw [parts, leaves, List.flatMap_cons, List.flatMap_cons, ← parts]

theorem parts_unary (operator : Leaf α) (operand : Expression (Leaf α)) :
    (unary operator operand).parts = operator.parts ++ operand.parts := by
  rw [parts, leaves, List.flatMap_cons, ← parts]

theorem parts_parenthesized (opening closing : Leaf α) (inner : Expression (Leaf α)) :
    (parenthesized opening inner closing).parts =
      opening.parts ++ (inner.parts ++ closing.parts) := by
  rw [parts, leaves, List.flatMap_cons, List.flatMap_append, List.flatMap_singleton, ← parts]

end Expression

namespace Statement

/-- The tokens that a statement is made of. -/
def parts (s : Statement (Leaf α)) : List α :=
  s.leaves.flatMap Leaf.parts

theorem parts_ne_nil (s : Statement (Leaf α)) : s.parts ≠ [] := by
  refine flatMap_parts_ne_nil fun hnil => ?_
  have := s.head?_leaves
  rw [hnil] at this
  cases this

theorem parts_expression (value : Expression (Leaf α)) (semicolon : Leaf α) :
    (expression value semicolon).parts = value.parts ++ semicolon.parts := by
  rw [parts, leaves, List.flatMap_append, List.flatMap_singleton, Expression.parts]

theorem parts_block (opening closing : Leaf α) (body : List (Statement (Leaf α))) :
    (block opening body closing).parts =
      opening.parts ++ (body.flatMap parts ++ closing.parts) := by
  rw [parts, leaves, leavesOfAll_eq_flatMap, List.flatMap_cons, List.flatMap_append,
    List.flatMap_singleton, List.flatMap_assoc]
  rfl

theorem parts_initialization (type name equals semicolon : Leaf α) (value : Expression (Leaf α)) :
    (initialization type name equals value semicolon).parts =
      type.parts ++ (name.parts ++ (equals.parts ++ (value.parts ++ semicolon.parts))) := by
  rw [parts, leaves, List.flatMap_cons, List.flatMap_cons, List.flatMap_cons, List.flatMap_append,
    List.flatMap_singleton, Expression.parts]

/-- A statement, read from its tokens. -/
abbrev whole (s : Statement (Leaf α)) : Parsed α (Statement (Leaf α)) :=
  .whole s s.parts_ne_nil

end Statement

/-! ### Canonical trees -/

variable [Readable α]

/-- A leaf that is a token other than a missing one, or an operator and the tokens that spell it. -/
inductive Leaf.Exact : Leaf α → Prop
  | plain {token : α} (hkind : Readable.kind token ≠ .missingToken) : Exact (.plain token)
  | merged {operator : TokenKind} {first : α} {others : List α}
      (hspells : Parser.SpellsCompound operator (first :: others)) :
      Exact (.merged operator first others)

namespace Leaf

namespace Exact

variable {leaf : Leaf α}

theorem kind_ne (h : leaf.Exact) : leaf.kind ≠ .missingToken := by
  cases h with
  | plain hkind => exact hkind
  | merged hspells =>
    have hall : ∀ compound ∈ compoundOperators, compound.2 ≠ .missingToken := by decide
    exact hall _ hspells.mem

/-- An exact leaf of a kind that is no compound operator is a single token. -/
theorem exists_plain (h : leaf.Exact) {kinds : List TokenKind} (hmem : leaf.kind ∈ kinds)
    (hkinds : ∀ compound ∈ compoundOperators, compound.2 ∉ kinds) :
    ∃ t, leaf = .plain t ∧ Readable.kind t ∈ kinds := by
  cases h with
  | @plain t _ => exact ⟨t, rfl, hmem⟩
  | merged hspells => exact absurd hmem (hkinds _ hspells.mem)

theorem exists_plain_of_fits (h : leaf.Exact) {kinds : List TokenKind}
    (hfits : Fits Leaf.kind kinds leaf) (hkinds : ∀ compound ∈ compoundOperators,
      compound.2 ∉ kinds) :
    ∃ t, leaf = .plain t ∧ Readable.kind t ∈ kinds :=
  h.exists_plain (hfits.resolve_right h.kind_ne) hkinds

theorem exists_plain_of_kind_eq (h : leaf.Exact) {kind : TokenKind} (hkind : leaf.kind = kind)
    (hkinds : ∀ compound ∈ compoundOperators, compound.2 ≠ kind) :
    ∃ t, leaf = .plain t ∧ Readable.kind t = kind := by
  obtain ⟨t, hleaf, ht⟩ := h.exists_plain (List.mem_singleton.mpr hkind)
    fun compound hcompound hmem => hkinds compound hcompound (List.mem_singleton.mp hmem)
  exact ⟨t, hleaf, List.mem_singleton.mp ht⟩

end Exact

end Leaf

/-- A statement that is built as the grammar demands, without missing tokens. -/
structure Statement.Canonical (s : Statement (Leaf α)) : Prop where
  wellShaped : s.WellShaped Leaf.kind
  exact : ∀ leaf ∈ s.leaves, leaf.Exact

namespace Parser

/-! ### Operators -/

/-- Tokens with which an expression can begin. -/
def starters : List TokenKind :=
  literalKinds ++ [.identifier, .leftParen, .plus, .minus, .exclamationMark]

/-- The tokens of a canonical expression begin with one that can begin an expression. -/
theorem exists_parts_eq_cons {e : Expression (Leaf α)} (h : e.WellShaped Leaf.kind)
    (hexact : ∀ leaf ∈ e.leaves, leaf.Exact) :
    ∃ t ts, e.parts = t :: ts ∧ kind t ∈ starters := by
  induction h with
  | literal hvalue =>
    obtain ⟨t, rfl, ht⟩ :=
      (List.forall_mem_singleton.mp hexact).exists_plain_of_fits hvalue (by decide)
    exact ⟨t, _, rfl, List.mem_append_left _ ht⟩
  | identifier hname =>
    obtain ⟨t, rfl, ht⟩ :=
      (List.forall_mem_singleton.mp hexact).exists_plain_of_kind_eq hname (by decide)
    exact ⟨t, _, rfl, by rw [ht]; decide⟩
  | assignment hname =>
    obtain ⟨t, rfl, ht⟩ :=
      (List.forall_mem_cons.mp hexact).1.exists_plain_of_kind_eq hname (by decide)
    exact ⟨t, _, rfl, by rw [ht]; decide⟩
  | binary _ _ _ _ _ ih =>
    obtain ⟨t, ts, hparts, ht⟩ := ih (List.forall_mem_append.mp hexact).1
    rw [Expression.parts_binary, hparts]
    exact ⟨t, _, rfl, ht⟩
  | @unary operator operand hoperator =>
    obtain ⟨t, rfl, ht⟩ := (List.forall_mem_cons.mp hexact).1.exists_plain
      (mem_of_unaryPrecedence_ne_zero hoperator) (by decide)
    exact ⟨t, _, rfl, List.mem_append_right _ (List.mem_of_mem_tail (List.mem_of_mem_tail ht))⟩
  | parenthesized hopening =>
    obtain ⟨t, rfl, ht⟩ :=
      (List.forall_mem_cons.mp hexact).1.exists_plain_of_kind_eq hopening (by decide)
    exact ⟨t, _, rfl, by rw [ht]; decide⟩

/-- Kinds of the operators that stand in expressions. -/
def operatorKinds : List TokenKind :=
  [.plus, .minus, .exclamationMark] ++ [.asterisk, .forwardSlash, .equals, .equalsEquals,
    .exclamationEquals, .ampersandAmpersand, .verticalBarVerticalBar]

/-- The operator with which a stream begins is the one that its first tokens spell, unless an equals
sign comes behind it. -/
theorem operator_parts_append {leaf : Leaf α} (hexact : leaf.Exact)
    (hkind : leaf.kind ∈ operatorKinds) {ts : List α} (hnext : ∀ u ∈ ts.head?, kind u ≠ .equals) :
    ∃ t us, leaf.parts ++ ts = t :: us ∧ operator t us = leaf.whole := by
  cases hexact with
  | @plain t _ =>
    refine ⟨t, ts, rfl, ?_⟩
    rcases operator_cases t ts with hone | ⟨compound, others, rest, rfl, hspells, -⟩
    · exact hone
    -- A spelling that goes on from this kind goes on with an equals sign.
    · have hall : ∀ compound ∈ compoundOperators, ∀ k ∈ compound.1.head?, k ∈ operatorKinds →
          compound.1.tail.head? = some .equals := by decide
      have hequals := hall _ hspells.mem (kind t) rfl hkind
      cases others with
      | nil => cases hequals
      | cons u others => exact absurd (Option.some.inj hequals) (hnext u rfl)
  | @merged compound t others hspells =>
    -- The operators of three tokens, with which a shorter one could be confused, are not used here.
    have hall : ∀ compound ∈ compoundOperators, compound.2 ∈ operatorKinds →
        compound.1.length = 2 ∧ ∀ other ∈ compoundOperators,
          other.1.take 2 = compound.1 → other = compound := by decide
    obtain ⟨hlength, hunique⟩ := hall _ hspells.mem hkind
    obtain ⟨u, rfl⟩ : ∃ u, others = [u] := List.length_eq_one_iff.mp (by simpa using hlength)
    exact ⟨t, u :: ts, rfl, operator_of_spellsCompound hspells hunique ts⟩

theorem nextPrecedence_parts_append {leaf : Leaf α} (hexact : leaf.Exact)
    (hkind : leaf.kind ∈ operatorKinds) {ts : List α} (hnext : ∀ u ∈ ts.head?, kind u ≠ .equals) :
    nextPrecedence (leaf.parts ++ ts) = binaryPrecedence leaf.kind := by
  obtain ⟨t, us, hparts, hoperator⟩ := operator_parts_append hexact hkind hnext
  rw [hparts, nextPrecedence, hoperator]
  rfl

theorem equals?_parts_append {leaf : Leaf α} (hexact : leaf.Exact)
    (hkind : leaf.kind ∈ operatorKinds) {ts : List α} (hnext : ∀ u ∈ ts.head?, kind u ≠ .equals) :
    equals? (leaf.parts ++ ts) =
      if leaf.kind = .equals then some (leaf.whole) else none := by
  obtain ⟨t, us, hparts, hoperator⟩ := operator_parts_append hexact hkind hnext
  rw [hparts, equals?, hoperator]
  rfl

/-- No expression begins with an equals sign. -/
theorem kind_head?_parts_append_ne {e : Expression (Leaf α)} (h : e.WellShaped Leaf.kind)
    (hexact : ∀ leaf ∈ e.leaves, leaf.Exact) (ts : List α) :
    ∀ u ∈ (e.parts ++ ts).head?, kind u ≠ .equals := by
  obtain ⟨t, us, hparts, ht⟩ := exists_parts_eq_cons h hexact
  rw [hparts]
  rintro u ⟨⟩ hequals
  rw [hequals] at ht
  exact absurd ht (by decide)

theorem mem_operatorKinds_of_binaryPrecedence {kind : TokenKind}
    (h : 0 < binaryPrecedence kind) : kind ∈ operatorKinds := by
  revert h
  cases kind <;> decide

theorem mem_operatorKinds_of_unaryPrecedence {kind : TokenKind}
    (h : unaryPrecedence kind ≠ 0) : kind ∈ operatorKinds :=
  List.mem_append_left _ (mem_of_unaryPrecedence_ne_zero h)

/-! ### Expressions -/

/-- What stands behind an expression does not go on with it. -/
structure Stops (e : Expression (Leaf α)) (ts : List α) : Prop where
  admits : e.Admits Leaf.kind (nextPrecedence ts)
  equals : equals? ts = none

/-- Parentheses are closed and statements ended behind any expression. -/
theorem stops_of_closer {t : α} (ht : kind t ∈ [.rightParen, .semicolon])
    (e : Expression (Leaf α)) (ts : List α) :
    Stops e (t :: ts) ∧ nextPrecedence (t :: ts) = 0 := by
  have hall : ∀ k ∈ [TokenKind.rightParen, .semicolon], binaryPrecedence k = 0 ∧ k ≠ .equals ∧
      ∀ compound ∈ compoundOperators, compound.1.head? ≠ some k := by decide
  obtain ⟨hprecedence, hequals, hstarts⟩ := hall _ ht
  have hone := operator_eq_one_of_not_starts hstarts ts
  have hnext : nextPrecedence (t :: ts) = 0 := by
    rw [nextPrecedence, hone]
    exact hprecedence
  refine ⟨⟨⟨fun _ _ => ?_, fun _ => hnext⟩, ?_⟩, hnext⟩
  · rw [hnext]
    exact Nat.zero_le _
  · rw [equals?, hone]
    exact if_neg hequals

theorem climb_of_nextPrecedence_le {sentinel : α} {level : Nat} {ts : List α}
    (h : nextPrecedence ts ≤ level) (left : Parsed α (Expression (Leaf α))) :
    climb sentinel level left ts = left := by
  cases ts with
  | nil => rw [climb]
  | cons t ts =>
    rw [nextPrecedence] at h
    rw [climb, if_pos h]

theorem expect_of_mem {sentinel t : α} {kinds : List TokenKind} (h : kind t ∈ kinds)
    (ts : List α) : expect sentinel kinds (t :: ts) = .one (.plain t) := by
  simp only [expect, List.headD_cons, h, if_true]
  rfl

/-! ### Operands -/

section Operands

variable {sentinel t : α} {level : Nat} {ts : List α}

/-- A token that begins an operand without a sign. -/
private theorem not_sign (ht : kind t ∈ literalKinds ++ [.identifier, .leftParen]) (level : Nat)
    (ts : List α) :
    ¬(unaryPrecedence (operator t ts).value.kind ≠ 0 ∧
      level ≤ unaryPrecedence (operator t ts).value.kind) := by
  have hall : ∀ k ∈ literalKinds ++ [.identifier, .leftParen], unaryPrecedence k = 0 ∧
      ∀ compound ∈ compoundOperators, compound.1.head? ≠ some k := by decide
  rw [operator_eq_one_of_not_starts (hall _ ht).2]
  exact fun hsign => hsign.1 (hall _ ht).1

private theorem operand_literal (ht : kind t ∈ literalKinds) :
    operand sentinel level (t :: ts) = .one (.literal (.plain t)) := by
  have hall : ∀ k ∈ literalKinds, k ≠ .identifier ∧ k ≠ .leftParen := by decide
  obtain ⟨hidentifier, hparen⟩ := hall _ ht
  rw [operand_of_not (not_sign (List.mem_append_left _ ht) level ts) hidentifier hparen,
    expect_of_mem ht]
  rfl

private theorem operand_identifier (ht : kind t = .identifier) (hequals : equals? ts = none) :
    operand sentinel level (t :: ts) = .one (.identifier (.plain t)) := by
  rw [operand, if_neg (not_sign (by rw [ht]; decide) level ts)]
  simp only [ht, hequals]

private theorem operand_assignment (ht : kind t = .identifier) {equals : Leaf α}
    {value : Expression (Leaf α)}
    (hequals : equals? (equals.parts ++ ts) = some (equals.whole))
    (hvalue : expression sentinel 0 ts = value.whole) :
    operand sentinel level (t :: (equals.parts ++ ts)) =
      (Expression.assignment (.plain t) equals value).whole := by
  rw [operand, if_neg (not_sign (by rw [ht]; decide) level _)]
  simp only [ht, hequals, Parsed.rest_whole, hvalue]
  refine Parsed.eq_whole rfl rfl (Expression.parts_ne_nil _) ?_
  simp [Parsed.app, Parsed.one, Parsed.whole, Expression.parts, Expression.leaves, Leaf.parts]
  omega

private theorem operand_parenthesized (ht : kind t = .leftParen) {inner : Expression (Leaf α)}
    {closing : α} (hclosing : kind closing ∈ [.rightParen])
    (hinner : expression sentinel 0 (inner.parts ++ closing :: ts) =
      inner.whole) :
    operand sentinel level (t :: (inner.parts ++ closing :: ts)) =
      (Expression.parenthesized (.plain t) inner (.plain closing)).whole := by
  rw [operand, if_neg (not_sign (by rw [ht]; decide) level _)]
  simp only [ht, hinner, Parsed.rest_whole, expect_of_mem hclosing]
  refine Parsed.eq_whole rfl rfl (Expression.parts_ne_nil _) ?_
  simp [Parsed.app, Parsed.one, Parsed.whole, Expression.parts, Expression.leaves, Leaf.parts]
  omega

private theorem operand_unary {sign : Leaf α} {e : Expression (Leaf α)}
    (hsign : operator t ts = sign.whole)
    (hkind : unaryPrecedence sign.kind ≠ 0) (hlevel : level ≤ unaryPrecedence sign.kind)
    {us : List α} (hparts : sign.parts ++ us = t :: ts)
    (hoperand : expression sentinel (unaryPrecedence sign.kind) us = e.whole) :
    operand sentinel level (t :: ts) = (Expression.unary sign e).whole := by
  rw [operand, hsign, if_pos ⟨hkind, hlevel⟩, ← hparts, Parsed.rest_whole]
  change Parsed.app _ (expression sentinel (unaryPrecedence sign.kind) us) = _
  rw [hoperand]
  refine Parsed.eq_whole rfl rfl (Expression.parts_ne_nil _) ?_
  simp [Parsed.app, Parsed.map, Parsed.whole, Expression.parts, Expression.leaves]

end Operands

/-! ### Expressions -/

/-- A step of the climb over an operator and its right operand. -/
private theorem climb_parts_append {sentinel : α} {level : Nat} {left right : Expression (Leaf α)}
    {sign : Leaf α} {ts : List α} {t : α} {us : List α}
    (hparts : sign.parts ++ (right.parts ++ ts) = t :: us)
    (hsign : operator t us = sign.whole)
    (hlevel : level < binaryPrecedence sign.kind)
    (hright : expression sentinel (binaryPrecedence sign.kind) (right.parts ++ ts) =
      right.whole) :
    climb sentinel level (left.whole) (t :: us) =
      climb sentinel level ((Expression.binary left sign right).whole) ts := by
  have hstep : ¬binaryPrecedence sign.whole.value.kind ≤ level := Nat.not_le_of_lt hlevel
  rw [climb, hsign, if_neg hstep, ← hparts]
  simp only [Parsed.rest_whole]
  rw [show sign.whole.value.kind = sign.kind from rfl, hright, Parsed.rest_whole]
  congr 1
  refine Parsed.eq_whole rfl rfl (Expression.parts_ne_nil _) ?_
  simp [Parsed.app, Parsed.map, Parsed.whole, Expression.parts, Expression.leaves, Nat.add_assoc]

/-- An operand is all of an expression that is no operation between operands. -/
private theorem expression_of_operand {sentinel : α} {level : Nat} {e : Expression (Leaf α)}
    {ts : List α} (h : operand sentinel level (e.parts ++ ts) = e.whole) :
    expression sentinel level (e.parts ++ ts) = climb sentinel level e.whole ts := by
  rw [expression, h, Parsed.rest_whole]

/-- The operators of a well-shaped expression are operators that stand between operands. -/
theorem zero_lt_of_wellShaped {e : Expression (Leaf α)} (h : e.WellShaped Leaf.kind) :
    ∀ q ∈ e.precedence? Leaf.kind, 0 < q := by
  cases h with
  | binary hoperator =>
    rintro q ⟨⟩
    exact hoperator
  | _ => nofun

theorem nextPrecedence_lt_six (ts : List α) : nextPrecedence ts < 6 := by
  cases ts with
  | nil => exact Nat.succ_pos 5
  | cons t ts => exact binaryPrecedence_lt_six _

/-- The parser reads an expression from its tokens, at any level that its operators are above, and
goes on with what comes behind. -/
def ReadsBack (sentinel : α) (e : Expression (Leaf α)) : Prop :=
  ∀ level ≤ 6, (∀ q ∈ e.precedence? Leaf.kind, level < q) → ∀ ts, Stops e ts →
    expression sentinel level (e.parts ++ ts) = climb sentinel level e.whole ts

/-- An expression is all that is read if what comes behind does not bind more tightly than the
level. -/
theorem ReadsBack.expression_eq {sentinel : α} {e : Expression (Leaf α)}
    (h : ReadsBack sentinel e) {level : Nat} (hlevel : level ≤ 6)
    (hlt : ∀ q ∈ e.precedence? Leaf.kind, level < q) {ts : List α} (hstops : Stops e ts)
    (hnext : nextPrecedence ts ≤ level) :
    expression sentinel level (e.parts ++ ts) = e.whole := by
  rw [h level hlevel hlt ts hstops, climb_of_nextPrecedence_le hnext]

/-- The parser reads a canonical expression from its tokens. -/
theorem readsBack_of_wellShaped {e : Expression (Leaf α)} (h : e.WellShaped Leaf.kind)
    (hexact : ∀ leaf ∈ e.leaves, leaf.Exact) (sentinel : α) : ReadsBack sentinel e := by
  induction h with
  | literal hvalue =>
    intro level _ _ ts _
    obtain ⟨t, rfl, ht⟩ :=
      (List.forall_mem_singleton.mp hexact).exists_plain_of_fits hvalue (by decide)
    exact expression_of_operand (operand_literal ht)
  | identifier hname =>
    intro level _ _ ts hstops
    obtain ⟨t, rfl, ht⟩ :=
      (List.forall_mem_singleton.mp hexact).exists_plain_of_kind_eq hname (by decide)
    exact expression_of_operand (operand_identifier ht hstops.equals)
  | @assignment name equals value hname hequals hvalue ih =>
    intro level _ _ ts hstops
    obtain ⟨hnameExact, hexact⟩ := List.forall_mem_cons.mp hexact
    obtain ⟨hequalsExact, hvalueExact⟩ := List.forall_mem_cons.mp hexact
    obtain ⟨t, rfl, ht⟩ := hnameExact.exists_plain_of_kind_eq hname (by decide)
    have hnext : nextPrecedence ts = 0 := hstops.admits.eq_zero rfl
    have hequalsRead : equals? (equals.parts ++ (value.parts ++ ts)) = some equals.whole := by
      rw [equals?_parts_append hequalsExact (by rw [hequals]; decide)
        (kind_head?_parts_append_ne hvalue hvalueExact ts), if_pos hequals]
    -- An assignment ends at its right edge, so that no operator at all comes behind its value.
    have hvalueStops : Stops value ts :=
      ⟨⟨fun _ _ => hnext ▸ Nat.zero_le _, fun _ => hnext⟩, hstops.equals⟩
    have hvalueRead : expression sentinel 0 (value.parts ++ ts) = value.whole :=
      (ih hvalueExact).expression_eq (Nat.zero_le 6) (zero_lt_of_wellShaped hvalue) hvalueStops
        (Nat.le_of_eq hnext)
    refine expression_of_operand ?_
    rw [Expression.parts_assignment, List.append_assoc, List.append_assoc]
    exact operand_assignment ht hequalsRead hvalueRead
  | @parenthesized opening closing inner hopening hinner hclosing ih =>
    intro level _ _ ts _
    obtain ⟨hopeningExact, hexact⟩ := List.forall_mem_cons.mp hexact
    obtain ⟨hinnerExact, hclosingExact⟩ := List.forall_mem_append.mp hexact
    obtain ⟨t, rfl, ht⟩ := hopeningExact.exists_plain_of_kind_eq hopening (by decide)
    obtain ⟨u, rfl, hu⟩ :=
      (List.forall_mem_singleton.mp hclosingExact).exists_plain_of_fits hclosing (by decide)
    obtain ⟨hinnerStops, hnext⟩ := stops_of_closer (List.mem_append_left [.semicolon] hu) inner ts
    have hinnerRead : expression sentinel 0 (inner.parts ++ u :: ts) = inner.whole :=
      (ih hinnerExact).expression_eq (Nat.zero_le 6) (zero_lt_of_wellShaped hinner) hinnerStops
        (Nat.le_of_eq hnext)
    refine expression_of_operand ?_
    rw [Expression.parts_parenthesized, List.append_assoc, List.append_assoc]
    exact operand_parenthesized ht hu hinnerRead
  | @unary sign operand hsign hoperand hnone ih =>
    intro level hlevel _ ts hstops
    obtain ⟨hsignExact, hoperandExact⟩ := List.forall_mem_cons.mp hexact
    obtain ⟨t, us, hparts, hsignRead⟩ := operator_parts_append hsignExact
      (mem_operatorKinds_of_unaryPrecedence hsign)
      (kind_head?_parts_append_ne hoperand hoperandExact ts)
    have hsix := unaryPrecedence_eq_six hsign
    -- No operator that comes behind binds as tightly as a sign.
    have hoperandStops : Stops operand ts :=
      ⟨⟨by rw [hnone]; nofun, hstops.admits.eq_zero⟩, hstops.equals⟩
    have hoperandRead : expression sentinel (unaryPrecedence sign.kind) (operand.parts ++ ts) =
        operand.whole := by
      rw [hsix]
      exact (ih hoperandExact).expression_eq (Nat.le_refl 6) (by rw [hnone]; nofun) hoperandStops
        (Nat.le_of_lt (nextPrecedence_lt_six ts))
    refine expression_of_operand ?_
    rw [Expression.parts_unary, List.append_assoc, hparts]
    exact operand_unary hsignRead hsign (hsix ▸ hlevel) hparts hoperandRead
  | @binary left right sign hsign hleft hadmits hright hlast ihleft ihright =>
    intro level hlevel hlt ts hstops
    obtain ⟨hleftExact, hexact⟩ := List.forall_mem_append.mp hexact
    obtain ⟨hsignExact, hrightExact⟩ := List.forall_mem_cons.mp hexact
    have hmem := mem_operatorKinds_of_binaryPrecedence hsign
    have hhead := kind_head?_parts_append_ne hright hrightExact ts
    have hbinds : level < binaryPrecedence sign.kind := hlt _ rfl
    have hnext : nextPrecedence ts ≤ binaryPrecedence sign.kind := hstops.admits.le _ rfl
    -- Behind the left operand stands the operator, which the operand admits.
    have hleftStops : Stops left (sign.parts ++ (right.parts ++ ts)) := by
      refine ⟨?_, ?_⟩
      · rwa [nextPrecedence_parts_append hsignExact hmem hhead]
      · rw [equals?_parts_append hsignExact hmem hhead, if_neg]
        intro hequals
        rw [hequals] at hsign
        exact absurd hsign (Nat.lt_irrefl 0)
    -- What comes behind binds no more tightly than the operator, hence less than the right operand.
    have hrightStops : Stops right ts :=
      ⟨⟨fun q hq => Nat.le_trans hnext (Nat.le_of_lt (hlast q hq)), hstops.admits.eq_zero⟩,
        hstops.equals⟩
    have hrightRead : expression sentinel (binaryPrecedence sign.kind) (right.parts ++ ts) =
        right.whole :=
      (ihright hrightExact).expression_eq (Nat.le_of_lt (binaryPrecedence_lt_six _)) hlast
        hrightStops hnext
    obtain ⟨t, us, hparts, hsignRead⟩ := operator_parts_append hsignExact hmem hhead
    rw [Expression.parts_binary, List.append_assoc, List.append_assoc,
      ihleft hleftExact level hlevel
        (fun q hq => Nat.lt_of_lt_of_le hbinds (hadmits.le q hq)) _ hleftStops, hparts]
    exact climb_parts_append hparts hsignRead hbinds hrightRead

end Parser

end LosslessSyntax
