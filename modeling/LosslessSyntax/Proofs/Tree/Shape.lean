import LosslessSyntax.Proofs.Tree.Operator
import LosslessSyntax.Proofs.Tree.Reading

/-!
# The shape of trees

`Expression.WellShaped` and `Statement.WellShaped` are the grammar as a property of trees: which
kinds may stand at which place, and how operators group. A left operand binds as tightly as the
operator behind it and does not end in an assignment, a right operand binds more tightly, and the
operand of a sign is no operation between two operands. At some places a missing token may stand for
what had to come there; a tree without missing tokens is built as the grammar demands.

Whatever the stream is, what the parser answers is well shaped (`wellShaped_expression`,
`wellShaped_of_readsAll`). What the induction carries besides is where an expression stops: an
operator that comes after it would not have left it as it is (`Expression.Admits`).
-/

namespace LosslessSyntax

variable {τ : Type} (kindOf : τ → TokenKind)

/-- What may stand where a token of some kinds has to come: one of these, or a missing token. -/
def Fits (kinds : List TokenKind) (leaf : τ) : Prop :=
  kindOf leaf ∈ kinds ∨ kindOf leaf = .missingToken

/-! ### Well-shaped trees -/

namespace Expression

/-- How tightly the outermost operator of an expression binds, if it stands between operands. -/
def precedence? : Expression τ → Option Nat
  | binary _ operator _ => some (binaryPrecedence (kindOf operator))
  | _ => none

/-- Whether an assignment is at the right edge of an expression, parentheses apart. -/
def endsInAssignment : Expression τ → Bool
  | assignment _ _ _ => true
  | binary _ _ right => right.endsInAssignment
  | unary _ operand => operand.endsInAssignment
  | _ => false

/-- An operator of a precedence can come after an expression and take all of it as its left operand;
precedence zero is that of no operator at all. -/
structure Admits (e : Expression τ) (precedence : Nat) : Prop where
  le : ∀ q ∈ e.precedence? kindOf, precedence ≤ q
  eq_zero : e.endsInAssignment = true → precedence = 0

/-- An expression that is built as the grammar demands, missing tokens apart. -/
inductive WellShaped : Expression τ → Prop
  | literal {value : τ} (hvalue : Fits kindOf literalKinds value) : WellShaped (.literal value)
  | identifier {name : τ} (hname : kindOf name = .identifier) : WellShaped (.identifier name)
  | assignment {name equals : τ} {value : Expression τ} (hname : kindOf name = .identifier)
      (hequals : kindOf equals = .equals) (hvalue : WellShaped value) :
      WellShaped (.assignment name equals value)
  | binary {left right : Expression τ} {operator : τ}
      (hoperator : 0 < binaryPrecedence (kindOf operator)) (hleft : WellShaped left)
      (hadmits : left.Admits kindOf (binaryPrecedence (kindOf operator)))
      (hright : WellShaped right)
      (hlt : ∀ q ∈ right.precedence? kindOf, binaryPrecedence (kindOf operator) < q) :
      WellShaped (.binary left operator right)
  | unary {operator : τ} {operand : Expression τ}
      (hoperator : unaryPrecedence (kindOf operator) ≠ 0) (hoperand : WellShaped operand)
      (hnone : operand.precedence? kindOf = none) : WellShaped (.unary operator operand)
  | parenthesized {opening closing : τ} {inner : Expression τ}
      (hopening : kindOf opening = .leftParen) (hinner : WellShaped inner)
      (hclosing : Fits kindOf [.rightParen] closing) :
      WellShaped (.parenthesized opening inner closing)

end Expression

/-- A statement that is built as the grammar demands, missing tokens apart. -/
inductive Statement.WellShaped : Statement τ → Prop
  | expression {value : Expression τ} {semicolon : τ} (hvalue : value.WellShaped kindOf)
      (hsemicolon : Fits kindOf [.semicolon] semicolon) : WellShaped (.expression value semicolon)
  | block {opening closing : τ} {body : List (Statement τ)}
      (hopening : kindOf opening = .leftCurlyBrace) (hbody : ∀ s ∈ body, WellShaped s)
      (hclosing : Fits kindOf [.rightCurlyBrace] closing) :
      WellShaped (.block opening body closing)
  | declaration {type name semicolon : τ} (htype : kindOf type = .identifier)
      (hname : Fits kindOf [.identifier] name) (hsemicolon : Fits kindOf [.semicolon] semicolon) :
      WellShaped (.declaration type name semicolon)
  | initialization {type name equals semicolon : τ} {value : Expression τ}
      (htype : kindOf type = .identifier) (hname : Fits kindOf [.identifier] name)
      (hequals : kindOf equals = .equals) (hvalue : value.WellShaped kindOf)
      (hsemicolon : Fits kindOf [.semicolon] semicolon) :
      WellShaped (.initialization type name equals value semicolon)

/-! ### The kinds of leaves -/

/-- The kinds that a grammar puts at the leaves of its trees. -/
def leafKinds : List TokenKind :=
  literalKinds ++ [.identifier, .equals, .semicolon, .leftParen, .rightParen, .leftCurlyBrace,
    .rightCurlyBrace, .plus, .minus, .exclamationMark, .asterisk, .forwardSlash, .equalsEquals,
    .exclamationEquals, .ampersandAmpersand, .verticalBarVerticalBar]

theorem mem_leafKinds_of_unaryPrecedence {kind : TokenKind} (h : unaryPrecedence kind ≠ 0) :
    kind ∈ leafKinds := by
  revert h
  cases kind <;> decide

theorem mem_leafKinds_of_binaryPrecedence {kind : TokenKind} (h : 0 < binaryPrecedence kind) :
    kind ∈ leafKinds := by
  revert h
  cases kind <;> decide

section

variable {kindOf}

theorem Fits.mono {kinds kinds' : List TokenKind} {leaf : τ} (h : Fits kindOf kinds leaf)
    (hsubset : kinds ⊆ kinds') : Fits kindOf kinds' leaf :=
  h.imp (fun hmem => hsubset hmem) id

theorem Fits.of_kind_eq {kind : TokenKind} {leaf : τ} (h : kindOf leaf = kind)
    {kinds : List TokenKind} (hkind : kind ∈ kinds) : Fits kindOf kinds leaf :=
  .inl (h ▸ hkind)

/-- The leaves of a well-shaped expression are of the kinds of the grammar, or missing. -/
theorem Expression.WellShaped.fits {e : Expression τ} (h : e.WellShaped kindOf) :
    ∀ leaf ∈ e.leaves, Fits kindOf leafKinds leaf := by
  induction h with
  | literal hvalue => exact List.forall_mem_singleton.mpr (hvalue.mono (by decide))
  | identifier hname => exact List.forall_mem_singleton.mpr (.of_kind_eq hname (by decide))
  | assignment hname hequals _ ih =>
    exact List.forall_mem_cons.mpr ⟨.of_kind_eq hname (by decide),
      List.forall_mem_cons.mpr ⟨.of_kind_eq hequals (by decide), ih⟩⟩
  | binary hoperator _ _ _ _ ihleft ihright =>
    exact List.forall_mem_append.mpr ⟨ihleft,
      List.forall_mem_cons.mpr ⟨.inl (mem_leafKinds_of_binaryPrecedence hoperator), ihright⟩⟩
  | unary hoperator _ _ ih =>
    exact List.forall_mem_cons.mpr ⟨.inl (mem_leafKinds_of_unaryPrecedence hoperator), ih⟩
  | parenthesized hopening _ hclosing ih =>
    exact List.forall_mem_cons.mpr ⟨.of_kind_eq hopening (by decide),
      List.forall_mem_append.mpr ⟨ih, List.forall_mem_singleton.mpr (hclosing.mono (by decide))⟩⟩

/-- The leaves of a well-shaped statement are of the kinds of the grammar, or missing. -/
theorem Statement.WellShaped.fits {s : Statement τ} (h : s.WellShaped kindOf) :
    ∀ leaf ∈ s.leaves, Fits kindOf leafKinds leaf := by
  induction h with
  | expression hvalue hsemicolon =>
    exact List.forall_mem_append.mpr
      ⟨hvalue.fits, List.forall_mem_singleton.mpr (hsemicolon.mono (by decide))⟩
  | block hopening _ hclosing ih =>
    rw [Statement.leaves, Statement.leavesOfAll_eq_flatMap]
    refine List.forall_mem_cons.mpr ⟨.of_kind_eq hopening (by decide),
      List.forall_mem_append.mpr ⟨fun leaf hleaf => ?_, ?_⟩⟩
    · obtain ⟨s, hs, hleaf⟩ := List.mem_flatMap.mp hleaf
      exact ih s hs leaf hleaf
    · exact List.forall_mem_singleton.mpr (hclosing.mono (by decide))
  | declaration htype hname hsemicolon =>
    exact List.forall_mem_cons.mpr ⟨.of_kind_eq htype (by decide),
      List.forall_mem_cons.mpr ⟨hname.mono (by decide),
        List.forall_mem_singleton.mpr (hsemicolon.mono (by decide))⟩⟩
  | initialization htype hname hequals hvalue hsemicolon =>
    exact List.forall_mem_cons.mpr ⟨.of_kind_eq htype (by decide),
      List.forall_mem_cons.mpr ⟨hname.mono (by decide),
        List.forall_mem_cons.mpr ⟨.of_kind_eq hequals (by decide),
          List.forall_mem_append.mpr ⟨hvalue.fits,
            List.forall_mem_singleton.mpr (hsemicolon.mono (by decide))⟩⟩⟩⟩

/-- No leaf of a well-shaped statement is an end of the input. -/
theorem Statement.WellShaped.kind_ne_endToken {s : Statement τ} (h : s.WellShaped kindOf) :
    ∀ leaf ∈ s.leaves, kindOf leaf ≠ .endToken := by
  intro leaf hleaf hend
  rcases h.fits leaf hleaf with hmem | hmissing
  · rw [hend] at hmem
    exact absurd hmem (by decide)
  · exact nomatch hend.symm.trans hmissing

end

/-! ### Trees with other leaves -/

section

variable {kindOf} {υ : Type} {kindOf' : υ → TokenKind} {f : τ → υ}

theorem Fits.map (hf : ∀ leaf, kindOf' (f leaf) = kindOf leaf) {kinds : List TokenKind} {leaf : τ}
    (h : Fits kindOf kinds leaf) : Fits kindOf' kinds (f leaf) := by
  rwa [Fits, hf]

namespace Expression

theorem precedence?_map (hf : ∀ leaf, kindOf' (f leaf) = kindOf leaf) (e : Expression τ) :
    (e.map f).precedence? kindOf' = e.precedence? kindOf := by
  cases e with
  | binary left operator right => rw [map, precedence?, hf, precedence?]
  | _ => rfl

theorem endsInAssignment_map (f : τ → υ) (e : Expression τ) :
    (e.map f).endsInAssignment = e.endsInAssignment := by
  induction e with
  | binary _ _ _ _ ih => exact ih
  | unary _ _ ih => exact ih
  | _ => rfl

/-- The shape of an expression depends on the kinds of its leaves only. -/
theorem WellShaped.map (hf : ∀ leaf, kindOf' (f leaf) = kindOf leaf) {e : Expression τ}
    (h : e.WellShaped kindOf) : (e.map f).WellShaped kindOf' := by
  induction h with
  | literal hvalue => exact .literal (hvalue.map hf)
  | identifier hname => exact .identifier ((hf _).trans hname)
  | assignment hname hequals _ ih =>
    exact .assignment ((hf _).trans hname) ((hf _).trans hequals) ih
  | @binary left right operator hoperator _ hadmits _ hlt ihleft ihright =>
    refine .binary ?_ ihleft ⟨?_, ?_⟩ ihright ?_
    · rwa [hf]
    · rw [precedence?_map hf, hf]
      exact hadmits.le
    · rw [endsInAssignment_map, hf]
      exact hadmits.eq_zero
    · rw [precedence?_map hf, hf]
      exact hlt
  | unary hoperator _ hnone ih =>
    refine .unary ?_ ih ?_
    · rwa [hf]
    · rw [precedence?_map hf, hnone]
  | parenthesized hopening _ hclosing ih =>
    exact .parenthesized ((hf _).trans hopening) ih (hclosing.map hf)

end Expression

/-- The shape of a statement depends on the kinds of its leaves only. -/
theorem Statement.WellShaped.map (hf : ∀ leaf, kindOf' (f leaf) = kindOf leaf) {s : Statement τ}
    (h : s.WellShaped kindOf) : (s.map f).WellShaped kindOf' := by
  induction h with
  | expression hvalue hsemicolon => exact .expression (hvalue.map hf) (hsemicolon.map hf)
  | block hopening _ hclosing ih =>
    rw [Statement.map, Statement.mapAll_eq_map]
    refine .block ((hf _).trans hopening) (List.forall_mem_map.mpr ih) (hclosing.map hf)
  | declaration htype hname hsemicolon =>
    exact .declaration ((hf _).trans htype) (hname.map hf) (hsemicolon.map hf)
  | initialization htype hname hequals hvalue hsemicolon =>
    exact .initialization ((hf _).trans htype) (hname.map hf) ((hf _).trans hequals)
      (hvalue.map hf) (hsemicolon.map hf)

end

/-! ### What the parser answers is well shaped -/

theorem mem_of_unaryPrecedence_ne_zero {kind : TokenKind} (h : unaryPrecedence kind ≠ 0) :
    kind ∈ [.plus, .minus, .exclamationMark] := by
  revert h
  cases kind <;> decide

theorem unaryPrecedence_eq_six {kind : TokenKind} (h : unaryPrecedence kind ≠ 0) :
    unaryPrecedence kind = 6 := by
  have hall : ∀ k ∈ [TokenKind.plus, .minus, .exclamationMark], unaryPrecedence k = 6 := by decide
  exact hall kind (mem_of_unaryPrecedence_ne_zero h)

theorem binaryPrecedence_lt_six (kind : TokenKind) : binaryPrecedence kind < 6 := by
  cases kind <;> decide

/-- No operator between operands binds more tightly than a sign. -/
theorem Expression.precedence?_lt_six {e : Expression τ} :
    ∀ q ∈ e.precedence? kindOf, q < 6 := by
  cases e with
  | binary left operator right =>
    rintro q ⟨⟩
    exact binaryPrecedence_lt_six _
  | _ => nofun

namespace Parser

variable {α : Type} [Readable α]

theorem fits_expect (sentinel : α) (kinds : List TokenKind) (ts : List α) :
    Fits Leaf.kind kinds (expect sentinel kinds ts).value := by
  simp only [expect]
  split
  · next h => exact .inl h
  · exact .inr rfl

/-- What holds of a reading at a level: it is well shaped, its operators bind more tightly than the
level, and the operator that comes next would take all of it. -/
structure ReadsShaped (level : Nat) (ts : List α) (p : Parsed α (Expression (Leaf α))) : Prop where
  wellShaped : p.value.WellShaped Leaf.kind
  level_lt : ∀ q ∈ p.value.precedence? Leaf.kind, level < q
  admits : p.value.Admits Leaf.kind (nextPrecedence (p.rest ts))

theorem readsShaped_of_reads {sentinel : α} {level : Nat} {ts : List α}
    {p : Parsed α (Expression (Leaf α))} (h : Reads sentinel level ts p) :
    ReadsShaped level ts p := by
  induction h with
  | @literal _ ts => exact ⟨.literal (fits_expect sentinel literalKinds ts), nofun, nofun, nofun⟩
  | identifier ht => exact ⟨.identifier ht, nofun, nofun, nofun⟩
  | @assignment _ t ts equals value ht hequals _ hstop ih =>
    refine ⟨.assignment ht ?_ ih.wellShaped, nofun, nofun, fun _ => ?_⟩
    · obtain ⟨u, rest, -, hkind, rfl⟩ := equals?_eq_some hequals
      exact hkind
    · rwa [Parsed.rest_app, Parsed.rest_app, Parsed.rest_one]
  | @parenthesized _ t ts inner ht _ _ ih =>
    refine ⟨.parenthesized ht ih.wellShaped ?_, nofun, nofun, nofun⟩
    exact fits_expect sentinel [.rightParen] (inner.rest ts)
  | @unary _ t ts operand hsign _ _ _ ih =>
    -- An operation at the level of a sign would have to bind more tightly than the sign.
    have hnone : operand.value.precedence? Leaf.kind = none := by
      rw [Option.eq_none_iff_forall_not_mem]
      intro q hq
      have := ih.level_lt q hq
      have := Expression.precedence?_lt_six Leaf.kind q hq
      rw [unaryPrecedence_eq_six hsign] at *
      omega
    refine ⟨.unary hsign ih.wellShaped hnone, nofun, nofun, fun hends => ?_⟩
    rw [Parsed.rest_app, Parsed.rest_map]
    exact ih.admits.eq_zero hends
  | @binary level ts rest t left right _ hrest hsign _ hstop ihleft ihright =>
    -- The operator stands behind the left operand, which therefore admits it.
    have hnext : nextPrecedence (left.rest ts) = binaryPrecedence (operator t rest).value.kind := by
      rw [hrest, nextPrecedence]
    have hafter : (((left.map Expression.binary).app (operator t rest)).app right).rest ts =
        right.rest ((operator t rest).rest (t :: rest)) := by
      rw [Parsed.rest_app, Parsed.rest_app, Parsed.rest_map, hrest]
    refine ⟨.binary (Nat.zero_lt_of_lt hsign) ihleft.wellShaped (hnext ▸ ihleft.admits)
      ihright.wellShaped ihright.level_lt, ?_, ?_, fun hends => ?_⟩
    · rintro q ⟨⟩
      exact hsign
    · rintro q ⟨⟩
      rw [hafter]
      exact hstop
    · rw [hafter]
      exact ihright.admits.eq_zero hends

/-- An expression that the parser answers is well shaped. -/
theorem wellShaped_expression (sentinel : α) (level : Nat) (ts : List α) :
    (expression sentinel level ts).value.WellShaped Leaf.kind :=
  (readsShaped_of_reads (reads_expression sentinel level ts)).wellShaped

private theorem wellShaped_declaration {sentinel t : α} (ht : kind t = .identifier)
    (ts : List α) : (declaration sentinel t ts).value.WellShaped Leaf.kind := by
  have hname := fits_expect sentinel [.identifier] ts
  cases h : equals? (ts.drop 1) with
  | none =>
    rw [declaration_of_equals?_eq_none h]
    exact .declaration ht hname (fits_expect sentinel [.semicolon] _)
  | some equals =>
    rw [declaration_of_equals?_eq_some h]
    obtain ⟨u, rest, -, hkind, rfl⟩ := equals?_eq_some h
    exact .initialization ht hname hkind (wellShaped_expression sentinel 0 _)
      (fits_expect sentinel [.semicolon] _)

/-- The statements that the parser answers are well shaped. -/
theorem wellShaped_of_readsAll {sentinel : α} {closers : List TokenKind} {ts : List α}
    {ps : List (Parsed α (Statement (Leaf α)))} (h : ReadsAll sentinel closers ts ps) :
    ∀ s ∈ ps.map Parsed.value, s.WellShaped Leaf.kind := by
  induction h with
  | nil => nofun
  | closer => nofun
  | @block closers t ts body others _ hbrace _ _ ihbody ih =>
    refine List.forall_mem_cons.mpr ⟨.block hbrace ihbody ?_, ih⟩
    exact fits_expect sentinel [.rightCurlyBrace] _
  | @declaration closers t ts others _ hidentifier _ ih =>
    exact List.forall_mem_cons.mpr ⟨wellShaped_declaration hidentifier ts, ih⟩
  | @expression closers t ts others _ _ ih =>
    refine List.forall_mem_cons.mpr ⟨.expression (wellShaped_expression sentinel 0 _) ?_, ih⟩
    exact fits_expect sentinel [.semicolon] _

end Parser

end LosslessSyntax
