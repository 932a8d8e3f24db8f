import LosslessSyntax.Proofs.Tree.Derivation

/-!
# Acceptance

A stream of tokens is parsed without errors if and only if it spells a list of canonical statements,
and then these statements are the tree (`parse_diagnostics_eq_nil_iff`).

In one direction, what the parser answers is always well shaped; without errors no leaf is missing,
so that the statements are canonical, and they end where the input does
(`canonical_of_forall_exact`). In the other direction the parser reads the statements one by one
from their tokens (`readsBackAt_of_wellShaped`, `statements_append`). How a statement is read is
decided by its first two tokens, so it has to be seen that an expression which begins with an
identifier goes on with something else (`exists_divides_of_parts_append`).
-/

namespace LosslessSyntax

namespace Parser

variable {α : Type} [Readable α]

/-! ### The first two tokens of a statement -/

/-- A token that is neither an identifier nor blank. -/
def Divides (t : α) : Prop :=
  kind t ≠ .identifier ∧ (kind t).isTrivia = false

theorem significantKind_of_isTrivia_eq_false {t : α} (h : (kind t).isTrivia = false)
    (sentinel : α) (ts : List α) : significantKind sentinel (t :: ts) = kind t := by
  rw [significantKind, List.find?_cons_of_pos (by rw [h]; rfl), Option.getD_some]

/-- Operators begin with tokens that divide. -/
theorem exists_divides_of_mem_operatorKinds {leaf : Leaf α} (hexact : leaf.Exact)
    (hkind : leaf.kind ∈ operatorKinds) : ∃ t ts, leaf.parts = t :: ts ∧ Divides t := by
  cases hexact with
  | @plain t _ =>
    have hall : ∀ k ∈ operatorKinds, k ≠ .identifier ∧ k.isTrivia = false := by decide
    exact ⟨t, [], rfl, hall _ hkind⟩
  | @merged compound t others hspells =>
    have hall : ∀ compound ∈ compoundOperators, ∀ k ∈ compound.1,
        k ≠ .identifier ∧ k.isTrivia = false := by decide
    exact ⟨t, others, rfl, hall _ hspells.mem _ (List.mem_cons_self)⟩

/-- The second token of an expression divides if the first is an identifier. -/
theorem exists_divides_of_parts_append {e : Expression (Leaf α)} (h : e.WellShaped Leaf.kind)
    (hexact : ∀ leaf ∈ e.leaves, leaf.Exact) {t u : α} {ts us : List α} (hu : Divides u)
    (hparts : e.parts ++ u :: us = t :: ts) (ht : kind t = .identifier) :
    ∃ v vs, ts = v :: vs ∧ Divides v := by
  induction h generalizing u us with
  | literal hvalue =>
    obtain ⟨w, rfl, hw⟩ :=
      (List.forall_mem_singleton.mp hexact).exists_plain_of_fits hvalue (by decide)
    obtain ⟨rfl, -⟩ := List.cons.inj hparts
    rw [ht] at hw
    exact absurd hw (by decide)
  | identifier hname =>
    obtain ⟨w, rfl, -⟩ :=
      (List.forall_mem_singleton.mp hexact).exists_plain_of_kind_eq hname (by decide)
    exact ⟨u, us, (List.cons.inj hparts).2.symm, hu⟩
  | @assignment name equals value hname hequals =>
    obtain ⟨hnameExact, hexact⟩ := List.forall_mem_cons.mp hexact
    obtain ⟨v, vs, hv, hdivides⟩ := exists_divides_of_mem_operatorKinds
      (List.forall_mem_cons.mp hexact).1 (by rw [hequals]; decide)
    obtain ⟨w, rfl, -⟩ := hnameExact.exists_plain_of_kind_eq hname (by decide)
    rw [Expression.parts_assignment, hv] at hparts
    exact ⟨v, _, (List.cons.inj hparts).2.symm, hdivides⟩
  | binary hoperator _ _ _ _ ih =>
    obtain ⟨hleft, hexact⟩ := List.forall_mem_append.mp hexact
    obtain ⟨v, vs, hv, hdivides⟩ := exists_divides_of_mem_operatorKinds
      (List.forall_mem_cons.mp hexact).1 (mem_operatorKinds_of_binaryPrecedence hoperator)
    -- The operator is what divides if the left operand is a single token.
    rw [Expression.parts_binary, hv, List.append_assoc] at hparts
    exact ih hleft hdivides hparts
  | @unary operator operand hoperator =>
    obtain ⟨w, rfl, hw⟩ := (List.forall_mem_cons.mp hexact).1.exists_plain
      (mem_of_unaryPrecedence_ne_zero hoperator) (by decide)
    obtain ⟨rfl, -⟩ := List.cons.inj hparts
    rw [ht] at hw
    exact absurd hw (by decide)
  | parenthesized hopening =>
    obtain ⟨w, rfl, hw⟩ :=
      (List.forall_mem_cons.mp hexact).1.exists_plain_of_kind_eq hopening (by decide)
    obtain ⟨rfl, -⟩ := List.cons.inj hparts
    exact nomatch ht.symm.trans hw

/-! ### Statements -/

/-- The tokens before which a list of statements ends. -/
def closerKinds : List TokenKind :=
  [.rightCurlyBrace, .endToken]

/-- The parser reads a statement from its tokens, whatever comes behind. -/
def ReadsBackAt (sentinel : α) (s : Statement (Leaf α)) : Prop :=
  ∀ ts, ∃ t us, s.parts ++ ts = t :: us ∧ kind t ∉ closerKinds ∧
    statement sentinel t us = s.whole

omit [Readable α] in
theorem total_map_whole (body : List (Statement (Leaf α))) :
    Parsed.total (body.map Statement.whole) = (body.flatMap Statement.parts).length := by
  induction body with
  | nil => rfl
  | cons s body ih =>
    rw [List.map_cons, Parsed.total, ih, List.flatMap_cons, List.length_append]
    rfl

omit [Readable α] in
theorem map_value_map_whole (body : List (Statement (Leaf α))) :
    (body.map Statement.whole).map Parsed.value = body := by
  rw [List.map_map]
  exact List.map_id body

omit [Readable α] in
theorem flatMap_errors_map_whole (body : List (Statement (Leaf α))) :
    (body.map Statement.whole).flatMap Parsed.errors = [] := by
  rw [List.flatMap_map]
  exact List.flatMap_eq_nil_iff.mpr fun _ _ => rfl

omit [Readable α] in
theorem total_append (ps qs : List (Parsed α (Statement (Leaf α)))) :
    Parsed.total (ps ++ qs) = Parsed.total ps + Parsed.total qs := by
  induction ps with
  | nil => rw [List.nil_append, Parsed.total, Nat.zero_add]
  | cons p ps ih => rw [List.cons_append, Parsed.total, Parsed.total, ih, Nat.add_assoc]

/-- The parser reads statements one by one, and goes on with what comes behind them. -/
theorem statements_flatMap_append {sentinel : α} {body : List (Statement (Leaf α))}
    (h : ∀ s ∈ body, ReadsBackAt sentinel s) {closers : List TokenKind}
    (hclosers : closers ⊆ closerKinds) (ts : List α) :
    statements sentinel closers (body.flatMap Statement.parts ++ ts) =
      body.map Statement.whole ++ statements sentinel closers ts := by
  induction body with
  | nil => rfl
  | cons s body ih =>
    obtain ⟨hs, hbody⟩ := List.forall_mem_cons.mp h
    obtain ⟨u, us, hparts, hu, hread⟩ := hs (body.flatMap Statement.parts ++ ts)
    rw [List.flatMap_cons, List.append_assoc, hparts, statements,
      if_neg fun hmem => hu (hclosers hmem), hread, ← hparts]
    simp only [Parsed.rest_whole, ih hbody, List.map_cons, List.cons_append]

/-- The parser reads statements one by one, up to a closer. -/
theorem statements_append {sentinel : α} {body : List (Statement (Leaf α))}
    (h : ∀ s ∈ body, ReadsBackAt sentinel s) {closers : List TokenKind}
    (hclosers : closers ⊆ closerKinds) {t : α} (ht : kind t ∈ closers) (ts : List α) :
    statements sentinel closers (body.flatMap Statement.parts ++ t :: ts) =
      body.map Statement.whole := by
  rw [statements_flatMap_append h hclosers, statements, if_pos ht, List.append_nil]

/-- A semicolon ends an expression. -/
private theorem expression_semicolon {value : Expression (Leaf α)}
    (h : value.WellShaped Leaf.kind) (hexact : ∀ leaf ∈ value.leaves, leaf.Exact) {t : α}
    (ht : kind t ∈ [.semicolon]) (sentinel : α) (ts : List α) :
    expression sentinel 0 (value.parts ++ t :: ts) = value.whole := by
  obtain ⟨hstops, hnext⟩ := stops_of_closer (List.mem_cons_of_mem _ ht) value ts
  exact (readsBack_of_wellShaped h hexact sentinel).expression_eq (Nat.zero_le 6)
    (zero_lt_of_wellShaped h) hstops (Nat.le_of_eq hnext)

private theorem divides_of_mem {t : α} (ht : kind t ∈ [.semicolon]) : Divides t := by
  rw [Divides, List.mem_singleton.mp ht]
  exact ⟨nofun, rfl⟩

private theorem expressionStatement_append {value : Expression (Leaf α)}
    (h : value.WellShaped Leaf.kind) (hexact : ∀ leaf ∈ value.leaves, leaf.Exact) {semicolon : α}
    (hsemicolon : kind semicolon ∈ [.semicolon]) (sentinel : α) (ts : List α) :
    expressionStatement sentinel (value.parts ++ semicolon :: ts) =
      (Statement.expression value (.plain semicolon)).whole := by
  rw [expressionStatement, expression_semicolon h hexact hsemicolon]
  simp only [Parsed.rest_whole, expect_of_mem hsemicolon]
  refine Parsed.eq_whole rfl rfl (Statement.parts_ne_nil _) ?_
  rw [Statement.parts_expression, List.length_append]
  rfl

private theorem statement_declaration {t name semicolon : α} (ht : kind t = .identifier)
    (hname : kind name ∈ [.identifier]) (hsemicolon : kind semicolon ∈ [.semicolon])
    (sentinel : α) (ts : List α) :
    statement sentinel t (name :: semicolon :: ts) =
      (Statement.declaration (.plain t) (.plain name) (.plain semicolon)).whole := by
  have hkind := List.mem_singleton.mp hname
  have hnext : significantKind sentinel (name :: semicolon :: ts) = .identifier := by
    rw [significantKind_of_isTrivia_eq_false (by rw [hkind]; rfl), hkind]
  have hequals : equals? ((name :: semicolon :: ts).drop 1) = none :=
    (stops_of_closer (List.mem_cons_of_mem _ hsemicolon) (.identifier (.plain name)) ts).1.equals
  rw [statement_of_identifier ht hnext, declaration_of_equals?_eq_none hequals,
    expect_of_mem hname, List.drop_succ_cons, List.drop_zero, expect_of_mem hsemicolon]
  exact Parsed.eq_whole rfl rfl (Statement.parts_ne_nil _) rfl

private theorem statement_initialization {t name semicolon : α} {equals : Leaf α}
    {value : Expression (Leaf α)} {sentinel : α} {ts : List α} (ht : kind t = .identifier)
    (hname : kind name ∈ [.identifier])
    (hequals : equals? (equals.parts ++ (value.parts ++ semicolon :: ts)) = some equals.whole)
    (hvalue : expression sentinel 0 (value.parts ++ semicolon :: ts) = value.whole)
    (hsemicolon : kind semicolon ∈ [.semicolon]) :
    statement sentinel t (name :: (equals.parts ++ (value.parts ++ semicolon :: ts))) =
      (Statement.initialization (.plain t) (.plain name) equals value
        (.plain semicolon)).whole := by
  have hkind := List.mem_singleton.mp hname
  have hnext (us : List α) : significantKind sentinel (name :: us) = .identifier := by
    rw [significantKind_of_isTrivia_eq_false (by rw [hkind]; rfl), hkind]
  have hequalsRead :
      equals? ((name :: (equals.parts ++ (value.parts ++ semicolon :: ts))).drop 1) =
        some equals.whole := hequals
  rw [statement_of_identifier ht (hnext _), declaration_of_equals?_eq_some hequalsRead,
    expect_of_mem hname]
  simp only [List.drop_succ_cons, List.drop_zero, Parsed.rest_whole, hvalue,
    expect_of_mem hsemicolon]
  refine Parsed.eq_whole rfl rfl (Statement.parts_ne_nil _) ?_
  rw [Statement.parts_initialization]
  simp [Parsed.app, Parsed.map, Parsed.one, Parsed.whole, Leaf.parts]
  omega

private theorem statement_block {t closing : α} {body : List (Statement (Leaf α))} {sentinel : α}
    (ht : kind t = .leftCurlyBrace) (hbody : ∀ s ∈ body, ReadsBackAt sentinel s)
    (hclosing : kind closing ∈ [.rightCurlyBrace]) (ts : List α) :
    statement sentinel t (body.flatMap Statement.parts ++ closing :: ts) =
      (Statement.block (.plain t) body (.plain closing)).whole := by
  have hmem : kind closing ∈ closerKinds := by
    rw [List.mem_singleton.mp hclosing]
    decide
  have hread := statements_append hbody (List.Subset.refl closerKinds) hmem ts
  rw [closerKinds] at hread
  rw [statement_of_leftCurlyBrace ht, hread]
  refine Parsed.eq_whole ?_ ?_ (Statement.parts_ne_nil _) ?_
  · simp only [blockOf, total_map_whole, map_value_map_whole, List.drop_left,
      expect_of_mem hclosing]
    rfl
  · simp only [blockOf, total_map_whole, flatMap_errors_map_whole, List.drop_left,
      expect_of_mem hclosing]
    rfl
  · rw [Statement.parts_block]
    simp [blockOf, total_map_whole, expect, Leaf.parts]
    omega

/-- The parser reads a canonical statement from its tokens. -/
theorem readsBackAt_of_wellShaped {s : Statement (Leaf α)} (h : s.WellShaped Leaf.kind)
    (hexact : ∀ leaf ∈ s.leaves, leaf.Exact) (sentinel : α) : ReadsBackAt sentinel s := by
  induction h with
  | @expression value semicolon hvalue hsemicolon =>
    intro ts
    obtain ⟨hvalueExact, hexact⟩ := List.forall_mem_append.mp hexact
    obtain ⟨u, rfl, hu⟩ :=
      (List.forall_mem_singleton.mp hexact).exists_plain_of_fits hsemicolon (by decide)
    obtain ⟨t, vs, hparts, ht⟩ := exists_parts_eq_cons hvalue hvalueExact
    have hall : ∀ k ∈ starters, k ≠ .leftCurlyBrace ∧ k ∉ closerKinds := by decide
    have happend : value.parts ++ u :: ts = t :: (vs ++ u :: ts) := by
      rw [hparts, List.cons_append]
    refine ⟨t, vs ++ u :: ts, ?_, (hall _ ht).2, ?_⟩
    · rw [Statement.parts_expression, List.append_assoc]
      exact happend
    · rw [statement_of_not (hall _ ht).1, ← happend,
        expressionStatement_append hvalue hvalueExact hu]
      -- It could be a declaration only if two identifiers came first.
      intro hidentifier
      obtain ⟨v, ws, hv, hdivides⟩ :=
        exists_divides_of_parts_append hvalue hvalueExact (divides_of_mem hu) happend hidentifier
      rw [hv, significantKind_of_isTrivia_eq_false hdivides.2]
      exact hdivides.1
  | @block opening closing body hopening hbody hclosing ih =>
    intro ts
    rw [Statement.leaves, Statement.leavesOfAll_eq_flatMap] at hexact
    obtain ⟨hopeningExact, hexact⟩ := List.forall_mem_cons.mp hexact
    obtain ⟨hbodyExact, hclosingExact⟩ := List.forall_mem_append.mp hexact
    obtain ⟨t, rfl, ht⟩ := hopeningExact.exists_plain_of_kind_eq hopening (by decide)
    obtain ⟨u, rfl, hu⟩ :=
      (List.forall_mem_singleton.mp hclosingExact).exists_plain_of_fits hclosing (by decide)
    have hread : ∀ s ∈ body, ReadsBackAt sentinel s := fun s hs =>
      ih s hs fun leaf hleaf => hbodyExact leaf (List.mem_flatMap.mpr ⟨s, hs, hleaf⟩)
    refine ⟨t, body.flatMap Statement.parts ++ u :: ts, ?_, by rw [ht]; decide,
      statement_block ht hread hu ts⟩
    rw [Statement.parts_block, List.append_assoc, List.append_assoc]
    rfl
  | @declaration type name semicolon htype hname hsemicolon =>
    intro ts
    obtain ⟨htypeExact, hexact⟩ := List.forall_mem_cons.mp hexact
    obtain ⟨hnameExact, hsemicolonExact⟩ := List.forall_mem_cons.mp hexact
    obtain ⟨t, rfl, ht⟩ := htypeExact.exists_plain_of_kind_eq htype (by decide)
    obtain ⟨n, rfl, hn⟩ := hnameExact.exists_plain_of_fits hname (by decide)
    obtain ⟨u, rfl, hu⟩ :=
      (List.forall_mem_singleton.mp hsemicolonExact).exists_plain_of_fits hsemicolon (by decide)
    exact ⟨t, n :: u :: ts, rfl, by rw [ht]; decide, statement_declaration ht hn hu sentinel ts⟩
  | @initialization type name equals semicolon value htype hname hequals hvalue hsemicolon =>
    intro ts
    obtain ⟨htypeExact, hexact⟩ := List.forall_mem_cons.mp hexact
    obtain ⟨hnameExact, hexact⟩ := List.forall_mem_cons.mp hexact
    obtain ⟨hequalsExact, hexact⟩ := List.forall_mem_cons.mp hexact
    obtain ⟨hvalueExact, hsemicolonExact⟩ := List.forall_mem_append.mp hexact
    obtain ⟨t, rfl, ht⟩ := htypeExact.exists_plain_of_kind_eq htype (by decide)
    obtain ⟨n, rfl, hn⟩ := hnameExact.exists_plain_of_fits hname (by decide)
    obtain ⟨u, rfl, hu⟩ :=
      (List.forall_mem_singleton.mp hsemicolonExact).exists_plain_of_fits hsemicolon (by decide)
    have hequalsRead : equals? (equals.parts ++ (value.parts ++ u :: ts)) = some equals.whole := by
      rw [equals?_parts_append hequalsExact (by rw [hequals]; decide)
        (kind_head?_parts_append_ne hvalue hvalueExact (u :: ts)), if_pos hequals]
    refine ⟨t, n :: (equals.parts ++ (value.parts ++ u :: ts)), ?_, by rw [ht]; decide,
      statement_initialization ht hn hequalsRead
        (expression_semicolon hvalue hvalueExact hu sentinel ts) hu⟩
    rw [Statement.parts_initialization]
    simp only [List.append_assoc]
    rfl

/-! ### Programs -/

/-- No leaf of canonical statements is missing. -/
theorem exact_of_mem_leaves {derivation : List (Statement (Leaf α))}
    (h : ∀ s ∈ derivation, s.Canonical) :
    ∀ leaf ∈ derivation.flatMap Statement.leaves, leaf.Exact := by
  intro leaf hleaf
  obtain ⟨s, hs, hleaf⟩ := List.mem_flatMap.mp hleaf
  exact (h s hs).exact leaf hleaf

/-- The parser reads canonical statements from their tokens, and then the program behind them. -/
theorem program_flatMap_append {derivation : List (Statement (Leaf α))}
    (h : ∀ s ∈ derivation, s.Canonical) (sentinel : α) (ts : List α) :
    program sentinel (derivation.flatMap Statement.parts ++ ts) =
      ⟨derivation ++ (program sentinel ts).statements, (program sentinel ts).closing⟩ := by
  have hread : ∀ s ∈ derivation, ReadsBackAt sentinel s := fun s hs =>
    readsBackAt_of_wellShaped (h s hs).wellShaped (h s hs).exact sentinel
  simp only [program, parsed,
    statements_flatMap_append hread (by decide : [.endToken] ⊆ closerKinds), List.map_append,
    map_value_map_whole, total_append, total_map_whole, List.drop_length_add_append]

/-- The parser reads a program from the tokens of canonical statements. -/
theorem program_append {derivation : List (Statement (Leaf α))} (h : ∀ s ∈ derivation, s.Canonical)
    (sentinel : α) {last : α} (hlast : kind last = .endToken) :
    program sentinel (derivation.flatMap Statement.parts ++ [last]) =
      ⟨derivation, .plain last⟩ := by
  have hmem : kind last ∈ [.endToken] := List.mem_singleton.mpr hlast
  have hend : program sentinel [last] = ⟨[], .plain last⟩ := by
    simp only [program, parsed]
    rw [statements, if_pos hmem, Parsed.total, List.drop_zero, expect_of_mem hmem]
    rfl
  rw [program_flatMap_append h, hend, List.append_nil]

private theorem kind_ne_endToken_of_mem_parts {leaf : Leaf α} (h : leaf.Exact)
    (hne : leaf.kind ≠ .endToken) : ∀ t ∈ leaf.parts, kind t ≠ .endToken := by
  cases h with
  | plain => exact List.forall_mem_singleton.mpr hne
  | @merged operator first others hspells =>
    have hall : ∀ compound ∈ compoundOperators, .endToken ∉ compound.1 := by decide
    intro t ht hend
    exact hall _ hspells.mem (hend ▸ List.mem_map_of_mem ht)

/-- A stream is divided in one way only at its first end of the input. -/
private theorem eq_of_append_cons_eq {front body ts us : List α} {closing last : α}
    (hfront : ∀ t ∈ front, kind t ≠ .endToken) (hbody : ∀ t ∈ body, kind t ≠ .endToken)
    (hclosing : kind closing = .endToken) (hlast : kind last = .endToken)
    (h : front ++ closing :: ts = body ++ last :: us) : front = body := by
  have htake := congrArg (List.takeWhile fun t => kind t ≠ .endToken) h
  rw [List.takeWhile_append_of_pos (by simpa using hfront),
    List.takeWhile_append_of_pos (by simpa using hbody),
    List.takeWhile_cons_of_neg (by simpa using hclosing),
    List.takeWhile_cons_of_neg (by simpa using hlast), List.append_nil, List.append_nil] at htake
  exact htake

/-- If no token is missing, the statements of a program are canonical and made of all tokens before
the end of the input. -/
theorem canonical_of_forall_exact {sentinel last : α} {body : List α}
    (hbody : ∀ t ∈ body, kind t ≠ .endToken) (hlast : kind last = .endToken)
    (hexact : ∀ leaf ∈ (program sentinel (body ++ [last])).leaves, leaf.Exact) :
    (∀ s ∈ (program sentinel (body ++ [last])).statements, s.Canonical) ∧
      (program sentinel (body ++ [last])).statements.flatMap Statement.parts = body := by
  have hshaped : ∀ s ∈ (program sentinel (body ++ [last])).statements, s.WellShaped Leaf.kind :=
    wellShaped_of_readsAll (reads_statements sentinel [.endToken] (body ++ [last]))
  have htook := (took_program sentinel (body ++ [last])).parts_eq
  have hfits : Fits Leaf.kind [.endToken] (program sentinel (body ++ [last])).closing :=
    fits_expect sentinel [.endToken] _
  have hlength : (body ++ [last]).length ≤ taken sentinel (body ++ [last]) :=
    length_le_taken sentinel (by rwa [List.dropLast_concat])
  generalize program sentinel (body ++ [last]) = p at hexact hshaped htook hfits ⊢
  obtain ⟨statements, closing⟩ := p
  obtain ⟨hstatements, hclosing⟩ := List.forall_mem_append.mp hexact
  have hleaves : ∀ s ∈ statements, ∀ leaf ∈ s.leaves, leaf.Exact := fun s hs leaf hleaf =>
    hstatements leaf (List.mem_flatMap.mpr ⟨s, hs, hleaf⟩)
  obtain ⟨t, rfl, ht⟩ :=
    (List.forall_mem_singleton.mp hclosing).exists_plain_of_fits hfits (by decide)
  refine ⟨fun s hs => ⟨hshaped s hs, hleaves s hs⟩, ?_⟩
  -- The leaves use up the stream and perhaps sentinels; both sides are cut at an end of the input.
  rw [takeD_eq_append_replicate hlength, Program.leaves, List.flatMap_append, List.flatMap_assoc,
    List.append_assoc] at htook
  refine eq_of_append_cons_eq ?_ hbody (List.mem_singleton.mp ht) hlast htook
  intro u hu
  obtain ⟨s, hs, hu⟩ := List.mem_flatMap.mp hu
  obtain ⟨leaf, hleaf, hu⟩ := List.mem_flatMap.mp hu
  exact kind_ne_endToken_of_mem_parts (hleaves s hs leaf hleaf)
    ((hshaped s hs).kind_ne_endToken leaf hleaf) u hu

end Parser

/-! ### Parsing without errors -/

theorem Leaf.Sound.exact_of_error?_eq_none {leaf : Leaf Token} (h : leaf.Sound)
    (herror : leaf.error? = none) : leaf.Exact := by
  cases h with
  | plain hkind => exact .plain hkind
  | missing _ => cases herror
  | merged hspells => exact .merged hspells

theorem Leaf.Exact.error?_eq_none {leaf : Leaf Token} (h : leaf.Exact) : leaf.error? = none := by
  cases h <;> rfl

/-- If a program has no errors, its statements are canonical and made of all tokens before the
end of the input. -/
theorem Parser.canonical_of_diagnostics_eq_nil {sentinel last : Token} {body : List Token}
    (hbody : ∀ token ∈ body, token.kind ≠ .endToken) (hlast : last.kind = .endToken)
    (h : (program sentinel (body ++ [last])).tree.diagnostics = []) :
    (∀ s ∈ (program sentinel (body ++ [last])).statements, s.Canonical) ∧
      (program sentinel (body ++ [last])).statements.flatMap Statement.parts = body := by
  have herror := List.filterMap_eq_nil_iff.mp h
  exact canonical_of_forall_exact hbody hlast fun leaf hleaf =>
    ((took_program sentinel _).sound leaf hleaf).exact_of_error?_eq_none (herror leaf hleaf)

/-- **The parser accepts its grammar.** Let an end of the input stand behind a stream and nowhere
else in it; that it has a full span is what parsing demands of it. The stream is parsed without
errors if and only if it is made of the tokens of some canonical statements, and then the tree is
these statements. -/
theorem parse_diagnostics_eq_nil_iff {body : List Token} {last : Token} {span : Span}
    (hbody : ∀ token ∈ body, token.kind ≠ .endToken) (hlast : last.kind = .endToken)
    (hspan : last.fullSpan = .ok span) :
    ∃ tree, parse (body ++ [last]) = .ok tree ∧
      (tree.diagnostics = [] ↔ ∃ derivation : List (Statement (Leaf Token)),
        (∀ s ∈ derivation, s.Canonical) ∧ derivation.flatMap Statement.parts = body) ∧
      ∀ derivation : List (Statement (Leaf Token)), (∀ s ∈ derivation, s.Canonical) →
        derivation.flatMap Statement.parts = body →
        tree.statements = derivation.map (Statement.map Leaf.token) ∧ tree.endOfFile = last := by
  have hsentinel : sentinelOf (body ++ [last]) = .ok last := by
    rw [sentinelOf_append_singleton, hspan]
    exact congrArg Except.ok (if_pos hlast)
  refine ⟨_, parse_of_sentinelOf hsentinel, ⟨fun hnil => ?_, ?_⟩, ?_⟩
  · have herror := List.filterMap_eq_nil_iff.mp hnil
    have hexact : ∀ leaf ∈ (Parser.program last (body ++ [last])).leaves, leaf.Exact :=
      fun leaf hleaf =>
        ((Parser.took_program last _).sound leaf hleaf).exact_of_error?_eq_none (herror leaf hleaf)
    exact ⟨_, Parser.canonical_of_forall_exact hbody hlast hexact⟩
  · rintro ⟨derivation, hcanonical, rfl⟩
    rw [Parser.program_append hcanonical last hlast]
    refine List.filterMap_eq_nil_iff.mpr (List.forall_mem_append.mpr ⟨fun leaf hleaf => ?_, ?_⟩)
    · obtain ⟨s, hs, hleaf⟩ := List.mem_flatMap.mp hleaf
      exact ((hcanonical s hs).exact leaf hleaf).error?_eq_none
    · exact List.forall_mem_singleton.mpr rfl
  · rintro derivation hcanonical rfl
    rw [Parser.program_append hcanonical last hlast]
    exact ⟨rfl, rfl⟩

/-- The tokens of an equality and a semicolon. -/
def equalityStatement : List Token :=
  [{ kind := .identifier, value := "a", span := ⟨0, 1⟩ },
    { kind := .equals, value := "=", span := ⟨1, 1⟩ },
    { kind := .equals, value := "=", span := ⟨2, 1⟩ },
    { kind := .integer, value := "1", span := ⟨3, 1⟩ },
    { kind := .semicolon, value := ";", span := ⟨4, 1⟩ }]

theorem parse_diagnostics_eq_nil_iff_equalityStatement :
    (∀ token ∈ equalityStatement, token.kind ≠ .endToken) ∧
      (Token.endAt 5).kind = .endToken ∧ (Token.endAt 5).fullSpan = .ok ⟨5, 0⟩ ∧
      ∃ tree, parse (equalityStatement ++ [.endAt 5]) = .ok tree ∧
        (tree.diagnostics = [] ↔ ∃ derivation : List (Statement (Leaf Token)),
          (∀ s ∈ derivation, s.Canonical) ∧
            derivation.flatMap Statement.parts = equalityStatement) ∧
        ∀ derivation : List (Statement (Leaf Token)), (∀ s ∈ derivation, s.Canonical) →
          derivation.flatMap Statement.parts = equalityStatement →
          tree.statements = derivation.map (Statement.map Leaf.token) ∧
            tree.endOfFile = .endAt 5 := by
  have hbody : ∀ token ∈ equalityStatement, token.kind ≠ .endToken := by decide
  exact ⟨hbody, rfl, rfl, parse_diagnostics_eq_nil_iff hbody rfl rfl⟩

end LosslessSyntax
