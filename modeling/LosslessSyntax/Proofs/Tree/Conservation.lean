import Mathlib.Data.List.TakeDrop
import LosslessSyntax.Proofs.Tree.Recorded
import LosslessSyntax.Token.Stream

/-!
# Conservation of tokens

The leaves of what the parser reads are made of the tokens at the front of the stream, each of them
once and in order, where the stream goes on with its sentinel without end. `Took` says this of a
number of tokens and a list of leaves; it is composed as the grammar is (`Took.append`), hence holds
of every reading (`took_of_reads`, `took_of_readsAll`) and of the whole program (`took_program`).

`Conserves` says the same of the tokens and the errors of a finished tree, without the leaves. That
it holds of every tree is `parse_conserves`: nothing of a stream is lost, repeated or moved, and the
errors are those of the missing tokens.
-/

namespace LosslessSyntax

variable {α : Type} [Readable α]

/-! ### Sound leaves -/

/-- A leaf is what it says: a token other than a missing one, a token of none of the kinds that were
expected, or tokens that spell an operator. -/
inductive Leaf.Sound : Leaf α → Prop
  | plain {token : α} (hkind : Readable.kind token ≠ .missingToken) : Sound (.plain token)
  | missing {expected : List TokenKind} {token : α} (hkind : Readable.kind token ∉ expected) :
      Sound (.missing expected token)
  | merged {operator : TokenKind} {first : α} {others : List α}
      (hspells : Parser.SpellsCompound operator (first :: others)) :
      Sound (.merged operator first others)

theorem Leaf.sound_expect (sentinel : α) {kinds : List TokenKind} (h : .missingToken ∉ kinds)
    (ts : List α) : (Parser.expect sentinel kinds ts).value.Sound := by
  simp only [Parser.expect]
  split
  · next hmem => exact .plain fun hkind => h (hkind ▸ hmem)
  · next hmem => exact .missing hmem

/-! ### Tokens taken from a stream -/

namespace Parser

/-- Some leaves are sound and made of the first tokens of a stream, as many as were taken. -/
structure Took (sentinel : α) (ts : List α) (taken : Nat) (leaves : List (Leaf α)) : Prop where
  parts_eq : leaves.flatMap Leaf.parts = ts.takeD taken sentinel
  sound : ∀ leaf ∈ leaves, leaf.Sound

omit [Readable α] in
private theorem takeD_add (m n : Nat) (ts : List α) (sentinel : α) :
    ts.takeD (m + n) sentinel = ts.takeD m sentinel ++ (ts.drop m).takeD n sentinel := by
  induction m generalizing ts with
  | zero => rw [Nat.zero_add, List.takeD_zero, List.nil_append, List.drop_zero]
  | succ m ih =>
    rw [Nat.add_right_comm, List.takeD_succ, List.takeD_succ, ih, List.cons_append,
      List.drop_tail]

omit [Readable α] in
/-- More tokens than a stream has are the stream and copies of its sentinel. -/
theorem takeD_eq_append_replicate {ts : List α} {n : Nat} (h : ts.length ≤ n) (sentinel : α) :
    ts.takeD n sentinel = ts ++ List.replicate (n - ts.length) sentinel := by
  obtain ⟨m, rfl⟩ := Nat.exists_eq_add_of_le h
  rw [takeD_add, List.takeD_eq_take _ (Nat.le_refl _), List.take_length, List.drop_length,
    List.takeD_nil, Nat.add_sub_cancel_left]

omit [Readable α] in
theorem mem_or_eq_of_mem_takeD {sentinel t : α} {ts : List α} {n : Nat}
    (h : t ∈ ts.takeD n sentinel) : t ∈ ts ∨ t = sentinel := by
  by_cases hn : n ≤ ts.length
  · rw [List.takeD_eq_take _ hn] at h
    exact .inl (List.mem_of_mem_take h)
  · rw [takeD_eq_append_replicate (Nat.le_of_not_le hn), List.mem_append] at h
    exact h.imp_right List.eq_of_mem_replicate

namespace Took

variable {sentinel : α} {ts us : List α} {m n : Nat} {leaves others : List (Leaf α)}

theorem nil : Took sentinel ts 0 [] :=
  ⟨rfl, nofun⟩

/-- Leaves that follow one another take tokens that follow one another. -/
theorem append (h : Took sentinel ts m leaves) (hothers : Took sentinel us n others)
    (hdrop : ts.drop m = us) : Took sentinel ts (m + n) (leaves ++ others) where
  parts_eq := by
    rw [List.flatMap_append, h.parts_eq, hothers.parts_eq, takeD_add, hdrop]
  sound leaf hleaf := (List.mem_append.mp hleaf).elim (h.sound leaf) (hothers.sound leaf)

theorem plain {t : α} (h : kind t ≠ .missingToken) (ts : List α) :
    Took sentinel (t :: ts) 1 [.plain t] :=
  ⟨rfl, List.forall_mem_singleton.mpr (.plain h)⟩

theorem expect (kinds : List TokenKind) (h : .missingToken ∉ kinds) (ts : List α) :
    Took sentinel ts 1 [(Parser.expect sentinel kinds ts).value] where
  parts_eq := by
    simp only [Parser.expect, List.flatMap_singleton, List.takeD_succ, List.takeD_zero,
      List.headD_eq_head?_getD]
    split <;> rfl
  sound := List.forall_mem_singleton.mpr (Leaf.sound_expect sentinel h ts)

theorem operator {t : α} {ts : List α} (h : (operator t ts).value.kind ≠ .missingToken) :
    Took sentinel (t :: ts) (operator t ts).taken [(operator t ts).value] := by
  rcases operator_cases t ts with hone | ⟨compound, others, rest, rfl, hspells, hmerged⟩
  · rw [hone] at h ⊢
    exact plain h ts
  -- The tokens behind the first come from the stream, so that no sentinel is among them.
  · rw [hmerged]
    refine ⟨?_, List.forall_mem_singleton.mpr (.merged hspells)⟩
    have hlength : (t :: others).length = 1 + others.length := Nat.add_comm _ _
    rw [List.flatMap_singleton, Leaf.parts, ← List.cons_append, List.takeD_left' hlength]

theorem equals {equals : Parsed α (Leaf α)} (h : equals? ts = some equals) :
    Took sentinel ts equals.taken [equals.value] := by
  obtain ⟨t, rest, rfl, hkind, rfl⟩ := equals?_eq_some h
  exact plain (by rw [hkind]; nofun) rest

end Took

private theorem kind_ne_missingToken_of_binaryPrecedence {kind : TokenKind} {level : Nat}
    (h : level < binaryPrecedence kind) : kind ≠ .missingToken := by
  rintro rfl
  exact absurd h (Nat.not_lt_zero level)

private theorem kind_ne_missingToken_of_unaryPrecedence {kind : TokenKind}
    (h : unaryPrecedence kind ≠ 0) : kind ≠ .missingToken := by
  rintro rfl
  exact h rfl

/-- A reading takes the tokens that its leaves are made of. -/
theorem took_of_reads {sentinel : α} {level : Nat} {ts : List α}
    {p : Parsed α (Expression (Leaf α))} (h : Reads sentinel level ts p) :
    Took sentinel ts p.taken p.value.leaves := by
  induction h with
  | @literal _ ts => exact Took.expect _ (by decide) ts
  | @identifier _ t ts ht => exact Took.plain (by rw [ht]; nofun) ts
  | @assignment _ t ts equals value ht hequals _ _ ih =>
    have hname : Took sentinel (t :: ts) 1 [.plain t] := Took.plain (by rw [ht]; nofun) ts
    exact (hname.append (Took.equals hequals) rfl).append ih List.drop_drop.symm
  | @parenthesized _ t ts inner ht _ _ ih =>
    have hopening : Took sentinel (t :: ts) 1 [.plain t] := Took.plain (by rw [ht]; nofun) ts
    have hclosing : Took sentinel (inner.rest ts) 1
        [(expect sentinel [.rightParen] (inner.rest ts)).value] := Took.expect _ (by decide) _
    have := (hopening.append ih rfl).append hclosing List.drop_drop.symm
    rwa [List.append_assoc] at this
  | @unary _ t ts operand hsign _ _ _ ih =>
    exact (Took.operator (kind_ne_missingToken_of_unaryPrecedence hsign)).append ih rfl
  | @binary _ ts rest t left right _ hrest hsign _ _ ihleft ihright =>
    have hoperator : Took sentinel (t :: rest) _ _ :=
      Took.operator (kind_ne_missingToken_of_binaryPrecedence hsign)
    -- What the operator is taken from is the rest that the left operand leaves.
    have := (ihleft.append hoperator hrest).append ihright (by rw [← List.drop_drop, ← hrest]; rfl)
    rwa [List.append_assoc] at this

theorem took_expression (sentinel : α) (level : Nat) (ts : List α) :
    Took sentinel ts (expression sentinel level ts).taken
      (expression sentinel level ts).value.leaves :=
  took_of_reads (reads_expression sentinel level ts)

private theorem took_expressionStatement (sentinel : α) (ts : List α) :
    Took sentinel ts (expressionStatement sentinel ts).taken
      (expressionStatement sentinel ts).value.leaves := by
  exact (took_expression sentinel 0 ts).append (Took.expect [.semicolon] (by decide) _) rfl

private theorem took_declaration {sentinel t : α} (ht : kind t = .identifier) (ts : List α) :
    Took sentinel (t :: ts) (declaration sentinel t ts).taken
      (declaration sentinel t ts).value.leaves := by
  have hsemicolon (us : List α) :
      Took sentinel us 1 [(expect sentinel [.semicolon] us).value] :=
    Took.expect [.semicolon] (by decide) us
  have htype : Took sentinel (t :: ts) 1 [.plain t] := Took.plain (by rw [ht]; nofun) ts
  have hname := htype.append (Took.expect [.identifier] (by decide) ts) rfl
  cases hequals : equals? (ts.drop 1) with
  | none =>
    rw [declaration_of_equals?_eq_none hequals]
    exact hname.append (hsemicolon _) rfl
  | some equals =>
    rw [declaration_of_equals?_eq_some hequals]
    let value := expression sentinel 0 (equals.rest (ts.drop 1))
    have hvalue : Took sentinel (equals.rest (ts.drop 1)) value.taken value.value.leaves :=
      took_expression sentinel 0 _
    have := ((hname.append (Took.equals hequals) rfl).append hvalue List.drop_drop.symm).append
      (hsemicolon (value.rest (equals.rest (ts.drop 1)))) (by
        rw [← List.drop_drop, ← List.drop_drop]
        rfl)
    rwa [List.append_assoc] at this

/-- A reading of statements takes the tokens that its leaves are made of. -/
theorem took_of_readsAll {sentinel : α} {closers : List TokenKind} {ts : List α}
    {ps : List (Parsed α (Statement (Leaf α)))} (h : ReadsAll sentinel closers ts ps) :
    Took sentinel ts (Parsed.total ps) (ps.flatMap fun p => p.value.leaves) := by
  induction h with
  | nil => exact Took.nil
  | closer => exact Took.nil
  | @block closers t ts body others _ hbrace _ _ ihbody ih =>
    have hopening : Took sentinel (t :: ts) 1 [.plain t] := Took.plain (by rw [hbrace]; nofun) ts
    have hclosing : Took sentinel (ts.drop (Parsed.total body)) 1
        [(expect sentinel [.rightCurlyBrace] (ts.drop (Parsed.total body))).value] :=
      Took.expect _ (by decide) _
    have hblock := (hopening.append ihbody rfl).append hclosing List.drop_drop.symm
    rw [List.append_assoc, List.singleton_append, ← leaves_blockOf] at hblock
    exact hblock.append ih rfl
  | @declaration closers t ts others _ hidentifier _ ih =>
    exact (took_declaration hidentifier ts).append ih rfl
  | @expression closers t ts others _ _ ih =>
    exact (took_expressionStatement sentinel (t :: ts)).append ih rfl

/-- The statements of a reading go on up to a closer or to the end of the stream. -/
theorem kind_mem_closers_of_readsAll {sentinel : α} {closers : List TokenKind} {ts : List α}
    {ps : List (Parsed α (Statement (Leaf α)))} (h : ReadsAll sentinel closers ts ps) :
    ∀ t ∈ (ts.drop (Parsed.total ps)).head?, kind t ∈ closers := by
  induction h with
  | nil => nofun
  | @closer closers t ts ht =>
    rintro u ⟨⟩
    exact ht
  | block _ _ _ _ _ ih | declaration _ _ _ ih | expression _ _ ih =>
    rwa [Parsed.total, ← List.drop_drop]

/-! ### Programs -/

/-- The number of tokens that the program of a stream takes. -/
def taken (sentinel : α) (ts : List α) : Nat :=
  (parsed sentinel ts).taken

theorem taken_eq (sentinel : α) (ts : List α) :
    taken sentinel ts = Parsed.total (statements sentinel [.endToken] ts) + 1 :=
  rfl

theorem took_program (sentinel : α) (ts : List α) :
    Took sentinel ts (taken sentinel ts) (program sentinel ts).leaves := by
  have hbody := took_of_readsAll (reads_statements sentinel [.endToken] ts)
  have hclosing : Took sentinel (ts.drop (Parsed.total (statements sentinel [.endToken] ts))) 1 _ :=
    Took.expect [.endToken] (by decide) _
  rw [program, parsed, Program.leaves, List.flatMap_map]
  exact hbody.append hclosing rfl

/-- A program takes all tokens of a stream in which no end of the input comes before the last one.
-/
theorem length_le_taken (sentinel : α) {ts : List α} (h : ∀ t ∈ ts.dropLast, kind t ≠ .endToken) :
    ts.length ≤ taken sentinel ts := by
  have hstop := kind_mem_closers_of_readsAll (reads_statements sentinel [.endToken] ts)
  rw [taken_eq]
  -- Otherwise the statements would end at an end of the input before the last token.
  generalize Parsed.total (statements sentinel [.endToken] ts) = total at hstop ⊢
  by_contra hlt
  have htotal : total < ts.dropLast.length := by
    rw [List.length_dropLast]
    omega
  have hhead : ts.dropLast[total] ∈ (ts.drop total).head? := by
    rw [List.head?_drop, List.getElem_dropLast]
    exact List.getElem?_eq_getElem _
  exact h _ (List.getElem_mem htotal) (List.mem_singleton.mp (hstop _ hhead))

/-- A program takes no more than the end of the input with which a stream begins. -/
theorem taken_of_kind_eq_endToken (sentinel : α) {t : α} (h : kind t = .endToken) (ts : List α) :
    taken sentinel (t :: ts) = 1 := by
  rw [taken_eq, statements, if_pos (h ▸ List.mem_singleton_self _), Parsed.total]

end Parser

/-! ### Conservation by a tree -/

/-- Some tokens of a stream, in order, are the tokens of a tree, each used once: unchanged, with its
kind changed to that of a missing token, or as a part of a compound operator. The errors are those
of the missing tokens, in order: each has the span of its token and the kind that was found, which
is not among the expected ones. -/
inductive Conserves : List Token → List Token → List ParseError → Prop
  | nil : Conserves [] [] []
  | unchanged {token : Token} {used tokens : List Token} {errors : List ParseError}
      (hkind : token.kind ≠ .missingToken) (h : Conserves used tokens errors) :
      Conserves (token :: used) (token :: tokens) errors
  | missing {token : Token} {expected : List TokenKind} {used tokens : List Token}
      {errors : List ParseError} (hkind : token.kind ∉ expected)
      (h : Conserves used tokens errors) :
      Conserves (token :: used) ({ token with kind := .missingToken } :: tokens)
        ({ expected := expected, found := token.kind, span := token.span } :: errors)
  | compound {operator : TokenKind} {text : String} {first last : Token} {others used : List Token}
      {tokens : List Token} {errors : List ParseError}
      (hspelling : ((first :: others).map Token.kind, operator) ∈ compoundOperators)
      (hlength : (first :: others).length = 2 ∨ (first :: others).length = 3)
      (htouch : (first :: others).IsChain fun a b => a.trailing = [] ∧ b.leading = [])
      (hlast : (first :: others).getLast? = some last) (htext : operator.text? = some text)
      (h : Conserves used tokens errors) :
      Conserves ((first :: others) ++ used)
        ({ kind := operator
           value := text
           span := ⟨first.span.start, text.utf8ByteSize⟩
           leading := first.leading
           trailing := last.trailing } :: tokens) errors

private theorem exists_text?_of_mem_compoundOperators {spelling : List TokenKind}
    {operator : TokenKind} (h : (spelling, operator) ∈ compoundOperators) :
    ∃ text, operator.text? = some text := by
  have hall : ∀ compound ∈ compoundOperators, compound.2.text?.isSome := by decide
  exact Option.isSome_iff_exists.mp (hall _ h)

private theorem ne_missingToken_of_mem_compoundOperators {spelling : List TokenKind}
    {operator : TokenKind} (h : (spelling, operator) ∈ compoundOperators) :
    operator ≠ .missingToken := by
  have hall : ∀ compound ∈ compoundOperators, compound.2 ≠ .missingToken := by decide
  exact hall _ h

/-- Sound leaves conserve the tokens that they are made of. -/
theorem conserves_of_sound {leaves : List (Leaf Token)} (h : ∀ leaf ∈ leaves, leaf.Sound) :
    Conserves (leaves.flatMap Leaf.parts) (leaves.map Leaf.token)
      (leaves.filterMap Leaf.error?) := by
  induction leaves with
  | nil => exact .nil
  | cons leaf leaves ih =>
    obtain ⟨hleaf, hleaves⟩ := List.forall_mem_cons.mp h
    cases hleaf with
    | plain hkind => exact .unchanged hkind (ih hleaves)
    | missing hkind => exact .missing hkind (ih hleaves)
    | @merged operator first others hspells =>
      obtain ⟨text, htext⟩ := exists_text?_of_mem_compoundOperators hspells.mem
      have htouch : (first :: others).IsChain fun a b => a.trailing = [] ∧ b.leading = [] :=
        hspells.chain.imp fun a b hab => by simpa [touches, Token.touches] using hab
      have := Conserves.compound hspells.mem hspells.length htouch
        List.getLast?_cons htext (ih hleaves)
      rw [List.filterMap_cons_none rfl]
      simpa [Leaf.token, Leaf.parts, htext] using this

/-- The errors are those of the missing tokens. -/
theorem Conserves.forall₂_missing {used tokens : List Token} {errors : List ParseError}
    (h : Conserves used tokens errors) :
    List.Forall₂ (fun token error => error.span = token.span ∧ error.found ∉ error.expected)
      (tokens.filter (·.kind = .missingToken)) errors := by
  induction h with
  | nil => exact .nil
  | unchanged hkind _ ih => rwa [List.filter_cons_of_neg (by simpa using hkind)]
  | missing hkind _ ih =>
    rw [List.filter_cons_of_pos (by simp)]
    exact .cons ⟨rfl, hkind⟩ ih
  | compound hspelling _ _ _ _ _ ih =>
    have := ne_missingToken_of_mem_compoundOperators hspelling
    rwa [List.filter_cons_of_neg (by simpa using this)]

/-- Errors say what their tokens are and stand where they do. -/
theorem Conserves.sublist_found {used tokens : List Token} {errors : List ParseError}
    (h : Conserves used tokens errors) :
    (errors.map fun error => (error.found, error.span)).Sublist
      (used.map fun token => (token.kind, token.span)) := by
  induction h with
  | nil => exact .slnil
  | unchanged _ _ ih => exact ih.cons _
  | missing _ _ ih => exact ih.cons_cons _
  | compound _ _ _ _ _ _ ih =>
    rw [List.map_append]
    exact ih.trans (List.sublist_append_right _ _)

/-- What stands behind a stream without end: its last token if that is an end of the input, else an
end of the input just after the last token and its trivia. -/
inductive StandsBehind : List Token → Token → Prop
  | empty : StandsBehind [] (.endAt 0)
  | last {body : List Token} {last : Token} (hkind : last.kind = .endToken) :
      StandsBehind (body ++ [last]) last
  | after {body : List Token} {last : Token} {span : Span} (hkind : last.kind ≠ .endToken)
      (hspan : last.fullSpan = .ok span) : StandsBehind (body ++ [last]) (.endAt span.stop)

theorem exists_of_bind_eq_ok {σ τ : Type} {x : Except Fault σ} {f : σ → Except Fault τ}
    {b : τ} (h : x >>= f = .ok b) : ∃ a, x = .ok a ∧ f a = .ok b := by
  cases x with
  | error fault => cases h
  | ok a => exact ⟨a, rfl, h⟩

theorem sentinelOf_append_singleton (body : List Token) (last : Token) (arithmetic : Arithmetic) :
    sentinelOf (body ++ [last]) arithmetic = (last.fullSpan arithmetic).map fun span =>
      if last.kind = .endToken then last else .endAt span.stop := by
  simp only [sentinelOf, List.getLast?_concat]
  cases hspan : last.fullSpan arithmetic with
  | error fault => rfl
  | ok span =>
    simp only [bind, Except.bind, Token.stopIn_of_fullSpan hspan]
    rfl

theorem standsBehind_of_sentinelOf {tokens : List Token} {sentinel : Token}
    (h : sentinelOf tokens = .ok sentinel) : StandsBehind tokens sentinel := by
  rcases List.eq_nil_or_concat tokens with rfl | ⟨body, last, rfl⟩
  · cases h
    exact .empty
  · rw [List.concat_eq_append, sentinelOf_append_singleton] at h
    rw [List.concat_eq_append]
    cases hspan : last.fullSpan with
    | error fault =>
      rw [hspan] at h
      cases h
    | ok span =>
      rw [hspan] at h
      obtain rfl := Except.ok.inj h
      split
      · exact .last ‹_›
      · exact .after ‹_› hspan

/-- A tree is that of the program that the stream spells. -/
theorem exists_program_of_parse {tokens : List Token} {tree : SyntaxTree}
    (h : parse tokens = .ok tree) :
    ∃ sentinel, sentinelOf tokens = .ok sentinel ∧
      tree = (Parser.program sentinel tokens).tree := by
  obtain ⟨sentinel, hsentinel, htree⟩ := exists_of_bind_eq_ok h
  exact ⟨sentinel, hsentinel, (Except.ok.inj htree).symm.trans (tree_parsed sentinel tokens)⟩

theorem parse_of_sentinelOf {tokens : List Token} {sentinel : Token} {arithmetic : Arithmetic}
    (h : sentinelOf tokens arithmetic = .ok sentinel) :
    parse tokens arithmetic = .ok (Parser.program sentinel tokens).tree := by
  rw [parse, h, ← tree_parsed]
  rfl

/-- The tokens of a tree are those of the leaves of its program. -/
theorem tokens_tree (p : Parser.Program Token) : p.tree.tokens = p.leaves.map Leaf.token := by
  rw [SyntaxTree.tokens, Parser.Program.tree, Parser.Program.leaves, List.map_append,
    List.map_flatMap, List.flatMap_map]
  simp only [Statement.leaves_map, List.map_singleton]

/-- The tree of a program conserves the tokens that the program takes. -/
theorem conserves_tree (sentinel : Token) (tokens : List Token) :
    Conserves (tokens.takeD (Parser.taken sentinel tokens) sentinel)
      (Parser.program sentinel tokens).tree.tokens
      (Parser.program sentinel tokens).tree.diagnostics := by
  have htook := Parser.took_program sentinel tokens
  rw [← htook.parts_eq, tokens_tree]
  exact conserves_of_sound htook.sound

/-- **Conservation of tokens.** Whatever the kinds of a stream are, let it go on without end with
what stands behind it. The tokens of its tree, in order, use up a front part of this: each token is
used once and in its place, and becomes itself, a missing token, or with one or two tokens that it
touches a compound operator. The front part covers the stream where no end of the input comes before
the last token. The errors of the tree are those of its missing tokens, one each and in the same
order. -/
theorem parse_conserves {tokens : List Token} {tree : SyntaxTree} (h : parse tokens = .ok tree) :
    ∃ sentinel taken, StandsBehind tokens sentinel ∧
      Conserves (tokens.takeD taken sentinel) tree.tokens tree.diagnostics ∧
      ((∀ token ∈ tokens.dropLast, token.kind ≠ .endToken) →
        tokens <+: tokens.takeD taken sentinel) ∧
      List.Forall₂ (fun token error => error.span = token.span ∧ error.found ∉ error.expected)
        (tree.tokens.filter (·.kind = .missingToken)) tree.diagnostics := by
  obtain ⟨sentinel, hsentinel, rfl⟩ := exists_program_of_parse h
  have hconserves := conserves_tree sentinel tokens
  refine ⟨sentinel, Parser.taken sentinel tokens, standsBehind_of_sentinelOf hsentinel,
    hconserves, fun hend => ?_, hconserves.forall₂_missing⟩
  rw [Parser.takeD_eq_append_replicate (Parser.length_le_taken sentinel hend)]
  exact List.prefix_append _ _

/-- An equality without its right operand, in which the operator comes in two tokens. -/
def unfinishedEquality : List Token :=
  [{ kind := .identifier, value := "a", span := ⟨0, 1⟩ },
    { kind := .equals, value := "=", span := ⟨1, 1⟩ },
    { kind := .equals, value := "=", span := ⟨2, 1⟩ }, .endAt 3]

theorem parse_conserves_unfinishedEquality :
    ∃ tree, parse unfinishedEquality = .ok tree ∧ ∃ sentinel taken,
      StandsBehind unfinishedEquality sentinel ∧
      Conserves (unfinishedEquality.takeD taken sentinel) tree.tokens tree.diagnostics ∧
      ((∀ token ∈ unfinishedEquality.dropLast, token.kind ≠ .endToken) →
        unfinishedEquality <+: unfinishedEquality.takeD taken sentinel) ∧
      List.Forall₂ (fun token error => error.span = token.span ∧ error.found ∉ error.expected)
        (tree.tokens.filter (·.kind = .missingToken)) tree.diagnostics := by
  have hsentinel : sentinelOf unfinishedEquality = .ok (.endAt 3) := rfl
  exact ⟨_, parse_of_sentinelOf hsentinel, parse_conserves (parse_of_sentinelOf hsentinel)⟩

end LosslessSyntax
