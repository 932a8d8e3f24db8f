import LosslessSyntax.Proofs.Diagnostic.Items
import LosslessSyntax.Tree.Dump

/-!
# The nodes of a text have spans

A node reaches from the start of its first token to the end of its last one, which is a span as long
as the tokens stand in order. Those of the tree of a text do (`ordered_tokens`): a tree uses the
tokens of the text one after the other, and an operator that is spelled by several of them starts
where the first does. So every tree of a text has a dump (`exists_dumpTree`).
-/

namespace LosslessSyntax

/-! ### Tokens in order -/

/-- From the first of some tokens in order to the last there is a span. -/
theorem Span.Ordered.exists_ofBounds {tokens : List Token}
    (h : Span.Ordered (tokens.map Token.span)) {first last : Token}
    (hfirst : tokens.head? = some first) (hlast : tokens.getLast? = some last) :
    ∃ span, Span.ofBounds first.span.start last.span.stop = .ok span := by
  obtain ⟨others, rfl⟩ := List.head?_eq_some_iff.mp hfirst
  have hle : first.span.start ≤ last.span.start := by
    rcases List.mem_cons.mp (List.mem_of_getLast? hlast) with rfl | hmem
    · exact Nat.le_refl _
    · exact List.rel_of_pairwise_cons h (List.mem_map_of_mem hmem)
  exact ⟨_, Span.ofBounds_of_le (Nat.le_trans hle (Nat.le_add_right _ _))⟩

/-- Some of the tokens in order are in order. -/
theorem Span.Ordered.of_sublist {tokens others : List Token}
    (h : Span.Ordered (tokens.map Token.span)) (hsublist : others.Sublist tokens) :
    Span.Ordered (others.map Token.span) :=
  List.Pairwise.sublist (hsublist.map _) h

theorem Expression.exists_span {e : Expression Token}
    (h : Span.Ordered (e.leaves.map Token.span)) : ∃ span, e.span = .ok span :=
  h.exists_ofBounds e.head?_leaves e.getLast?_leaves

theorem Statement.exists_span {s : Statement Token}
    (h : Span.Ordered (s.leaves.map Token.span)) : ∃ span, s.span = .ok span :=
  h.exists_ofBounds s.head?_leaves s.getLast?_leaves

/-! ### Outlines -/

/-- An assignment has an outline if its value has one. -/
theorem exists_assignmentOutline (depth : Nat) {name equals : Token} {value : Expression Token}
    (h : Span.Ordered ((Expression.assignment name equals value).leaves.map Token.span))
    (children : Outline) :
    ∃ outline, assignmentOutline depth name equals value children = .ok outline := by
  have hvalue : Span.Ordered (value.leaves.map Token.span) :=
    h.of_sublist ((List.sublist_cons_self _ _).cons _)
  obtain ⟨inner, hinner⟩ := Expression.exists_span hvalue
  obtain ⟨span, hspan⟩ := Expression.exists_span h
  have hstop : inner.stop = value.last.span.stop := Span.stop_of_ofBounds hinner
  rw [Expression.span, Expression.first, Expression.last, ← hstop] at hspan
  simp only [assignmentOutline, hinner, hspan, bind, Except.bind]
  exact ⟨_, rfl⟩

theorem Expression.exists_outline {e : Expression Token}
    (h : Span.Ordered (e.leaves.map Token.span)) (depth : Nat) :
    ∃ outline, e.outline depth = .ok outline := by
  induction e generalizing depth with
  | literal value => exact ⟨_, rfl⟩
  | identifier name => exact ⟨_, rfl⟩
  | assignment name equals value ih =>
    obtain ⟨inner, hinner⟩ := ih (h.of_sublist ((List.sublist_cons_self _ _).cons _)) (depth + 1)
    simp only [outline, hinner]
    exact exists_assignmentOutline depth h inner
  | binary left operator right ihleft ihright =>
    obtain ⟨span, hspan⟩ := exists_span h
    obtain ⟨outer, houter⟩ := ihleft (h.of_sublist (List.sublist_append_left _ _)) (depth + 1)
    have hright := h.of_sublist ((List.sublist_cons_self _ _).trans (List.sublist_append_right _ _))
    obtain ⟨inner, hinner⟩ := ihright hright (depth + 1)
    simp only [outline, hspan, houter, hinner]
    exact ⟨_, rfl⟩
  | unary operator operand ih =>
    obtain ⟨span, hspan⟩ := exists_span h
    obtain ⟨inner, hinner⟩ := ih (h.of_sublist (List.sublist_cons_self _ _)) (depth + 1)
    simp only [outline, hspan, hinner]
    exact ⟨_, rfl⟩
  | parenthesized opening inner closing ih =>
    obtain ⟨span, hspan⟩ := exists_span h
    obtain ⟨rows, hrows⟩ := ih (h.of_sublist ((List.sublist_append_left _ _).cons _)) (depth + 1)
    simp only [outline, hspan, hrows]
    exact ⟨_, rfl⟩

namespace Statement

mutual

theorem exists_outline (depth : Nat) : (s : Statement Token) →
    Span.Ordered (s.leaves.map Token.span) → ∃ outline, s.outline depth = .ok outline
  | expression value semicolon, h => by
    obtain ⟨span, hspan⟩ := exists_span h
    obtain ⟨rows, hrows⟩ := Expression.exists_outline
      (h.of_sublist (List.sublist_append_left _ _)) (depth + 1)
    simp only [outline, hspan, hrows]
    exact ⟨_, rfl⟩
  | block opening body closing, h => by
    obtain ⟨span, hspan⟩ := exists_span h
    obtain ⟨rows, hrows⟩ := exists_outlineOfAll (depth + 1) body
      (h.of_sublist ((List.sublist_append_left _ _).cons _))
    simp only [outline, hspan, hrows]
    exact ⟨_, rfl⟩
  | declaration type name semicolon, h => by
    obtain ⟨span, hspan⟩ := exists_span h
    simp only [outline, hspan]
    exact ⟨_, rfl⟩
  | initialization type name equals value semicolon, h => by
    obtain ⟨span, hspan⟩ := exists_span h
    have hassignment : Span.Ordered
        ((Expression.assignment name equals value).leaves.map Token.span) :=
      h.of_sublist ((((List.sublist_append_left _ _).cons_cons _).cons_cons _).cons _)
    obtain ⟨rows, hrows⟩ := Expression.exists_outline
      (hassignment.of_sublist ((List.sublist_cons_self _ _).cons _)) (depth + 2)
    obtain ⟨outer, houter⟩ := exists_assignmentOutline (depth + 1) hassignment rows
    simp only [outline, hspan, hrows, houter, bind, Except.bind]
    exact ⟨_, rfl⟩

theorem exists_outlineOfAll (depth : Nat) : (statements : List (Statement Token)) →
    Span.Ordered ((leavesOfAll statements).map Token.span) →
      ∃ outline, outlineOfAll depth statements = .ok outline
  | [], _ => ⟨_, rfl⟩
  | statement :: others, h => by
    obtain ⟨rows, hrows⟩ := exists_outline depth statement
      (h.of_sublist (List.sublist_append_left _ _))
    obtain ⟨below, hbelow⟩ := exists_outlineOfAll depth others
      (h.of_sublist (List.sublist_append_right _ _))
    simp only [outlineOfAll, hrows, hbelow]
    exact ⟨_, rfl⟩

end

end Statement

/-! ### The tree of a text -/

/-- The tokens of a tree start where tokens that it uses do, in order. -/
theorem Conserves.sublist_start {used tokens : List Token} {errors : List ParseError}
    (h : Conserves used tokens errors) :
    (tokens.map fun token => token.span.start).Sublist
      (used.map fun token => token.span.start) := by
  induction h with
  | nil => exact .slnil
  | unchanged _ _ ih => exact ih.cons_cons _
  | missing _ _ ih => exact ih.cons_cons _
  | compound _ _ _ _ _ _ ih =>
    rw [List.cons_append]
    refine .cons_cons _ ?_
    rw [List.map_append]
    exact ih.trans (List.sublist_append_right _ _)

/-- The tokens of the tree of a text stand in the order of their starts. -/
theorem ordered_tokens {text : String} {tree : SyntaxTree}
    (h : parse (tokenize text) = .ok tree) : Span.Ordered (tree.tokens.map Token.span) := by
  obtain ⟨sentinel, hkind, -, -, hlast, hparse⟩ := exists_program_tokenize text
  obtain rfl := Except.ok.inj (h.symm.trans hparse)
  have hused : (((tokenize text).takeD (Parser.taken sentinel (tokenize text)) sentinel).map
      fun token => token.span.start).Pairwise (· ≤ ·) := by
    refine List.pairwise_map.mpr ((increasing_takeD hkind hlast _).imp_of_mem fun ha hb hab => ?_)
    rcases hab with hlt | ⟨hend, hend'⟩
    · exact Nat.le_of_lt hlt
    · rw [span_of_kind_eq_endToken (mem_tokenize_of_mem_takeD hlast ha) hend,
        span_of_kind_eq_endToken (mem_tokenize_of_mem_takeD hlast hb) hend']
  have hstarts := hused.sublist (conserves_tree sentinel (tokenize text)).sublist_start
  exact List.pairwise_map.mpr (List.pairwise_map.mp hstarts)

/-- The tree of a text has a dump. -/
theorem exists_dumpTree {text : String} {tree : SyntaxTree}
    (h : parse (tokenize text) = .ok tree) : ∃ dump, dumpTree tree = .ok dump := by
  have hordered := (ordered_tokens h).of_sublist (List.sublist_append_left _ _)
  rw [← Statement.leavesOfAll_eq_flatMap] at hordered
  obtain ⟨rows, hrows⟩ := Statement.exists_outlineOfAll 0 tree.statements hordered
  simp only [dumpTree, hrows]
  exact ⟨_, rfl⟩

end LosslessSyntax
