import Mathlib.Data.List.Perm.Basic
import LosslessSyntax.Diagnostic.Lexical
import LosslessSyntax.Proofs.Diagnostic.KeySort
import LosslessSyntax.Proofs.Tree.RoundTrip

/-!
# What errors are about

An error of a text is about an item of trivia or about a token, an error of its tree about a token.
Trivia and tokens of a text, the end of the input included, stand one behind the other, each with a
start of its own (`increasing_items`) and behind the end of the one before (`disjoint_items`). So
the errors of the text, which are sorted by their starts, come in the order of the items
(`lexicalErrors_tokenize`), and of two errors of the tree with one start both are about the end of
the input (`increasing_diagnostics`).
-/

namespace LosslessSyntax

/-! ### Items -/

/-- What an error can be about. -/
inductive Item
  | trivia (part : Trivia)
  | token (part : Token)
deriving DecidableEq, Repr

namespace Item

def span : Item → Span
  | trivia part => part.span
  | token part => part.span

/-- The error in an item: a block comment that is never closed, or a character that starts no token.
-/
def error? : Item → Option LexicalError
  | trivia part => part.error?
  | token part => part.ownError?

/-- The error in an item has the span of the item. -/
theorem span_of_error? {item : Item} {error : LexicalError} (h : item.error? = some error) :
    error.span = item.span := by
  cases item with
  | trivia part =>
    obtain ⟨-, h⟩ := Option.ite_none_right_eq_some.mp h
    rw [← Option.some.inj h, span]
  | token part =>
    obtain ⟨-, h⟩ := Option.ite_none_right_eq_some.mp h
    rw [← Option.some.inj h, span]

/-- A bad character is what a bad token is about. -/
theorem exists_of_error?_eq_unexpectedCharacter {item : Item} {c : Char} {span : Span}
    (h : item.error? = some ⟨.unexpectedCharacter c, span⟩) :
    ∃ part, item = .token part ∧ part.kind = .badToken ∧ part.span = span := by
  cases item with
  | trivia part => cases (Option.ite_none_right_eq_some.mp h).2
  | token part =>
    obtain ⟨hkind, h⟩ := Option.ite_none_right_eq_some.mp h
    exact ⟨part, rfl, hkind, congrArg LexicalError.span (Option.some.inj h)⟩

/-- What a token is about is a bad character. -/
theorem exists_of_error?_token {part : Token} {error : LexicalError}
    (h : (Item.token part).error? = some error) :
    part.kind = .badToken ∧ ∃ c, error = ⟨.unexpectedCharacter c, part.span⟩ := by
  obtain ⟨hkind, h⟩ := Option.ite_none_right_eq_some.mp h
  exact ⟨hkind, _, (Option.some.inj h).symm⟩

end Item

namespace Token

/-- What a token brings along, in the order of the text. -/
def items (token : Token) : List Item :=
  token.leading.map .trivia ++ .token token :: token.trailing.map .trivia

theorem mem_items (token : Token) : .token token ∈ token.items :=
  List.mem_append_right _ List.mem_cons_self

theorem mem_flatMap_items {tokens : List Token} {token : Token} :
    .token token ∈ tokens.flatMap items ↔ token ∈ tokens := by
  simp [items]

/-- Trivia stands as an item where it stands as a piece. -/
private theorem map_span_trivia (items : List Trivia) :
    (items.map Item.trivia).map Item.span = (items.map Trivia.piece).map Piece.span := by
  rw [List.map_map, List.map_map]
  rfl

/-- The items of a token other than the end of the input are its pieces. -/
theorem map_span_items {token : Token} (h : token.kind ≠ .endToken) :
    token.items.map Item.span = token.pieces.map Piece.span := by
  rw [items, pieces, if_neg h, List.map_append, List.map_append, List.map_cons, List.map_append,
    map_span_trivia, map_span_trivia]
  rfl

/-- The end of the input is an item, not a piece. -/
theorem map_span_items_endAt (position : Nat) (leading : List Trivia) :
    (items { endAt position with leading := leading }).map Item.span =
      (pieces { endAt position with leading := leading }).map Piece.span ++ [⟨position, 0⟩] := by
  rw [pieces_endAt, items, List.map_append, map_span_trivia]
  rfl

/-- The errors in a token are those of its items. -/
theorem perm_errors (token : Token) : token.errors.Perm (token.items.filterMap Item.error?) := by
  have htrivia (items : List Trivia) :
      (items.map Item.trivia).filterMap Item.error? = items.filterMap Trivia.error? :=
    List.filterMap_map
  have hown : (Item.token token :: token.trailing.map .trivia).filterMap Item.error? =
      token.ownError?.toList ++ token.trailing.filterMap Trivia.error? := by
    rw [List.filterMap_cons, htrivia, Item.error?]
    cases token.ownError? <;> rfl
  rw [errors, items, List.filterMap_append, List.filterMap_append, htrivia, hown, List.append_assoc]
  exact List.perm_append_comm.append_left _

end Token

/-! ### The items of a text -/

/-- The items of a text are the pieces that tile it, and the end of the input behind them. -/
private theorem map_span_items_tokenize (text : String) :
    ((tokenize text).flatMap Token.items).map Item.span =
      ((tokenize text).flatMap Token.pieces).map Piece.span ++ [⟨text.utf8ByteSize, 0⟩] := by
  obtain ⟨body, leading, htokens, hbody, -⟩ := tokenize_eq_append text
  have hitems : (body.flatMap Token.items).map Item.span =
      (body.flatMap Token.pieces).map Piece.span := by
    rw [List.map_flatMap, List.map_flatMap]
    exact List.flatMap_congr fun token htoken => Token.map_span_items (hbody token htoken).1
  rw [htokens, List.flatMap_append, List.flatMap_append, List.map_append, List.map_append, hitems,
    List.flatMap_singleton, List.flatMap_singleton, Token.map_span_items_endAt, List.append_assoc]

/-- The items of a text, the end of the input included, have starts that increase. -/
theorem increasing_items (text : String) :
    ((tokenize text).flatMap Token.items).Pairwise fun a b => a.span.start < b.span.start := by
  have htile := (layout_tokenize text).tile
  rw [Nat.zero_add, byteLength_toList] at htile
  rw [← List.pairwise_map (f := Item.span) (R := fun a b => a.start < b.start),
    map_span_items_tokenize]
  refine List.pairwise_append.mpr ⟨htile.increasing, List.pairwise_singleton _ _, ?_⟩
  intro span hspan last hlast
  rw [List.mem_singleton.mp hlast]
  exact htile.start_lt span hspan

/-- Each item of a text starts where those before it have ended. -/
theorem disjoint_items (text : String) :
    ((tokenize text).flatMap Token.items).Pairwise fun a b => a.span.stop ≤ b.span.start := by
  have htile := (layout_tokenize text).tile
  rw [Nat.zero_add, byteLength_toList] at htile
  rw [← List.pairwise_map (f := Item.span) (R := fun a b => a.stop ≤ b.start),
    map_span_items_tokenize]
  refine List.pairwise_append.mpr ⟨htile.disjoint, List.pairwise_singleton _ _, ?_⟩
  intro span hspan last hlast
  rw [List.mem_singleton.mp hlast]
  exact htile.stop_le span hspan

/-- The tokens of a text have starts that increase. -/
theorem increasing_tokenize (text : String) :
    (tokenize text).Pairwise fun a b => a.span.start < b.span.start := by
  have hcross := (List.pairwise_flatMap.mp (increasing_items text)).2
  exact hcross.imp fun h => h _ (Token.mem_items _) _ (Token.mem_items _)

theorem item_eq_of_start_eq (text : String) {a b : Item}
    (ha : a ∈ (tokenize text).flatMap Token.items) (hb : b ∈ (tokenize text).flatMap Token.items)
    (h : a.span.start = b.span.start) : a = b :=
  eq_of_key_eq (fun item : Item => item.span.start) (increasing_items text) ha hb h

/-! ### Errors of the text -/

private theorem increasing_errors (text : String) :
    (((tokenize text).flatMap Token.items).filterMap Item.error?).Pairwise
      fun a b => a.span.start < b.span.start := by
  refine (increasing_items text).filterMap _ fun a b hlt error herror other hother => ?_
  rwa [Item.span_of_error? herror, Item.span_of_error? hother]

/-- The errors of a text are those of its items, in the order of the text. -/
theorem lexicalErrors_tokenize (text : String) :
    lexicalErrors (tokenize text) =
      ((tokenize text).flatMap Token.items).filterMap Item.error? := by
  refine mergeSort_key_of_perm (fun error : LexicalError => error.span.start) ?_
    (increasing_errors text)
  rw [List.filterMap_flatMap]
  exact List.Perm.flatMap_left _ fun token _ => token.perm_errors

/-- No two errors of a text have one start. -/
theorem increasing_lexicalErrors (text : String) :
    (lexicalErrors (tokenize text)).Pairwise fun a b => a.span.start < b.span.start := by
  rw [lexicalErrors_tokenize]
  exact increasing_errors text

/-! ### Errors of the tree -/

/-- The end of the input in the tokens of a text stands at its end. -/
theorem span_of_kind_eq_endToken {text : String} {token : Token} (h : token ∈ tokenize text)
    (hkind : token.kind = .endToken) : token.span = ⟨text.utf8ByteSize, 0⟩ := by
  obtain ⟨body, leading, htokens, hbody, -⟩ := tokenize_eq_append text
  rw [htokens, List.mem_append, List.mem_singleton] at h
  rcases h with hmem | rfl
  · exact absurd hkind (hbody token hmem).1
  · rfl

/-- The tokens that a tree of a text uses are tokens of the text. -/
theorem mem_tokenize_of_mem_takeD {text : String} {sentinel token : Token}
    (hlast : (tokenize text).getLast? = some sentinel) {n : Nat}
    (h : token ∈ (tokenize text).takeD n sentinel) : token ∈ tokenize text :=
  (Parser.mem_or_eq_of_mem_takeD h).elim id fun hcopy => hcopy ▸ List.mem_of_getLast? hlast

/-- Tokens of a text with copies of the end of the input behind them have starts that increase, but
for those copies. -/
theorem increasing_takeD {text : String} {sentinel : Token}
    (hkind : sentinel.kind = .endToken) (hlast : (tokenize text).getLast? = some sentinel)
    (n : Nat) :
    ((tokenize text).takeD n sentinel).Pairwise fun a b =>
      a.span.start < b.span.start ∨ a.kind = .endToken ∧ b.kind = .endToken := by
  have hincreasing := increasing_tokenize text
  by_cases hn : n ≤ (tokenize text).length
  · rw [List.takeD_eq_take sentinel hn]
    exact (hincreasing.sublist (List.take_sublist n _)).imp .inl
  · obtain ⟨body, htokens⟩ := List.getLast?_eq_some_iff.mp hlast
    rw [Parser.takeD_eq_append_replicate (Nat.le_of_not_le hn)]
    refine List.pairwise_append.mpr
      ⟨hincreasing.imp .inl, List.pairwise_replicate.mpr (.inr (.inr ⟨hkind, hkind⟩)), ?_⟩
    intro token htoken last hcopy
    rw [htokens] at htoken hincreasing
    rw [List.eq_of_mem_replicate hcopy]
    rcases List.mem_append.mp htoken with hbody | hsentinel
    · exact .inl ((List.pairwise_append.mp hincreasing).2.2 token hbody _
        (List.mem_singleton_self _))
    · rw [List.mem_singleton.mp hsentinel]
      exact .inr ⟨hkind, hkind⟩

/-- An error of the tree is about a token of the text. -/
theorem exists_token_of_mem_diagnostics {text : String} {tree : SyntaxTree}
    (h : parse (tokenize text) = .ok tree) :
    ∀ error ∈ tree.diagnostics, ∃ token ∈ tokenize text,
      token.kind = error.found ∧ token.span = error.span := by
  obtain ⟨sentinel, -, -, -, hlast, hparse⟩ := exists_program_tokenize text
  obtain rfl := Except.ok.inj (h.symm.trans hparse)
  intro error herror
  have hmem := (conserves_tree sentinel (tokenize text)).sublist_found.subset
    (List.mem_map_of_mem herror)
  obtain ⟨token, htoken, heq⟩ := List.mem_map.mp hmem
  obtain ⟨hfound, hspan⟩ := Prod.mk.inj heq
  exact ⟨token, mem_tokenize_of_mem_takeD hlast htoken, hfound, hspan⟩

/-- An error about the end of the input stands at the end of the text. -/
theorem span_of_found_eq_endToken {text : String} {tree : SyntaxTree}
    (h : parse (tokenize text) = .ok tree) {error : ParseError} (herror : error ∈ tree.diagnostics)
    (hfound : error.found = .endToken) : error.span = ⟨text.utf8ByteSize, 0⟩ := by
  obtain ⟨token, htoken, hkind, hspan⟩ := exists_token_of_mem_diagnostics h error herror
  rw [← hspan, span_of_kind_eq_endToken htoken (hkind.trans hfound)]

/-- Errors of the tree have starts that increase, but for those about the end of the input. -/
theorem increasing_diagnostics {text : String} {tree : SyntaxTree}
    (h : parse (tokenize text) = .ok tree) :
    tree.diagnostics.Pairwise fun a b =>
      a.span.start < b.span.start ∨ a.found = .endToken ∧ b.found = .endToken := by
  obtain ⟨sentinel, hkind, -, -, hlast, hparse⟩ := exists_program_tokenize text
  obtain rfl := Except.ok.inj (h.symm.trans hparse)
  have hused := increasing_takeD hkind hlast (Parser.taken sentinel (tokenize text))
  have hfound := (conserves_tree sentinel (tokenize text)).sublist_found
  let Behind (a b : TokenKind × Span) : Prop :=
    a.2.start < b.2.start ∨ a.1 = .endToken ∧ b.1 = .endToken
  exact List.pairwise_map.mp (List.Pairwise.sublist hfound
    (List.pairwise_map (R := Behind) |>.mpr hused))

/-- The errors of the tree of a text stand in the order of their starts. -/
theorem ordered_diagnostics (text : String) {tree : SyntaxTree}
    (h : parse (tokenize text) = .ok tree) :
    Span.Ordered (tree.diagnostics.map ParseError.span) := by
  refine List.pairwise_map.mpr ((increasing_diagnostics h).imp_of_mem fun ha hb hab => ?_)
  rcases hab with hlt | ⟨hfound, hfound'⟩
  · exact Nat.le_of_lt hlt
  · rw [span_of_found_eq_endToken h ha hfound, span_of_found_eq_endToken h hb hfound']

end LosslessSyntax
