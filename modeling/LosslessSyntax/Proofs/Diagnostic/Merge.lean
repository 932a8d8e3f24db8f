import LosslessSyntax.Proofs.Diagnostic.FirstError
import LosslessSyntax.Proofs.Tree.Foreign

/-!
# All diagnostics in order

The diagnostics of a text are the errors of the text and those of its tree, each once, sorted by
their starts. Two of them have one start in two cases only (`Coincide`). A bad character is an error
of the text, and the token that it is left in is always one that the parser did not expect, hence an
error of the tree as well. And at the end of the input as many tokens can be missing as are open.

So the diagnostics are a merge that loses nothing and in which the two errors about a bad character
are neighbours, that of the text first (`diagnostics_merges`).
-/

namespace LosslessSyntax

namespace Diagnostic

/-- The error of the text that a diagnostic is. -/
@[simp] def lexical? : Diagnostic → Option LexicalError
  | lexical error => some error
  | grammatical _ => none

/-- The error of the tree that a diagnostic is. -/
@[simp] def grammatical? : Diagnostic → Option ParseError
  | lexical _ => none
  | grammatical error => some error

/-- Two diagnostics that have one start, in a text of some size: a bad character and the error about
its token, or two tokens that are missing at the end. -/
inductive Coincide (size : Nat) : Diagnostic → Diagnostic → Prop
  | badToken (c : Char) (expected : List TokenKind) (span : Span) :
      Coincide size (.lexical ⟨.unexpectedCharacter c, span⟩)
        (.grammatical ⟨expected, .badToken, span⟩)
  | missing (expected expected' : List TokenKind) :
      Coincide size (.grammatical ⟨expected, .endToken, ⟨size, 0⟩⟩)
        (.grammatical ⟨expected', .endToken, ⟨size, 0⟩⟩)

end Diagnostic

/-- A faithful merge of the errors of a text of some size and those of its tree. -/
structure Merges (size : Nat) (flaws : List LexicalError) (errors : List ParseError)
    (merged : List Diagnostic) : Prop where
  /-- The errors of the text are there, each once and in their order. -/
  lexical : merged.filterMap Diagnostic.lexical? = flaws
  /-- So are those of the tree. -/
  grammatical : merged.filterMap Diagnostic.grammatical? = errors
  /-- No diagnostic starts before the one in front of it. -/
  ordered : merged.Pairwise fun a b => a.span.start ≤ b.span.start
  /-- Behind a bad character comes the error about its token, and there is no other one. -/
  followed : ∀ i c span, merged[i]? = some (.lexical ⟨.unexpectedCharacter c, span⟩) →
    ∃ expected, ∀ j expected',
      merged[j]? = some (.grammatical ⟨expected', .badToken, span⟩) ↔
        j = i + 1 ∧ expected' = expected
  /-- In front of an error about a bad token comes the bad character. -/
  preceded : ∀ j expected span, merged[j]? = some (.grammatical ⟨expected, .badToken, span⟩) →
    ∃ i c, j = i + 1 ∧ merged[i]? = some (.lexical ⟨.unexpectedCharacter c, span⟩)
  /-- No other diagnostics have one start, but for tokens that are missing at the end. -/
  coincide : merged.Pairwise fun a b =>
    a.span.start = b.span.start → Diagnostic.Coincide size a b

section

variable {tokens : List Token} {tree : SyntaxTree}

theorem lexical_mem_diagnostics {flaw : LexicalError} :
    .lexical flaw ∈ diagnostics tokens tree ↔ flaw ∈ lexicalErrors tokens := by
  simp [mem_diagnostics]

theorem grammatical_mem_diagnostics {error : ParseError} :
    .grammatical error ∈ diagnostics tokens tree ↔ error ∈ tree.diagnostics := by
  simp [mem_diagnostics]

/-- The errors of the text are found in their order. -/
theorem filterMap_lexical?_diagnostics :
    (diagnostics tokens tree).filterMap Diagnostic.lexical? = lexicalErrors tokens := by
  have hflaws := sorted_lexicalErrors tokens
  refine (filterMap_mergeSort_key (fun error : Diagnostic => error.span.start) _ ?_).trans ?_
  · simpa [List.filter_append, List.filter_map, Function.comp_def, List.pairwise_map,
      Diagnostic.span] using hflaws
  · simp [Function.comp_def]

/-- The errors of the tree are found in their order, if they are in order. -/
theorem filterMap_grammatical?_diagnostics
    (hordered : Span.Ordered (tree.diagnostics.map ParseError.span)) :
    (diagnostics tokens tree).filterMap Diagnostic.grammatical? = tree.diagnostics := by
  refine (filterMap_mergeSort_key (fun error : Diagnostic => error.span.start) _ ?_).trans ?_
  · simpa [List.filter_append, List.filter_map, Function.comp_def, List.pairwise_map,
      Diagnostic.span, Span.Ordered] using hordered
  · simp [Function.comp_def]

end

/-! ### Bad characters -/

theorem foreign_badToken : Foreign fun kind => kind = .badToken where
  tree := by decide
  operator := by decide

/-- A bad character is found where a bad token is. -/
theorem mem_lexicalErrors_iff {text : String} {span : Span} :
    (∃ c, ⟨.unexpectedCharacter c, span⟩ ∈ lexicalErrors (tokenize text)) ↔
      ∃ token ∈ tokenize text, token.kind = .badToken ∧ token.span = span := by
  rw [lexicalErrors_tokenize]
  constructor
  · rintro ⟨c, hmem⟩
    obtain ⟨item, hitem, herror⟩ := List.mem_filterMap.mp hmem
    obtain ⟨token, rfl, hkind, hspan⟩ := Item.exists_of_error?_eq_unexpectedCharacter herror
    exact ⟨token, Token.mem_flatMap_items.mp hitem, hkind, hspan⟩
  · rintro ⟨token, htoken, hkind, rfl⟩
    exact ⟨_, List.mem_filterMap.mpr
      ⟨_, Token.mem_flatMap_items.mpr htoken, if_pos hkind⟩⟩

/-- An error about a bad token is found where the token is. -/
theorem mem_diagnostics_badToken_iff {text : String} {tree : SyntaxTree}
    (h : parse (tokenize text) = .ok tree) {span : Span} :
    (∃ expected, ⟨expected, .badToken, span⟩ ∈ tree.diagnostics) ↔
      ∃ token ∈ tokenize text, token.kind = .badToken ∧ token.span = span := by
  have hfilter := map_filter_diagnostics foreign_badToken h (kind_ne_endToken_of_mem_dropLast text)
  have hmem : (TokenKind.badToken, span) ∈ _ ↔ _ := iff_of_eq (congrArg ((_, _) ∈ ·) hfilter)
  simp only [List.mem_map, List.mem_filter, decide_eq_true_eq, Prod.mk.injEq] at hmem
  constructor
  · rintro ⟨expected, herror⟩
    obtain ⟨token, ⟨htoken, hkind⟩, -, hspan⟩ := hmem.mp ⟨_, ⟨herror, rfl⟩, rfl, rfl⟩
    exact ⟨token, htoken, hkind, hspan⟩
  · rintro ⟨token, htoken, hkind, hspan⟩
    obtain ⟨⟨expected, found, _⟩, ⟨herror, rfl⟩, -, rfl⟩ :=
      hmem.mpr ⟨token, ⟨htoken, hkind⟩, hkind, hspan⟩
    exact ⟨expected, herror⟩

/-! ### Errors with one start -/

/-- An error about the end of the input stands at the end of the text. -/
private theorem eq_of_found_eq_endToken {text : String} {tree : SyntaxTree}
    (h : parse (tokenize text) = .ok tree) {error : ParseError} (herror : error ∈ tree.diagnostics)
    (hfound : error.found = .endToken) :
    error = ⟨error.expected, .endToken, ⟨text.utf8ByteSize, 0⟩⟩ := by
  rw [← hfound, ← span_of_found_eq_endToken h herror hfound]

/-- Before they are sorted, no errors have one start but those that may. -/
theorem pairwise_coincide {text : String} {tree : SyntaxTree}
    (h : parse (tokenize text) = .ok tree) :
    ((lexicalErrors (tokenize text)).map Diagnostic.lexical ++
      tree.diagnostics.map Diagnostic.grammatical).Pairwise fun a b =>
        a.span.start = b.span.start → Diagnostic.Coincide text.utf8ByteSize a b := by
  refine List.pairwise_append.mpr ⟨?_, ?_, ?_⟩
  · refine List.pairwise_map.mpr ((increasing_lexicalErrors text).imp fun hlt heq => ?_)
    exact absurd heq (Nat.ne_of_lt hlt)
  · refine List.pairwise_map.mpr ((increasing_diagnostics h).imp_of_mem fun ha hb hab heq => ?_)
    rcases hab with hlt | ⟨hfound, hfound'⟩
    · exact absurd heq (Nat.ne_of_lt hlt)
    · rw [eq_of_found_eq_endToken h ha hfound, eq_of_found_eq_endToken h hb hfound']
      exact .missing _ _
  · refine List.forall_mem_map.mpr fun flaw hflaw => List.forall_mem_map.mpr ?_
    intro error herror heq
    rw [lexicalErrors_tokenize] at hflaw
    obtain ⟨item, hitem, hflaw⟩ := List.mem_filterMap.mp hflaw
    obtain ⟨token, htoken, hkind, hspan⟩ := exists_token_of_mem_diagnostics h error herror
    -- Both are about one item, since no two items have one start.
    have hsame : item = .token token := by
      refine item_eq_of_start_eq text hitem (Token.mem_flatMap_items.mpr htoken) ?_
      rw [← Item.span_of_error? hflaw, Item.span, hspan]
      exact heq
    subst hsame
    obtain ⟨hbad, c, rfl⟩ := Item.exists_of_error?_token hflaw
    obtain ⟨expected, found, span⟩ := error
    simp only at hkind hspan
    rw [← hkind, hbad, ← hspan]
    exact .badToken c expected _

/-- What two diagnostics are that stand at two places in order. -/
private theorem rel_of_getElem? {r : Diagnostic → Diagnostic → Prop} {merged : List Diagnostic}
    (h : merged.Pairwise r) {i j : Nat} (hij : i < j) {a b : Diagnostic} (hi : merged[i]? = some a)
    (hj : merged[j]? = some b) : r a b := by
  obtain ⟨hi, rfl⟩ := List.getElem?_eq_some_iff.mp hi
  obtain ⟨hj, rfl⟩ := List.getElem?_eq_some_iff.mp hj
  exact List.pairwise_iff_getElem.mp h i j _ _ hij

/-- In a list whose diagnostics have one start only where they may, the error about a bad token is
the next one behind the bad character. -/
theorem eq_add_one_of_coincide {size : Nat} {merged : List Diagnostic}
    (hordered : merged.Pairwise fun a b => a.span.start ≤ b.span.start)
    (hcoincide : merged.Pairwise fun a b =>
      a.span.start = b.span.start → Diagnostic.Coincide size a b)
    {i j : Nat} {c : Char} {expected : List TokenKind} {span : Span}
    (hi : merged[i]? = some (.lexical ⟨.unexpectedCharacter c, span⟩))
    (hj : merged[j]? = some (.grammatical ⟨expected, .badToken, span⟩)) : j = i + 1 := by
  rcases Nat.lt_trichotomy i j with hlt | rfl | hgt
  · by_contra hne
    have hnext : i + 1 < j := Nat.lt_of_le_of_ne hlt (Ne.symm hne)
    -- What stands between the two would have their start, hence be a bad token and a missing one.
    obtain ⟨other, hother⟩ : ∃ other, merged[i + 1]? = some other := by
      obtain ⟨hlength, -⟩ := List.getElem?_eq_some_iff.mp hj
      exact ⟨_, List.getElem?_eq_getElem (Nat.lt_trans hnext hlength)⟩
    have hle := rel_of_getElem? hordered (Nat.lt_add_one i) hi hother
    have hle' := rel_of_getElem? hordered hnext hother hj
    have hfirst := rel_of_getElem? hcoincide (Nat.lt_add_one i) hi hother (Nat.le_antisymm hle hle')
    have hsecond := rel_of_getElem? hcoincide hnext hother hj (Nat.le_antisymm hle' hle)
    cases hfirst
    cases hsecond
  · cases hi.symm.trans hj
  · cases rel_of_getElem? hcoincide hgt hj hi rfl

/-- **Diagnostics are a faithful merge.** Every text is parsed, and its diagnostics are the errors
of the text and of the tree: each once, by their starts, those of either kind in their order. A bad
character is followed at once by the one error about its token, with the same span, and each error
about a bad token comes behind such a character. No other diagnostics have one start, but for tokens
that are missing at the end of the input. -/
theorem diagnostics_merges (text : String) :
    ∃ tree, parse (tokenize text) = .ok tree ∧
      Merges text.utf8ByteSize (lexicalErrors (tokenize text)) tree.diagnostics
        (diagnostics (tokenize text) tree) := by
  obtain ⟨tree, htree⟩ := exists_parse_tokenize text
  have hordered : (diagnostics (tokenize text) tree).Pairwise fun a b =>
      a.span.start ≤ b.span.start :=
    pairwise_mergeSort_key (fun error : Diagnostic => error.span.start) _
  have hcoincide : (diagnostics (tokenize text) tree).Pairwise fun a b =>
      a.span.start = b.span.start → Diagnostic.Coincide text.utf8ByteSize a b :=
    (pairwise_mergeSort_key_of_key_eq (fun error : Diagnostic => error.span.start)
      (pairwise_coincide htree)).imp fun h heq => h heq heq
  refine ⟨tree, htree, ?_, ?_, hordered, fun i c span hi => ?_, fun j expected span hj => ?_,
    hcoincide⟩
  · exact filterMap_lexical?_diagnostics
  · exact filterMap_grammatical?_diagnostics (ordered_diagnostics text htree)
  · have hflaw := lexical_mem_diagnostics.mp (List.mem_of_getElem? hi)
    obtain ⟨expected, herror⟩ := (mem_diagnostics_badToken_iff htree).mpr
      (mem_lexicalErrors_iff.mp ⟨c, hflaw⟩)
    have hmem : .grammatical _ ∈ diagnostics (tokenize text) tree :=
      grammatical_mem_diagnostics.mpr herror
    obtain ⟨next, hnext⟩ := List.mem_iff_getElem?.mp hmem
    obtain rfl := eq_add_one_of_coincide hordered hcoincide hi hnext
    refine ⟨expected, fun j expected' => ⟨fun hj => ?_, ?_⟩⟩
    · obtain rfl := eq_add_one_of_coincide hordered hcoincide hi hj
      cases hnext.symm.trans hj
      exact ⟨rfl, rfl⟩
    · rintro ⟨rfl, rfl⟩
      exact hnext
  · have herror := grammatical_mem_diagnostics.mp (List.mem_of_getElem? hj)
    obtain ⟨c, hflaw⟩ := mem_lexicalErrors_iff.mpr
      ((mem_diagnostics_badToken_iff htree).mp ⟨expected, herror⟩)
    have hmem : .lexical _ ∈ diagnostics (tokenize text) tree := lexical_mem_diagnostics.mpr hflaw
    obtain ⟨i, hi⟩ := List.mem_iff_getElem?.mp hmem
    exact ⟨i, c, eq_add_one_of_coincide hordered hcoincide hi hj, hi⟩

end LosslessSyntax
