import LosslessSyntax.Proofs.Diagnostic.FirstError
import LosslessSyntax.Proofs.Token.Excerpt
import LosslessSyntax.Proofs.Tree.Acceptance
import LosslessSyntax.Proofs.Tree.Nodes
import LosslessSyntax.Proofs.Tree.Resemblance

/-!
# Trees of an excerpt

In a text without errors the stretch that a statement covers is by itself a program with this
statement and no other, at whatever depth of the tree it stands; and so is the stretch that an
expression covers, with a semicolon put behind it (`parseStrict_slice`). The excerpt of a node
differs from the node in its place and in the trivia at its ends, which is not part of the stretch.

The tokens of the stretch are those of the node (`tokenize_excerpt`), up to what is cut off. A node
of a canonical tree is canonical, and it stays so where its tokens change in a way that the parser
does not see (`Token.Harmless`).
-/

namespace LosslessSyntax

/-- An expression that is cut out of its text: without the trivia in front of it and behind it, and
so many bytes further to the front. -/
def Expression.excerpt (offset : Nat) (e : Expression Token) : Expression Token :=
  ((e.mapLast Token.withoutTrailing).mapFirst Token.withoutLeading).map (Token.moveDown offset)

/-- A statement that is cut out of its text: without the trivia in front of it and behind it, and so
many bytes further to the front. -/
def Statement.excerpt (offset : Nat) (s : Statement Token) : Statement Token :=
  ((s.mapLast Token.withoutTrailing).mapFirst Token.withoutLeading).map (Token.moveDown offset)

/-! ### Changes that do no harm -/

/-- A change of tokens that the parser does not see in a text without errors: kinds stay, tokens
that touched do so still, and no token gets an error. The token of a leaf may be changed instead of
the tokens that the leaf is made of. -/
structure Token.Harmless (f : Token → Token) : Prop where
  kind : ∀ token, (f token).kind = token.kind
  touches : ∀ token next : Token, token.touches next = true → (f token).touches (f next) = true
  errors : ∀ token : Token, token.errors = [] → (f token).errors = []
  leaf : ∀ leaf : Leaf Token, (leaf.map f).token = f leaf.token

namespace Token

theorem errors_eq_nil_iff {token : Token} :
    token.errors = [] ↔ (∀ item ∈ token.leading, item.error? = none) ∧
      (∀ item ∈ token.trailing, item.error? = none) ∧ token.ownError? = none := by
  rw [errors, List.append_eq_nil_iff, List.filterMap_eq_nil_iff, List.forall_mem_append,
    Option.toList_eq_nil_iff, and_assoc]

theorem harmless_withoutLeading : Harmless withoutLeading where
  kind _ := rfl
  touches token next h := by
    rw [Token.touches, Bool.and_eq_true] at h
    simp only [Token.touches, withoutLeading, h.1, List.isEmpty_nil, Bool.and_self]
  errors token h := by
    obtain ⟨-, htrailing, hown⟩ := errors_eq_nil_iff.mp h
    exact errors_eq_nil_iff.mpr ⟨List.forall_mem_nil _, htrailing, hown⟩
  leaf leaf := by
    cases leaf with
    | merged operator first others =>
      simp only [Leaf.map, Leaf.token, Leaf.getLastD_map]
      rfl
    | _ => rfl

theorem harmless_withoutTrailing : Harmless withoutTrailing where
  kind _ := rfl
  touches token next h := by
    rw [Token.touches, Bool.and_eq_true] at h
    simp only [Token.touches, withoutTrailing, h.2, List.isEmpty_nil, Bool.and_self]
  errors token h := by
    obtain ⟨hleading, -, hown⟩ := errors_eq_nil_iff.mp h
    exact errors_eq_nil_iff.mpr ⟨hleading, List.forall_mem_nil _, hown⟩
  leaf leaf := by
    cases leaf with
    | merged operator first others =>
      simp only [Leaf.map, Leaf.token, Leaf.getLastD_map]
      rfl
    | _ => rfl

theorem harmless_moveDown (offset : Nat) : Harmless (moveDown offset) where
  kind _ := rfl
  touches token next h := by
    simpa only [Token.touches, moveDown, List.isEmpty_map] using h
  errors token h := by
    have hitem (item : Trivia) (hnone : item.error? = none) :
        (item.moveDown offset).error? = none := by
      rw [Trivia.error?, ite_eq_right_iff] at hnone ⊢
      exact fun hflaw => absurd (hnone hflaw) (Option.some_ne_none _)
    obtain ⟨hleading, htrailing, hown⟩ := errors_eq_nil_iff.mp h
    refine errors_eq_nil_iff.mpr ⟨?_, ?_, ?_⟩
    · exact List.forall_mem_map.mpr fun item hmem => hitem item (hleading item hmem)
    · exact List.forall_mem_map.mpr fun item hmem => hitem item (htrailing item hmem)
    · simpa [ownError?, moveDown] using hown
  leaf leaf := by
    cases leaf with
    | merged operator first others =>
      simp only [Leaf.map, Leaf.token, Leaf.getLastD_map]
      rfl
    | _ => rfl

end Token

namespace Leaf

variable {f : Token → Token} {leaf : Leaf Token}

theorem kind_map (h : Token.Harmless f) (leaf : Leaf Token) : (leaf.map f).kind = leaf.kind := by
  cases leaf with
  | plain token => exact h.kind token
  | missing expected token => rfl
  | merged operator first others => rfl

theorem Exact.map (hexact : leaf.Exact) (h : Token.Harmless f) : (leaf.map f).Exact := by
  cases hexact with
  | @plain token hkind => exact .plain fun hmissing => hkind ((h.kind token).symm.trans hmissing)
  | @merged operator first others hspells =>
    refine .merged ⟨?_, ?_⟩
    · rw [← List.map_cons, List.map_map]
      have : Readable.kind ∘ f = (Readable.kind : Token → TokenKind) := funext h.kind
      rw [this]
      exact hspells.mem
    · exact List.isChain_map_of_isChain f h.touches hspells.chain

end Leaf

/-! ### Leaves of an excerpt -/

/-- The leaves of a node that is cut out of its text. -/
private def cutLeaves (offset : Nat) (leaves : List (Leaf Token)) : List (Leaf Token) :=
  ((leaves.modifyLast (Leaf.map Token.withoutTrailing)).modifyHead
    (Leaf.map Token.withoutLeading)).map (Leaf.map (Token.moveDown offset))

theorem forall_mem_modifyHead {τ : Type} {p : τ → Prop} {f : τ → τ} (hf : ∀ x, p x → p (f x))
    {xs : List τ} (h : ∀ x ∈ xs, p x) : ∀ x ∈ xs.modifyHead f, p x := by
  cases xs with
  | nil => exact h
  | cons x xs =>
    obtain ⟨hx, hxs⟩ := List.forall_mem_cons.mp h
    exact List.forall_mem_cons.mpr ⟨hf x hx, hxs⟩

theorem forall_mem_modifyLast {τ : Type} {p : τ → Prop} {f : τ → τ} (hf : ∀ x, p x → p (f x))
    {xs : List τ} (h : ∀ x ∈ xs, p x) : ∀ x ∈ xs.modifyLast f, p x := by
  induction xs using List.reverseRecOn with
  | nil => exact h
  | append_singleton xs x =>
    obtain ⟨hxs, hx⟩ := List.forall_mem_append.mp h
    rw [List.modifyLast_concat]
    exact List.forall_mem_append.mpr
      ⟨hxs, List.forall_mem_singleton.mpr (hf x (List.forall_mem_singleton.mp hx))⟩

private theorem exact_cutLeaves (offset : Nat) {leaves : List (Leaf Token)}
    (h : ∀ leaf ∈ leaves, leaf.Exact) : ∀ leaf ∈ cutLeaves offset leaves, leaf.Exact :=
  List.forall_mem_map.mpr fun leaf hleaf =>
    (forall_mem_modifyHead (fun _ h => h.map Token.harmless_withoutLeading)
      (forall_mem_modifyLast (fun _ h => h.map Token.harmless_withoutTrailing) h) leaf hleaf).map
      (Token.harmless_moveDown offset)

private theorem flatMap_parts_modifyHead {leaves : List (Leaf Token)} {first : Token}
    (h : leaves.head? = some (.plain first)) (f : Token → Token) :
    (leaves.modifyHead (Leaf.map f)).flatMap Leaf.parts =
      (leaves.flatMap Leaf.parts).modifyHead f := by
  obtain ⟨others, rfl⟩ := List.head?_eq_some_iff.mp h
  rfl

private theorem flatMap_parts_modifyLast {leaves : List (Leaf Token)} {last : Token}
    (h : leaves.getLast? = some (.plain last)) (f : Token → Token) :
    (leaves.modifyLast (Leaf.map f)).flatMap Leaf.parts =
      (leaves.flatMap Leaf.parts).modifyLast f := by
  obtain ⟨others, rfl⟩ := List.getLast?_eq_some_iff.mp h
  rw [List.modifyLast_concat, List.flatMap_append, List.flatMap_append, List.flatMap_singleton,
    List.flatMap_singleton]
  exact (List.modifyLast_concat f last (others.flatMap Leaf.parts)).symm

/-- A change of the last leaf leaves a single token in front. -/
private theorem exists_head?_modifyLast {leaves : List (Leaf Token)} {first : Token}
    (h : leaves.head? = some (.plain first)) (f : Token → Token) :
    ∃ token, (leaves.modifyLast (Leaf.map f)).head? = some (.plain token) := by
  obtain ⟨others, rfl⟩ := List.head?_eq_some_iff.mp h
  by_cases hnil : others = []
  · subst hnil
    exact ⟨f first, rfl⟩
  · refine ⟨first, ?_⟩
    rw [← List.singleton_append, List.modifyLast_append_of_right_ne_nil _ _ _ hnil]
    rfl

/-- The tokens of some leaves that are cut out, where the first and the last are single tokens. -/
private theorem parts_cutLeaves (offset : Nat) {leaves : List (Leaf Token)} {first last : Token}
    (hfirst : leaves.head? = some (.plain first)) (hlast : leaves.getLast? = some (.plain last)) :
    (cutLeaves offset leaves).flatMap Leaf.parts =
      (((leaves.flatMap Leaf.parts).modifyLast Token.withoutTrailing).modifyHead
        Token.withoutLeading).map (Token.moveDown offset) := by
  obtain ⟨token, htoken⟩ := exists_head?_modifyLast hfirst Token.withoutTrailing
  rw [← flatMap_parts_modifyLast hlast, ← flatMap_parts_modifyHead htoken, cutLeaves,
    List.flatMap_map, List.map_flatMap]
  simp only [Leaf.parts_map]

/-- The kinds of the tokens that an exact leaf of a tree is made of. -/
private theorem kind_not_mem_contextual {leaf : Leaf Token} (h : leaf.Exact)
    (hkind : leaf.kind ∈ leafKinds) : ∀ token ∈ leaf.parts, token.kind ∉ TokenKind.contextual := by
  cases h with
  | @plain token _ =>
    have hall : ∀ kind ∈ leafKinds, kind ∉ TokenKind.contextual := by decide
    exact List.forall_mem_singleton.mpr (hall _ hkind)
  | @merged operator first others hspells =>
    have hall : ∀ compound ∈ compoundOperators, ∀ kind ∈ compound.1,
        kind ∉ TokenKind.contextual := by decide
    exact fun token htoken => hall _ hspells.mem _ (List.mem_map_of_mem htoken)

/-- Leaves that stand side by side in a tree without errors, the first and the last of them single
tokens. -/
private structure Stretch (leaves : List (Leaf Token)) (first last : Token) : Prop where
  exact : ∀ leaf ∈ leaves, leaf.Exact
  kind_mem : ∀ leaf ∈ leaves, leaf.kind ∈ leafKinds
  head? : leaves.head? = some (.plain first)
  getLast? : leaves.getLast? = some (.plain last)

namespace Stretch

variable {leaves : List (Leaf Token)} {first last : Token}

private theorem head?_parts (h : Stretch leaves first last) :
    (leaves.flatMap Leaf.parts).head? = some first := by
  obtain ⟨others, rfl⟩ := List.head?_eq_some_iff.mp h.head?
  rfl

private theorem getLast?_parts (h : Stretch leaves first last) :
    (leaves.flatMap Leaf.parts).getLast? = some last := by
  obtain ⟨others, rfl⟩ := List.getLast?_eq_some_iff.mp h.getLast?
  rw [List.flatMap_append]
  exact List.getLast?_concat

private theorem kind_not_mem (h : Stretch leaves first last) :
    ∀ token ∈ leaves.flatMap Leaf.parts, token.kind ∉ TokenKind.contextual := by
  intro token htoken
  obtain ⟨leaf, hleaf, htoken⟩ := List.mem_flatMap.mp htoken
  exact kind_not_mem_contextual (h.exact leaf hleaf) (h.kind_mem leaf hleaf) token htoken

end Stretch

/-- The stretch of a text that some leaves cover has the tokens of these leaves, cut out, and behind
them those of what is put there. -/
private theorem exists_tokenize_eq {text : String} {front back : List Token}
    {leaves : List (Leaf Token)} {first last : Token} (hleaves : Stretch leaves first last)
    (h : tokenize text = front ++ (leaves.flatMap Leaf.parts ++ back)) (hback : back ≠ [])
    (herrors : ∀ token ∈ tokenize text, token.errors = []) :
    ∃ span mid, Span.ofBounds first.span.start last.span.stop = .ok span ∧
      (Source.ofString text).slice span = .ok (String.ofList mid) ∧
      (∀ token ∈ (cutLeaves span.start leaves).flatMap Leaf.parts, token.errors = []) ∧
      ∀ tail : List Char, (∀ d ∈ tail.head?, d = ';') →
        tokenize (String.ofList (mid ++ tail)) =
          (cutLeaves span.start leaves).flatMap Leaf.parts ++
            Token.scan [] mid.getLast? (byteLength mid) tail := by
  have hne : leaves.flatMap Leaf.parts ≠ [] := by
    intro hnil
    have hhead := hleaves.head?_parts
    rw [hnil] at hhead
    cases hhead
  obtain ⟨before, mid, after, htext, hstart, hstop, htokens⟩ :=
    tokenize_excerpt h hne hback hleaves.kind_not_mem
  refine ⟨⟨byteLength before, byteLength mid⟩, mid, ?_, ?_, ?_, fun tail htail => ?_⟩
  · rw [hstart first hleaves.head?_parts, hstop last hleaves.getLast?_parts,
      Span.ofBounds_of_le (Nat.le_add_right _ _), Nat.add_sub_cancel_left]
  · have hslice := Source.slice_ofList_append before mid after
    rwa [← htext, String.ofList_toList] at hslice
  · rw [h] at herrors
    have herrors := (List.forall_mem_append.mp (List.forall_mem_append.mp herrors).2).1
    rw [parts_cutLeaves _ hleaves.head? hleaves.getLast?]
    exact List.forall_mem_map.mpr fun token htoken =>
      (Token.harmless_moveDown _).errors token (forall_mem_modifyHead
        Token.harmless_withoutLeading.errors
        (forall_mem_modifyLast Token.harmless_withoutTrailing.errors herrors) token htoken)
  · rw [htokens tail htail, parts_cutLeaves _ hleaves.head? hleaves.getLast?]

/-! ### The ends of a node -/

/-- The kinds of the leaves at the ends of a node. Compound operators have others. -/
def edgeKinds : List TokenKind :=
  Parser.starters ++ [.rightParen, .semicolon, .leftCurlyBrace, .rightCurlyBrace]

section

variable {τ : Type} {kindOf : τ → TokenKind}

theorem Expression.WellShaped.fits_first {e : Expression τ} (h : e.WellShaped kindOf) :
    Fits kindOf edgeKinds e.first := by
  induction h with
  | literal hvalue => exact hvalue.mono (by decide)
  | identifier hname => exact .of_kind_eq hname (by decide)
  | assignment hname => exact .of_kind_eq hname (by decide)
  | binary _ _ _ _ _ ih => exact ih
  | unary hoperator =>
    have hsigns : [.plus, .minus, .exclamationMark] ⊆ edgeKinds := by decide
    exact .inl (hsigns (mem_of_unaryPrecedence_ne_zero hoperator))
  | parenthesized hopening => exact .of_kind_eq hopening (by decide)

theorem Expression.WellShaped.fits_last {e : Expression τ} (h : e.WellShaped kindOf) :
    Fits kindOf edgeKinds e.last := by
  induction h with
  | literal hvalue => exact hvalue.mono (by decide)
  | identifier hname => exact .of_kind_eq hname (by decide)
  | assignment _ _ _ ih => exact ih
  | binary _ _ _ _ _ _ ih => exact ih
  | unary _ _ _ ih => exact ih
  | parenthesized _ _ hclosing => exact hclosing.mono (by decide)

theorem Statement.WellShaped.fits_first {s : Statement τ} (h : s.WellShaped kindOf) :
    Fits kindOf edgeKinds s.first := by
  cases h with
  | expression hvalue => exact hvalue.fits_first
  | block hopening => exact .of_kind_eq hopening (by decide)
  | declaration htype => exact .of_kind_eq htype (by decide)
  | initialization htype => exact .of_kind_eq htype (by decide)

theorem Statement.WellShaped.fits_last {s : Statement τ} (h : s.WellShaped kindOf) :
    Fits kindOf edgeKinds s.last := by
  cases h with
  | expression _ hsemicolon => exact hsemicolon.mono (by decide)
  | block _ _ hclosing => exact hclosing.mono (by decide)
  | declaration _ _ hsemicolon => exact hsemicolon.mono (by decide)
  | initialization _ _ _ _ hsemicolon => exact hsemicolon.mono (by decide)

end

/-- The leaves of a canonical node begin and end with single tokens. -/
private theorem exists_stretch {leaves : List (Leaf Token)} {first last : Leaf Token}
    (hexact : ∀ leaf ∈ leaves, leaf.Exact) (hfits : ∀ leaf ∈ leaves, Fits Leaf.kind leafKinds leaf)
    (hhead : leaves.head? = some first) (hgetLast : leaves.getLast? = some last)
    (hfirst : Fits Leaf.kind edgeKinds first) (hlast : Fits Leaf.kind edgeKinds last) :
    ∃ token token', first = .plain token ∧ last = .plain token' ∧ Stretch leaves token token' := by
  have hkinds : ∀ compound ∈ compoundOperators, compound.2 ∉ edgeKinds := by decide
  obtain ⟨token, rfl, -⟩ :=
    (hexact first (List.mem_of_mem_head? hhead)).exists_plain_of_fits hfirst hkinds
  obtain ⟨token', rfl, -⟩ :=
    (hexact last (List.mem_of_mem_getLast? hgetLast)).exists_plain_of_fits hlast hkinds
  exact ⟨token, token', rfl, rfl,
    { exact := hexact
      kind_mem := fun leaf hleaf => (hfits leaf hleaf).resolve_right (hexact leaf hleaf).kind_ne
      head? := hhead
      getLast? := hgetLast }⟩

/-! ### Nodes that are cut out -/

private def Expression.cut (offset : Nat) (e : Expression (Leaf Token)) : Expression (Leaf Token) :=
  ((e.mapLast (Leaf.map Token.withoutTrailing)).mapFirst (Leaf.map Token.withoutLeading)).map
    (Leaf.map (Token.moveDown offset))

private def Statement.cut (offset : Nat) (s : Statement (Leaf Token)) : Statement (Leaf Token) :=
  ((s.mapLast (Leaf.map Token.withoutTrailing)).mapFirst (Leaf.map Token.withoutLeading)).map
    (Leaf.map (Token.moveDown offset))

private theorem Expression.leaves_cut (offset : Nat) (e : Expression (Leaf Token)) :
    (e.cut offset).leaves = cutLeaves offset e.leaves := by
  rw [cut, leaves_map, leaves_mapFirst, leaves_mapLast, cutLeaves]

private theorem Statement.leaves_cut (offset : Nat) (s : Statement (Leaf Token)) :
    (s.cut offset).leaves = cutLeaves offset s.leaves := by
  rw [cut, leaves_map, leaves_mapFirst, leaves_mapLast, cutLeaves]

private theorem Expression.map_token_cut (offset : Nat) (e : Expression (Leaf Token)) :
    (e.cut offset).map Leaf.token = (e.map Leaf.token).excerpt offset := by
  rw [cut, excerpt, ← map_mapLast Token.harmless_withoutTrailing.leaf,
    ← map_mapFirst Token.harmless_withoutLeading.leaf, map_map, map_map]
  simp only [(Token.harmless_moveDown offset).leaf]

private theorem Statement.map_token_cut (offset : Nat) (s : Statement (Leaf Token)) :
    (s.cut offset).map Leaf.token = (s.map Leaf.token).excerpt offset := by
  rw [cut, excerpt, ← map_mapLast Token.harmless_withoutTrailing.leaf,
    ← map_mapFirst Token.harmless_withoutLeading.leaf, map_map, map_map]
  simp only [(Token.harmless_moveDown offset).leaf]

private theorem Expression.WellShaped.cut {e : Expression (Leaf Token)}
    (h : e.WellShaped Leaf.kind) (offset : Nat) : (e.cut offset).WellShaped Leaf.kind :=
  ((h.mapLast (Leaf.kind_map Token.harmless_withoutTrailing)).mapFirst
    (Leaf.kind_map Token.harmless_withoutLeading)).map
    (Leaf.kind_map (Token.harmless_moveDown offset))

private theorem Statement.Canonical.cut {s : Statement (Leaf Token)} (h : s.Canonical)
    (offset : Nat) : (s.cut offset).Canonical where
  wellShaped := ((h.wellShaped.mapLast (Leaf.kind_map Token.harmless_withoutTrailing)).mapFirst
    (Leaf.kind_map Token.harmless_withoutLeading)).map
    (Leaf.kind_map (Token.harmless_moveDown offset))
  exact := s.leaves_cut offset ▸ exact_cutLeaves offset h.exact

/-! ### Parsing an excerpt -/

/-- A text that is made of the tokens of canonical statements is parsed to these statements. -/
theorem parseStrict_of_canonical {derivation : List (Statement (Leaf Token))}
    (hcanonical : ∀ s ∈ derivation, s.Canonical) {text : String} {stop : Nat}
    (h : tokenize text = derivation.flatMap Statement.parts ++ [.endAt stop])
    (herrors : ∀ token ∈ tokenize text, token.errors = []) :
    parseStrict text =
      .ok (.ok ⟨derivation.map (Statement.map Leaf.token), .endAt stop, []⟩) := by
  obtain ⟨sentinel, -, -, -, hlast, hparse⟩ := exists_program_tokenize text
  rw [h, List.getLast?_concat] at hlast
  obtain rfl := Option.some.inj hlast
  have hkind : kind (Token.endAt stop) = .endToken := rfl
  have hprogram := Parser.program_append hcanonical (Token.endAt stop) hkind
  have htree : (Parser.Program.mk derivation (.plain (Token.endAt stop))).tree =
      ⟨derivation.map (Statement.map Leaf.token), .endAt stop, []⟩ := by
    rw [Parser.Program.tree, List.filterMap_eq_nil_iff.mpr]
    · rfl
    · exact List.forall_mem_append.mpr
        ⟨fun leaf hleaf => (Parser.exact_of_mem_leaves hcanonical leaf hleaf).error?_eq_none,
          List.forall_mem_singleton.mpr rfl⟩
  rw [← h] at hprogram
  rw [hprogram, htree] at hparse
  exact parseStrict_of_lexicalErrors_eq_nil (lexicalErrors_eq_nil_iff.mpr herrors) hparse

/-- A canonical statement that stands in a text is read from the stretch that it covers. -/
private theorem parseStrict_statement {text : String} {front back : List Token}
    {s : Statement (Leaf Token)} (hs : s.Canonical)
    (h : tokenize text = front ++ (s.parts ++ back)) (hback : back ≠ [])
    (herrors : ∀ token ∈ tokenize text, token.errors = []) :
    ∃ span piece, (s.map Leaf.token).span = .ok span ∧
      (Source.ofString text).slice span = .ok piece ∧
      parseStrict piece = .ok (.ok
        ⟨[(s.map Leaf.token).excerpt span.start], .endAt piece.utf8ByteSize, []⟩) := by
  obtain ⟨first, last, hfirst, hlast, hstretch⟩ := exists_stretch hs.exact hs.wellShaped.fits
    s.head?_leaves s.getLast?_leaves hs.wellShaped.fits_first hs.wellShaped.fits_last
  obtain ⟨span, mid, hspan, hslice, hcut, htokens⟩ := exists_tokenize_eq hstretch h hback herrors
  have htokens := htokens [] nofun
  rw [List.append_nil, Token.scan_nil, ← s.leaves_cut, ← utf8ByteSize_ofList] at htokens
  rw [← s.leaves_cut] at hcut
  refine ⟨span, String.ofList mid, ?_, hslice, ?_⟩
  · rw [Statement.span, Statement.first_map, Statement.last_map, hfirst, hlast]
    exact hspan
  · rw [← s.map_token_cut]
    refine parseStrict_of_canonical (List.forall_mem_singleton.mpr (hs.cut span.start)) ?_ ?_
    · rw [htokens, List.flatMap_singleton]
      rfl
    · rw [htokens]
      exact List.forall_mem_append.mpr ⟨hcut, List.forall_mem_singleton.mpr rfl⟩

/-- An expression that stands in a text without errors is read from the stretch that it covers, if a
semicolon is put behind it. -/
private theorem parseStrict_expression {text : String} {front back : List Token}
    {e : Expression (Leaf Token)} (he : e.WellShaped Leaf.kind)
    (hexact : ∀ leaf ∈ e.leaves, leaf.Exact)
    (h : tokenize text = front ++ (e.parts ++ back)) (hback : back ≠ [])
    (herrors : ∀ token ∈ tokenize text, token.errors = []) :
    ∃ span piece, (e.map Leaf.token).span = .ok span ∧
      (Source.ofString text).slice span = .ok piece ∧
      parseStrict (piece ++ ";") = .ok (.ok
        ⟨[.expression ((e.map Leaf.token).excerpt span.start)
          (.semicolonAt piece.utf8ByteSize)], .endAt (piece.utf8ByteSize + 1), []⟩) := by
  obtain ⟨first, last, hfirst, hlast, hstretch⟩ := exists_stretch hexact he.fits
    e.head?_leaves e.getLast?_leaves he.fits_first he.fits_last
  obtain ⟨span, mid, hspan, hslice, hcut, htokens⟩ := exists_tokenize_eq hstretch h hback herrors
  have htokens := htokens [';'] (by simp)
  rw [Token.scan_semicolon, ← e.leaves_cut, ← utf8ByteSize_ofList, String.ofList_append] at htokens
  rw [← e.leaves_cut] at hcut
  generalize String.ofList mid = piece at htokens hslice
  refine ⟨span, piece, ?_, hslice, ?_⟩
  · rw [Expression.span, Expression.first_map, Expression.last_map, hfirst, hlast]
    exact hspan
  · have hcanonical : (Statement.expression (e.cut span.start)
        (.plain (Token.semicolonAt piece.utf8ByteSize))).Canonical :=
      { wellShaped := .expression (he.cut span.start) (.inl List.mem_cons_self)
        exact := List.forall_mem_append.mpr ⟨e.leaves_cut span.start ▸ exact_cutLeaves _ hexact,
          List.forall_mem_singleton.mpr (.plain nofun)⟩ }
    have hparts : tokenize (piece ++ ";") = (e.cut span.start).parts ++
        [Token.semicolonAt piece.utf8ByteSize, Token.endAt (piece.utf8ByteSize + 1)] := htokens
    rw [← e.map_token_cut]
    refine parseStrict_of_canonical (List.forall_mem_singleton.mpr hcanonical) ?_ ?_
    · rw [hparts, List.flatMap_singleton, Statement.parts_expression, List.append_assoc]
      rfl
    · rw [hparts]
      exact List.forall_mem_append.mpr ⟨hcut, List.forall_mem_cons.mpr
        ⟨rfl, List.forall_mem_singleton.mpr rfl⟩⟩

/-- In a text without errors stand the tokens of canonical statements, those of the tree. -/
private theorem exists_canonical_of_parseStrict {text : String} {tree : SyntaxTree}
    (h : parseStrict text = .ok (.ok tree)) :
    ∃ (derivation : List (Statement (Leaf Token))) (last : Token),
      (∀ s ∈ derivation, s.Canonical) ∧
      tokenize text = derivation.flatMap Statement.parts ++ [last] ∧
      tree.statements = derivation.map (Statement.map Leaf.token) := by
  obtain ⟨-, htree, hdiagnostics⟩ := of_parseStrict_eq_ok h
  obtain ⟨body, leading, htokens, hbody, -⟩ := tokenize_eq_append text
  obtain ⟨sentinel, -, -, -, -, hparse⟩ := exists_program_tokenize text
  obtain rfl := Except.ok.inj (htree.symm.trans hparse)
  rw [htokens] at hdiagnostics ⊢
  obtain ⟨hcanonical, hparts⟩ := Parser.canonical_of_diagnostics_eq_nil
    (fun token htoken => (hbody token htoken).1) rfl hdiagnostics
  exact ⟨_, _, hcanonical, by rw [hparts], rfl⟩

/-- The statements that canonical statements are built from are canonical, and the tokens of each
stand side by side. -/
private theorem canonical_of_mem_nodes {derivation : List (Statement (Leaf Token))}
    (h : ∀ s ∈ derivation, s.Canonical) {d : Statement (Leaf Token)}
    (hd : d ∈ derivation.flatMap Statement.nodes) :
    d.Canonical ∧ d.parts <:+: derivation.flatMap Statement.parts := by
  obtain ⟨s, hs, hd⟩ := List.mem_flatMap.mp hd
  have hleaves := s.isInfix_leaves d hd
  refine ⟨⟨(h s hs).wellShaped.of_mem_nodes d hd,
    fun leaf hleaf => (h s hs).exact leaf (hleaves.subset hleaf)⟩, ?_⟩
  obtain ⟨front, back, rfl⟩ := List.append_of_mem hs
  rw [List.flatMap_append, List.flatMap_cons, ← List.append_assoc]
  exact (hleaves.flatMap Leaf.parts).trans (List.infix_append _ s.parts _)

/-- The expressions that a canonical statement is built from are well shaped, and the tokens of each
stand side by side. -/
private theorem wellShaped_of_mem_nodes {s : Statement (Leaf Token)} (h : s.Canonical)
    {value e : Expression (Leaf Token)} (hvalue : value ∈ s.value?) (he : e ∈ value.nodes) :
    e.WellShaped Leaf.kind ∧ (∀ leaf ∈ e.leaves, leaf.Exact) ∧ e.parts <:+: s.parts := by
  have hleaves := (Expression.isInfix_leaves e he).trans
    (Statement.isInfix_leaves_of_mem_value? value hvalue)
  have hshaped := h.wellShaped.of_mem_value? (fun leaf hleaf => (h.exact leaf hleaf).kind_ne) value
    hvalue
  exact ⟨hshaped.of_mem_nodes e he, fun leaf hleaf => h.exact leaf (hleaves.subset hleaf),
    hleaves.flatMap Leaf.parts⟩

/-- **Nodes are read from their own slices.** Let a text have no errors. The slice of the source at
the span of any statement of its tree, at the top or in blocks, has no errors either, and its tree
is this statement and no other: moved down to the start of the slice, without the trivia in front of
its first token and behind its last. Likewise the slice at the span of any expression of the tree,
with a semicolon behind it, is a statement of this expression. -/
theorem parseStrict_slice {text : String} {tree : SyntaxTree}
    (h : parseStrict text = .ok (.ok tree)) :
    (∀ s ∈ tree.statementNodes, ∃ span piece, s.span = .ok span ∧
      (Source.ofString text).slice span = .ok piece ∧
      parseStrict piece =
        .ok (.ok ⟨[s.excerpt span.start], .endAt piece.utf8ByteSize, []⟩)) ∧
    ∀ e ∈ tree.expressionNodes, ∃ span piece, e.span = .ok span ∧
      (Source.ofString text).slice span = .ok piece ∧
      parseStrict (piece ++ ";") = .ok (.ok
        ⟨[.expression (e.excerpt span.start) (.semicolonAt piece.utf8ByteSize)],
          .endAt (piece.utf8ByteSize + 1), []⟩) := by
  have herrors := lexicalErrors_eq_nil_iff.mp (of_parseStrict_eq_ok h).1
  obtain ⟨derivation, last, hcanonical, htokens, hstatements⟩ := exists_canonical_of_parseStrict h
  have hsplit {parts : List Token} (hparts : parts <:+: derivation.flatMap Statement.parts) :
      ∃ front back, tokenize text = front ++ (parts ++ back) ∧ back ≠ [] := by
    obtain ⟨front, back, hparts⟩ := hparts
    refine ⟨front, back ++ [last], ?_, List.append_ne_nil_of_right_ne_nil back nofun⟩
    rw [htokens, ← hparts, List.append_assoc, List.append_assoc]
  have hnodes : tree.statementNodes =
      (derivation.flatMap Statement.nodes).map (Statement.map Leaf.token) := by
    rw [SyntaxTree.statementNodes, hstatements, List.flatMap_map, List.map_flatMap]
    simp only [Statement.nodes_map]
  rw [SyntaxTree.expressionNodes, hnodes]
  refine ⟨List.forall_mem_map.mpr fun s hs => ?_, fun _ hmem => ?_⟩
  · obtain ⟨hcanonical, hparts⟩ := canonical_of_mem_nodes hcanonical hs
    obtain ⟨front, back, htext, hback⟩ := hsplit hparts
    exact parseStrict_statement hcanonical htext hback herrors
  · obtain ⟨_, hstatement, hmem⟩ := List.mem_flatMap.mp hmem
    obtain ⟨s, hs, rfl⟩ := List.mem_map.mp hstatement
    obtain ⟨_, hassigned, hnode⟩ := List.mem_flatMap.mp hmem
    rw [Statement.value?_map, Option.mem_toList] at hassigned
    obtain ⟨value, hvalue, rfl⟩ := Option.map_eq_some_iff.mp hassigned
    rw [Expression.nodes_map] at hnode
    obtain ⟨e, he, rfl⟩ := List.mem_map.mp hnode
    obtain ⟨hcanonical, hstatement⟩ := canonical_of_mem_nodes hcanonical hs
    obtain ⟨hshaped, hexact, hparts⟩ := wellShaped_of_mem_nodes hcanonical hvalue he
    obtain ⟨front, back, htext, hback⟩ := hsplit (hparts.trans hstatement)
    exact parseStrict_expression hshaped hexact htext hback herrors

/-- The tree of an assignment in a block with a comment behind it, `{a = 1; // x` and, in another
line, `}`. -/
def commentedBlock : SyntaxTree where
  statements := [.block { kind := .leftCurlyBrace, value := "\x7b", span := ⟨0, 1⟩ }
    [.expression
      (.assignment
        { kind := .identifier, value := "a", span := ⟨1, 1⟩,
          trailing := [⟨.whitespace, " ", ⟨2, 1⟩⟩] }
        { kind := .equals, value := "=", span := ⟨3, 1⟩, trailing := [⟨.whitespace, " ", ⟨4, 1⟩⟩] }
        (.literal { kind := .integer, value := "1", span := ⟨5, 1⟩ }))
      { kind := .semicolon, value := ";", span := ⟨6, 1⟩,
        trailing := [⟨.whitespace, " ", ⟨7, 1⟩⟩, ⟨.singleLineComment, "// x", ⟨8, 4⟩⟩,
          ⟨.endOfLine, "\n", ⟨12, 1⟩⟩] }]
    { kind := .rightCurlyBrace, value := "\x7d", span := ⟨13, 1⟩ }]
  endOfFile := .endAt 14
  diagnostics := []

theorem parseStrict_slice_commentedBlock :
    parseStrict "\x7ba = 1; // x\n\x7d" = .ok (.ok commentedBlock) ∧
      (∀ s ∈ commentedBlock.statementNodes, ∃ span piece, s.span = .ok span ∧
        (Source.ofString "\x7ba = 1; // x\n\x7d").slice span = .ok piece ∧
        parseStrict piece =
          .ok (.ok ⟨[s.excerpt span.start], .endAt piece.utf8ByteSize, []⟩)) ∧
      ∀ e ∈ commentedBlock.expressionNodes, ∃ span piece, e.span = .ok span ∧
        (Source.ofString "\x7ba = 1; // x\n\x7d").slice span = .ok piece ∧
        parseStrict (piece ++ ";") = .ok (.ok
          ⟨[.expression (e.excerpt span.start) (.semicolonAt piece.utf8ByteSize)],
            .endAt (piece.utf8ByteSize + 1), []⟩) := by
  have hclean : parseStrict "\x7ba = 1; // x\n\x7d" = .ok (.ok commentedBlock) := by
    decide +kernel
  exact ⟨hclean, parseStrict_slice hclean⟩

end LosslessSyntax
