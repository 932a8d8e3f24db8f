import LosslessSyntax.Proofs.Token.Words
import LosslessSyntax.Proofs.Tree.Acceptance
import LosslessSyntax.Proofs.Tree.Resemblance
import LosslessSyntax.Proofs.Tree.RoundTrip

/-!
# Reading what was written

Statements over words can be written out: their words in order, with spaces between them. If the
statements are well shaped and their words are spelled right, the tree of the text is these
statements again (`parse_writeOut`).

The tokens of the text are compared with atoms, which are made of the words directly: a word is one
atom, and an operator of two characters is two atoms that touch. From the atoms the parser reads the
statements, since these are canonical over atoms, and the tokens are alike (`alike_scan`).
-/

namespace LosslessSyntax

/-! ### Atoms -/

/-- A word that touches the next one or not. -/
structure Atom where
  word : Word
  touchesNext : Bool
deriving DecidableEq, Repr

instance : Readable Atom where
  kind atom := atom.word.kind
  touches atom _ := atom.touchesNext

namespace Word

/-- A single character as a word. -/
def ofChar (c : Char) : Word :=
  ⟨(TokenKind.punctuation? c).getD .badToken, String.singleton c⟩

/-- The leaf that a word becomes: an operator of two characters is merged of them. -/
def leaf (word : Word) : Leaf Atom :=
  match word.value.toList with
  | [c, d] =>
    if word.kind ∈ compoundOperators.map Prod.snd then
      .merged word.kind ⟨ofChar c, true⟩ [⟨ofChar d, false⟩]
    else .plain ⟨word, false⟩
  | _ => .plain ⟨word, false⟩

theorem kind_leaf (word : Word) : word.leaf.kind = word.kind := by
  unfold leaf
  split
  · split <;> rfl
  · rfl

/-- The word that a leaf over words puts into a tree. -/
def ofLeaf : Leaf Word → Word
  | .plain word => word
  | .missing _ word => { word with kind := .missingToken }
  | .merged operator _ _ => ⟨operator, operator.text?.getD ""⟩

end Word

theorem Leaf.word_token (leaf : Leaf Token) : leaf.token.word = .ofLeaf (leaf.map Token.word) := by
  cases leaf <;> rfl

/-- A word as the lexer finds it: a single lexeme, or an operator of two symbols. -/
inductive Word.Form (word : Word) : Prop
  | single {c : Char} {cs : List Char} (hvalue : word.value = String.ofList (c :: cs))
      (hwhole : Lexeme.Whole word.kind c cs) (hleaf : word.leaf = .plain ⟨word, false⟩)
  | double {c d : Char} (hvalue : word.value = String.ofList [c, d])
      (hc : Lexeme.isSymbol c = true ∧ isSpace c = false ∧ c ≠ '/')
      (hd : Lexeme.isSymbol d = true ∧ isSpace d = false ∧ d ≠ '/')
      (hspelling : ([(ofChar c).kind, (ofChar d).kind], word.kind) ∈ compoundOperators)
      (htext : word.kind.text? = some word.value)
      (hleaf : word.leaf = .merged word.kind ⟨ofChar c, true⟩ [⟨ofChar d, false⟩])

namespace Word

/-- The characters in which a kind is written. -/
private def characters (kind : TokenKind) : List Char :=
  (kind.text?.getD "").toList

/-- The kinds of the grammar that are written in one way are single symbols, or compound operators
of two. -/
private theorem characters_of_mem_leafKinds : ∀ kind ∈ leafKinds,
    (kind ∉ compoundOperators.map Prod.snd ∧
      (kind ∈ lexicalKinds ∨ (characters kind).any fun c => characters kind = [c] ∧
        Lexeme.isSymbol c = true ∧ isSpace c = false ∧ (ofChar c).kind = kind)) ∨
    (kind ∈ compoundOperators.map Prod.snd ∧ kind ∉ lexicalKinds ∧
      (characters kind).any fun c => (characters kind).any fun d => characters kind = [c, d] ∧
        (Lexeme.isSymbol c = true ∧ isSpace c = false ∧ c ≠ '/') ∧
        (Lexeme.isSymbol d = true ∧ isSpace d = false ∧ d ≠ '/') ∧
        ([(ofChar c).kind, (ofChar d).kind], kind) ∈ compoundOperators) := by
  decide +kernel

private theorem leaf_of_not_mem {word : Word} (h : word.kind ∉ compoundOperators.map Prod.snd) :
    word.leaf = .plain ⟨word, false⟩ := by
  unfold leaf
  split
  · exact if_neg h
  · rfl

/-- The words of the grammar come in the two forms. -/
theorem form_of_spelled {word : Word} (h : word.Spelled) (hkind : word.kind ∈ leafKinds) :
    word.Form := by
  have htext (hnot : word.kind ∉ lexicalKinds) : word.kind.text? = some word.value := by
    rwa [Spelled, if_neg hnot] at h
  have hvalue (hnot : word.kind ∉ lexicalKinds) :
      word.value = String.ofList (characters word.kind) := by
    rw [characters, htext hnot, Option.getD_some, String.ofList_toList]
  rcases characters_of_mem_leafKinds _ hkind with
    ⟨hcompound, hsingle⟩ | ⟨hcompound, hnot, hdouble⟩
  · have hleaf := leaf_of_not_mem hcompound
    by_cases hlexical : word.kind ∈ lexicalKinds
    · rw [Spelled, if_pos hlexical] at h
      obtain ⟨c, cs, htoList, hwhole⟩ := Lexeme.whole_of_tokenize hlexical h
      exact .single (by rw [← htoList, String.ofList_toList]) hwhole hleaf
    · obtain ⟨c, -, hc⟩ := List.any_eq_true.mp (hsingle.resolve_left hlexical)
      obtain ⟨hcharacters, hsymbol, hspace, hofChar⟩ := of_decide_eq_true hc
      have hwhole := Lexeme.whole_of_isSymbol hsymbol hspace
      exact .single (hcharacters ▸ hvalue hlexical) (hofChar ▸ hwhole) hleaf
  · obtain ⟨c, -, hdouble⟩ := List.any_eq_true.mp hdouble
    obtain ⟨d, -, hdouble⟩ := List.any_eq_true.mp hdouble
    obtain ⟨hcharacters, hc, hd, hspelling⟩ := of_decide_eq_true hdouble
    have htoList : word.value.toList = [c, d] := by
      rw [hvalue hnot, String.toList_ofList, hcharacters]
    refine .double (hcharacters ▸ hvalue hnot) hc hd hspelling (htext hnot) ?_
    rw [leaf, htoList]
    exact if_pos hcompound

/-- The leaf of a word is made of the tokens that the grammar demands. -/
theorem Form.exact_leaf {word : Word} (h : word.Form) (hkind : word.kind ≠ .missingToken) :
    word.leaf.Exact := by
  cases h with
  | single _ _ hleaf =>
    rw [hleaf]
    exact .plain hkind
  | @double c d _ _ _ hspelling _ hleaf =>
    rw [hleaf]
    exact .merged ⟨hspelling, .cons_cons rfl (.singleton _)⟩

/-- The leaf of a word shows the word. -/
theorem Form.ofLeaf_leaf {word : Word} (h : word.Form) :
    ofLeaf (word.leaf.map Atom.word) = word := by
  cases h with
  | single _ _ hleaf =>
    rw [hleaf]
    rfl
  | double _ _ _ _ htext hleaf =>
    rw [hleaf, Leaf.map, ofLeaf, htext, Option.getD_some]

theorem Form.toList_ne_nil {word : Word} (h : word.Form) : word.value.toList ≠ [] := by
  cases h with
  | single hvalue => rw [hvalue, String.toList_ofList]; exact List.cons_ne_nil _ _
  | double hvalue => rw [hvalue, String.toList_ofList]; exact List.cons_ne_nil _ _

/-- No trivia begins with a word. -/
theorem Form.next?_append {word : Word} (h : word.Form) {tail : List Char} (htail : Spaced tail) :
    Trivia.next? (word.value.toList ++ tail) = none := by
  cases h with
  | single hvalue hwhole =>
    rw [hvalue, String.toList_ofList]
    exact hwhole.next?_eq htail
  | double hvalue hc =>
    rw [hvalue, String.toList_ofList]
    exact Trivia.next?_eq_none hc.2.1 fun hslash => absurd hslash hc.2.2

end Word

/-! ### The tokens of a written text -/

namespace Parser

/-- A token with trivia behind it, or with nothing but the end of the text, is alike to an atom that
touches no other. -/
private theorem alike_cons {token : Token} {word : Word} (hword : token.word = word)
    {before : Option Char} {position : Nat} {rest : List Char} {atoms : List Atom}
    (htrailing : rest ≠ [] → token.trailing ≠ [])
    (halike : Alike Token.word Atom.word (Token.scan [] before position rest) atoms) :
    Alike Token.word Atom.word (token :: Token.scan [] before position rest)
      (⟨word, false⟩ :: atoms) := by
  refine .cons (congrArg Word.kind hword) hword (fun next hnext _ _ hjoint => ?_) halike
  cases rest with
  | nil =>
    rw [Token.scan, List.head?_cons, Option.mem_some_iff] at hnext
    rw [← hnext] at hjoint
    exact absurd hjoint (not_mem_joints_endToken _)
  | cons d ds =>
    have hne : token.trailing.isEmpty = false := by simpa using htrailing (List.cons_ne_nil d ds)
    exact Bool.and_eq_false_imp.mpr fun h => absurd h (by simp [hne])

/-- A word at the front of a text is alike to its atoms. -/
theorem alike_scan_word {word : Word} (h : word.Form) {before : Option Char}
    (hbefore : before.any isWord = false) {gap rest : List Char}
    (hgap : ∀ c ∈ gap, isSpace c = true) (hrest : Trivia.next? rest = none)
    (hseparated : rest ≠ [] → gap ≠ []) {atoms : List Atom}
    (halike : ∀ before position, (rest ≠ [] → before.any isWord = false) →
      Alike Token.word Atom.word (Token.scan [] before position rest) atoms)
    (leading : List Trivia) (position : Nat) :
    Alike Token.word Atom.word
      (Token.scan leading before position (word.value.toList ++ (gap ++ rest)))
      (word.leaf.parts ++ atoms) := by
  cases h with
  | @single c cs hvalue hwhole hleaf =>
    obtain ⟨token, before', position', hscan, hword, htrailing, hbefore'⟩ :=
      Token.scan_whole hwhole hbefore hgap hrest hseparated leading position
    rw [hvalue, String.toList_ofList, List.cons_append, hscan, hleaf]
    refine alike_cons (hword.trans ?_) (fun hne => ?_) (halike before' position' hbefore')
    · rw [← hvalue]
    · exact fun hnil => hseparated hne (htrailing.mp hnil)
  | @double c d hvalue hc hd _ _ hleaf =>
    have hword : (some c).any isWord = false := by
      have := hc.1
      simp only [Lexeme.isSymbol, Bool.not_eq_true', Bool.or_eq_false_iff] at this
      exact this.1.1.1.1
    obtain ⟨first, middle, hfirst, hfirstWord, hnil⟩ :=
      Token.scan_symbol hc.1 hd.2.1 hd.2.2 leading before position (gap ++ rest)
    obtain ⟨second, before', position', hsecond, hsecondWord, htrailing, hbefore'⟩ :=
      Token.scan_whole (Lexeme.whole_of_isSymbol hd.1 hd.2.1) hword hgap hrest hseparated [] middle
    have htail := alike_cons hsecondWord
      (fun hne hnil => hseparated hne (htrailing.mp hnil)) (halike before' position' hbefore')
    rw [List.nil_append] at hsecond
    rw [hvalue, String.toList_ofList, List.cons_append, List.cons_append, List.nil_append, hfirst,
      hleaf]
    rw [← hsecond] at htail
    -- The second symbol has no trivia in front, nor the first one behind.
    refine .cons (congrArg Word.kind hfirstWord) hfirstWord (fun next hnext _ _ _ => ?_) htail
    have hleading := Token.leading_of_mem_scan [] _ _ _ next (List.mem_of_mem_head? hnext)
    exact Bool.and_eq_true_iff.mpr ⟨by rw [hnil]; rfl, by rw [hleading.elim id id]; rfl⟩

end Parser

/-! ### Words written out -/

/-- Words written out, each with a gap behind it. -/
def writeOut (pieces : List (Word × String)) : String :=
  String.join (pieces.map fun piece => piece.1.value ++ piece.2)

theorem toList_writeOut_cons (piece : Word × String) (pieces : List (Word × String)) :
    (writeOut (piece :: pieces)).toList =
      piece.1.value.toList ++ (piece.2.toList ++ (writeOut pieces).toList) := by
  rw [writeOut, List.map_cons, String.join_cons, String.toList_append, String.toList_append,
    List.append_assoc]
  rfl

/-- The gaps between words are made of spaces, and none of them is empty but perhaps the last. -/
structure Separated (pieces : List (Word × String)) : Prop where
  isSpace : ∀ piece ∈ pieces, ∀ c ∈ piece.2.toList, isSpace c = true
  ne_empty : ∀ piece ∈ pieces.dropLast, piece.2 ≠ ""

namespace Separated

variable {piece : Word × String} {pieces : List (Word × String)}

theorem tail (h : Separated (piece :: pieces)) : Separated pieces where
  isSpace := (List.forall_mem_cons.mp h.isSpace).2
  ne_empty := by
    cases pieces with
    | nil => nofun
    | cons next pieces => exact (List.forall_mem_cons.mp h.ne_empty).2

theorem gap_ne_nil (h : Separated (piece :: pieces)) (hne : (writeOut pieces).toList ≠ []) :
    piece.2.toList ≠ [] := by
  cases pieces with
  | nil => exact absurd rfl hne
  | cons next pieces =>
    rw [Ne, String.toList_eq_nil_iff]
    exact (List.forall_mem_cons.mp h.ne_empty).1

/-- No trivia stands in front of words that are written out. -/
theorem next?_writeOut (h : Separated pieces) (hform : ∀ piece ∈ pieces, piece.1.Form) :
    Trivia.next? (writeOut pieces).toList = none := by
  cases pieces with
  | nil => rfl
  | cons piece pieces =>
    obtain ⟨hspace, -⟩ := List.forall_mem_cons.mp h.isSpace
    rw [toList_writeOut_cons]
    exact (hform piece List.mem_cons_self).next?_append (spaced_append hspace h.gap_ne_nil)

end Separated

namespace Parser

/-- The end of the input as an atom. -/
def endAtom : Atom :=
  ⟨⟨.endToken, ""⟩, false⟩

/-- The tokens of words that are written out are alike to their atoms. -/
theorem alike_scan {pieces : List (Word × String)} (hform : ∀ piece ∈ pieces, piece.1.Form)
    (hseparated : Separated pieces) {before : Option Char}
    (hbefore : (writeOut pieces).toList ≠ [] → before.any isWord = false) (leading : List Trivia)
    (position : Nat) :
    Alike Token.word Atom.word (Token.scan leading before position (writeOut pieces).toList)
      ((pieces.flatMap fun piece => piece.1.leaf.parts) ++ [endAtom]) := by
  induction pieces generalizing before leading position with
  | nil =>
    rw [show (writeOut []).toList = [] from rfl, Token.scan]
    exact .singleton rfl rfl
  | cons piece pieces ih =>
    obtain ⟨hword, hform⟩ := List.forall_mem_cons.mp hform
    obtain ⟨hspace, -⟩ := List.forall_mem_cons.mp hseparated.isSpace
    rw [toList_writeOut_cons] at hbefore ⊢
    rw [List.flatMap_cons, List.append_assoc]
    have hne := List.append_ne_nil_of_left_ne_nil hword.toList_ne_nil
      (piece.2.toList ++ (writeOut pieces).toList)
    exact alike_scan_word hword (hbefore hne) hspace (hseparated.tail.next?_writeOut hform)
      hseparated.gap_ne_nil
      (fun before position hbefore => ih hform hseparated.tail hbefore [] position) leading position

/-- The tokens of a text that is words written out, behind spaces. -/
theorem alike_tokenize {pieces : List (Word × String)} (hform : ∀ piece ∈ pieces, piece.1.Form)
    (hseparated : Separated pieces) {front : String}
    (hfront : ∀ c ∈ front.toList, isSpace c = true) :
    Alike Token.word Atom.word (tokenize (front ++ writeOut pieces))
      ((pieces.flatMap fun piece => piece.1.leaf.parts) ++ [endAtom]) := by
  obtain ⟨hpiece, hrest⟩ :=
    Gap.scan_spaces hfront (hseparated.next?_writeOut hform) 0
  rw [tokenize, String.toList_append, hpiece, hrest]
  exact alike_scan hform hseparated (fun _ => any_isWord_getLast?_of_isSpace hfront) _ _

end Parser

/-! ### Statements written out -/

/-- No token is missing where none is missing among those of the same labels. -/
theorem Leaf.error?_eq_none_of_map_eq {β γ : Type} [Readable β] {f : Token → γ} {g : β → γ}
    {leaf : Leaf Token} {leaf' : Leaf β} (h : leaf.map f = leaf'.map g) (hexact : leaf'.Exact) :
    leaf.error? = none := by
  cases hexact with
  | plain => cases leaf <;> first | rfl | cases h
  | merged => cases leaf <;> first | rfl | cases h

/-- A program has no errors if it is equal up to labels to one that is complete. -/
theorem Parser.diagnostics_eq_nil_of_map_eq {β γ : Type} [Readable β] {f : Token → γ} {g : β → γ}
    {p : Program Token} {q : Program β} (h : p.map f = q.map g)
    (hexact : ∀ leaf ∈ q.leaves, leaf.Exact) : p.tree.diagnostics = [] := by
  refine List.filterMap_eq_nil_iff.mpr fun leaf hleaf => ?_
  have hlabels := List.mem_map_of_mem (f := Leaf.map f) hleaf
  rw [← Program.leaves_map, h, Program.leaves_map] at hlabels
  obtain ⟨leaf', hleaf', heq⟩ := List.mem_map.mp hlabels
  exact Leaf.error?_eq_none_of_map_eq heq.symm (hexact leaf' hleaf')

namespace Word

/-- Well-shaped statements have no other words than those of the grammar, if these are spelled. -/
private theorem mem_leafKinds {s : Statement Word} (hshaped : s.WellShaped Word.kind)
    (hspelled : ∀ word ∈ s.leaves, word.Spelled) : ∀ word ∈ s.leaves, word.kind ∈ leafKinds := by
  intro word hword
  refine (hshaped.fits word hword).resolve_right fun hmissing => ?_
  have hmem : TokenKind.missingToken ∉ lexicalKinds := by decide
  have htext := hspelled word hword
  rw [Spelled, hmissing, if_neg hmem] at htext
  cases htext

/-- Well-shaped statements over words are canonical over atoms. -/
private theorem canonical_map_leaf {s : Statement Word} (hshaped : s.WellShaped Word.kind)
    (hspelled : ∀ word ∈ s.leaves, word.Spelled) : (s.map leaf).Canonical where
  wellShaped := hshaped.map kind_leaf
  exact := by
    rw [Statement.leaves_map]
    refine List.forall_mem_map.mpr fun word hword => ?_
    have hkind := mem_leafKinds hshaped hspelled word hword
    refine (form_of_spelled (hspelled word hword) hkind).exact_leaf fun hmissing => ?_
    rw [hmissing] at hkind
    exact absurd hkind (by decide)

end Word

/-- **Reading what was written.** Let well-shaped statements over words be written out, which are
spelled right, in the order of the words, behind spaces and with spaces between them. The text has a
tree without errors, whose statements are those that were written. -/
theorem parse_writeOut {statements : List (Statement Word)}
    (hshaped : ∀ s ∈ statements, s.WellShaped Word.kind)
    (hspelled : ∀ s ∈ statements, ∀ word ∈ s.leaves, word.Spelled)
    {pieces : List (Word × String)}
    (hpieces : pieces.map Prod.fst = statements.flatMap Statement.leaves)
    (hseparated : Separated pieces) {front : String}
    (hfront : ∀ c ∈ front.toList, isSpace c = true) :
    ∃ tree, parse (tokenize (front ++ writeOut pieces)) = .ok tree ∧ tree.diagnostics = [] ∧
      tree.statements.map (Statement.map Token.word) = statements := by
  have hform : ∀ s ∈ statements, ∀ word ∈ s.leaves, word.Form := fun s hs word hword =>
    Word.form_of_spelled (hspelled s hs word hword)
      (Word.mem_leafKinds (hshaped s hs) (hspelled s hs) word hword)
  have hpiece : ∀ piece ∈ pieces, piece.1.Form := by
    intro piece hmem
    have hword : piece.1 ∈ statements.flatMap Statement.leaves :=
      hpieces ▸ List.mem_map_of_mem hmem
    obtain ⟨s, hs, hword⟩ := List.mem_flatMap.mp hword
    exact hform s hs _ hword
  have hcanonical : ∀ s ∈ statements.map (Statement.map Word.leaf), s.Canonical :=
    List.forall_mem_map.mpr fun s hs => Word.canonical_map_leaf (hshaped s hs) (hspelled s hs)
  have hparts : (statements.map (Statement.map Word.leaf)).flatMap Statement.parts =
      pieces.flatMap fun piece => piece.1.leaf.parts := by
    have hleaves := congrArg (List.flatMap fun word => word.leaf.parts) hpieces
    rw [List.flatMap_map, List.flatMap_assoc] at hleaves
    simp only [hleaves, List.flatMap_map, Statement.parts, Statement.leaves_map]
  obtain ⟨sentinel, hkind, hvalue, -, -, hparse⟩ :=
    exists_program_tokenize (front ++ writeOut pieces)
  have hsentinel : sentinel.word = Parser.endAtom.word := by
    rw [Token.word, hkind, hvalue]
    rfl
  have hprogram := Parser.program_append hcanonical Parser.endAtom
    (rfl : kind Parser.endAtom = .endToken)
  have hmap := Parser.map_program hkind hsentinel (Parser.alike_tokenize hpiece hseparated hfront)
  rw [← hparts, hprogram] at hmap
  refine ⟨_, hparse, Parser.diagnostics_eq_nil_of_map_eq hmap ?_, ?_⟩
  · exact List.forall_mem_append.mpr ⟨Parser.exact_of_mem_leaves hcanonical,
      List.forall_mem_singleton.mpr (.plain (by decide))⟩
  · have hself : ∀ s ∈ statements,
        s.map (fun word => Word.ofLeaf (word.leaf.map Atom.word)) = s := fun s hs =>
      Statement.map_eq_self s fun word hword => (hform s hs word hword).ofLeaf_leaf
    rw [(Parser.Program.map_tree Leaf.word_token _).1, hmap]
    simp only [Parser.Program.map, List.map_map, Function.comp_def, Statement.map_map]
    rw [List.map_congr_left hself, List.map_id']

/-- A block with an assignment, whose value begins with a sign and goes on with a quoted text, and
with a division beside a float. -/
def writtenBlock : List (Statement Word) :=
  [.block ⟨.leftCurlyBrace, "\x7b"⟩
    [.expression (.assignment ⟨.identifier, "a"⟩ ⟨.equals, "="⟩
      (.binary (.unary ⟨.minus, "-"⟩ (.identifier ⟨.identifier, "b"⟩)) ⟨.equalsEquals, "=="⟩
        (.literal ⟨.string, "\"/* c\""⟩))) ⟨.semicolon, ";"⟩,
      .initialization ⟨.identifier, "t"⟩ ⟨.identifier, "n"⟩ ⟨.equals, "="⟩
        (.binary (.literal ⟨.integer, "1"⟩) ⟨.forwardSlash, "/"⟩ (.literal ⟨.float, ".5"⟩))
        ⟨.semicolon, ";"⟩]
    ⟨.rightCurlyBrace, "\x7d"⟩]

/-- The words of the block with gaps between them and none at the end. -/
def writtenPieces : List (Word × String) :=
  (writtenBlock.flatMap Statement.leaves).zip
    ["\r\n", " ", "\t", " ", " ", " ", " ", "\n", " ", " ", " ", " ", "  ", " ", "\n", ""]

theorem parse_writeOut_writtenBlock :
    "\n" ++ writeOut writtenPieces =
        "\n\x7b\r\na =\t- b == \"/* c\" ;\nt n = 1 /  .5 ;\n\x7d" ∧
      (∀ s ∈ writtenBlock, s.WellShaped Word.kind) ∧
      (∀ s ∈ writtenBlock, ∀ word ∈ s.leaves, word.Spelled) ∧
      writtenPieces.map Prod.fst = writtenBlock.flatMap Statement.leaves ∧
      Separated writtenPieces ∧ (∀ c ∈ "\n".toList, isSpace c = true) ∧
      ∃ tree, parse (tokenize ("\n" ++ writeOut writtenPieces)) = .ok tree ∧
        tree.diagnostics = [] ∧ tree.statements.map (Statement.map Token.word) = writtenBlock := by
  have hshaped : ∀ s ∈ writtenBlock, s.WellShaped Word.kind := by
    refine List.forall_mem_singleton.mpr (.block rfl ?_ (.inl (by decide)))
    refine List.forall_mem_cons.mpr ⟨?_, List.forall_mem_singleton.mpr ?_⟩
    · refine .expression (.assignment rfl rfl (.binary (by decide) ?_ ⟨nofun, nofun⟩ ?_ nofun))
        (.inl (by decide))
      · exact .unary (by decide) (.identifier rfl) rfl
      · exact .literal (.inl (by decide))
    · refine .initialization rfl (.inl (by decide)) rfl ?_ (.inl (by decide))
      exact .binary (by decide) (.literal (.inl (by decide))) ⟨nofun, nofun⟩
        (.literal (.inl (by decide))) nofun
  have hspelled : ∀ s ∈ writtenBlock, ∀ word ∈ s.leaves, word.Spelled := by decide +kernel
  have hpieces : writtenPieces.map Prod.fst = writtenBlock.flatMap Statement.leaves := by
    decide +kernel
  have hspaces : ∀ piece ∈ writtenPieces, piece.2.toList.all isSpace = true := by decide +kernel
  have hseparated : Separated writtenPieces :=
    ⟨fun piece hpiece => List.all_eq_true.mp (hspaces piece hpiece), by decide +kernel⟩
  have hfront : ∀ c ∈ "\n".toList, isSpace c = true := List.all_eq_true.mp (by decide +kernel)
  exact ⟨by decide +kernel, hshaped, hspelled, hpieces, hseparated, hfront,
    parse_writeOut hshaped hspelled hpieces hseparated hfront⟩

end LosslessSyntax
