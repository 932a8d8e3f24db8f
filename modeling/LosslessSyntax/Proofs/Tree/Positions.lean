import LosslessSyntax.Proofs.Tree.Resemblance
import LosslessSyntax.Proofs.Tree.RoundTrip
import LosslessSyntax.Proofs.Tree.Validity

/-!
# Trees over positions

What the parser makes of a stream can be said without its tokens: it is a program over their
positions, counted from zero, where the sentinel stands at the position behind the last token. The
program of the stream is obtained from it by putting the tokens back (`program_eq_map_getD`), since
a token with its position is read in the way of the token.

Two streams of equal kinds whose neighbours touch at the same places, as far as their kinds stand
side by side in a compound operator, have one and the same program over positions. Values, spans and
all other trivia have no part in the tree but to stand in it (`parse_eq_of_kinds`).
-/

namespace LosslessSyntax

/-- A token with its position is read as the token is. -/
instance {α : Type} [Readable α] : Readable (α × Nat) where
  kind placed := kind placed.1
  touches placed next := touches placed.1 next.1

/-- Changes the token that was found. -/
def Unexpected.map {α β : Type} (f : α → β) (unexpected : Unexpected α) : Unexpected β :=
  ⟨unexpected.expected, f unexpected.found⟩

/-! ### Changing tokens twice -/

namespace Leaf

variable {α β γ : Type}

theorem map_map (g : β → γ) (f : α → β) (leaf : Leaf α) :
    (leaf.map f).map g = leaf.map fun token => g (f token) := by
  cases leaf <;> simp [map]

/-- A change that leaves the tokens of a leaf as they are leaves the leaf as it is. -/
theorem map_eq_self {f : α → α} {leaf : Leaf α} (h : ∀ token ∈ leaf.parts, f token = token) :
    leaf.map f = leaf := by
  cases leaf with
  | plain token => rw [map, h token List.mem_cons_self]
  | missing expected token => rw [map, h token List.mem_cons_self]
  | merged operator first others =>
    obtain ⟨hfirst, hothers⟩ := List.forall_mem_cons.mp h
    rw [map, hfirst, List.map_congr_left hothers, List.map_id']

theorem unexpected?_map (f : α → β) (leaf : Leaf α) :
    (leaf.map f).unexpected? = leaf.unexpected?.map (Unexpected.map f) := by
  cases leaf <;> rfl

/-- The kind of a leaf over kinds. -/
def kindOfKinds : Leaf TokenKind → TokenKind
  | plain kind => kind
  | missing _ _ => .missingToken
  | merged operator _ _ => operator

theorem kind_token_eq_kindOfKinds (leaf : Leaf Token) :
    leaf.token.kind = (leaf.map Token.kind).kindOfKinds := by
  cases leaf <;> rfl

end Leaf

namespace Parser

namespace Program

variable {α β γ : Type}

theorem map_map (g : β → γ) (f : α → β) (p : Program α) :
    (p.map f).map g = p.map fun token => g (f token) := by
  simp only [map, List.map_map, Function.comp_def, Statement.map_map, Leaf.map_map]

/-- A change that leaves the tokens of a program as they are leaves the program as it is. -/
theorem map_eq_self {f : α → α} {p : Program α}
    (h : ∀ token ∈ p.leaves.flatMap Leaf.parts, f token = token) : p.map f = p := by
  obtain ⟨statements, closing⟩ := p
  have hleaf : ∀ leaf ∈ leaves ⟨statements, closing⟩, leaf.map f = leaf := fun leaf hleaf =>
    Leaf.map_eq_self fun token htoken => h token (List.mem_flatMap.mpr ⟨leaf, hleaf, htoken⟩)
  obtain ⟨hstatements, hclosing⟩ := List.forall_mem_append.mp hleaf
  have hmap : ∀ s ∈ statements, Statement.map (Leaf.map f) s = s := fun s hs =>
    Statement.map_eq_self s fun leaf hleaf =>
      hstatements leaf (List.mem_flatMap.mpr ⟨s, hs, hleaf⟩)
  rw [map, List.map_congr_left hmap, List.map_id', List.forall_mem_singleton.mp hclosing]

theorem parts_map (f : α → β) (p : Program α) :
    (p.map f).leaves.flatMap Leaf.parts = (p.leaves.flatMap Leaf.parts).map f := by
  rw [leaves_map, List.flatMap_map, List.map_flatMap]
  simp only [Leaf.parts_map]

/-- What is expected and found at the errors of a tree, and what else a label says of the tokens
there, is said by the program over labels. -/
theorem map_diagnostics_tree {υ : Type} (f : Token → γ) {show' : ParseError → υ}
    (shown : Unexpected γ → υ)
    (h : ∀ unexpected : Unexpected Token, show' unexpected.error = shown (unexpected.map f))
    (p : Program Token) :
    p.tree.diagnostics.map show' =
      ((p.map f).leaves.filterMap Leaf.unexpected?).map shown := by
  rw [tree, leaves_map, List.filterMap_map, List.map_filterMap, List.map_filterMap]
  refine List.filterMap_congr fun leaf _ => ?_
  rw [Function.comp_apply, Leaf.unexpected?_map, Leaf.error?, Option.map_map, Option.map_map]
  exact congrArg (Option.map · _) (funext h)

end Program

/-! ### Streams of equal kinds -/

/-- The pairs of neighbours in a stream. -/
def neighbours {α : Type} (ts : List α) : List (α × α) :=
  ts.zip ts.tail

/-- Two streams of equal kinds and equal labels are alike, if their neighbours touch at the same
places, as far as the kinds stand side by side in a compound operator. -/
theorem alike_of_forall₂ {α β γ : Type} [Readable α] [Readable β] {f : α → γ} {g : β → γ}
    {ts : List α} {us : List β} (hkinds : ts.map kind = us.map kind) (hlabels : ts.map f = us.map g)
    (htouches : List.Forall₂ (fun p q => (kind p.1, kind p.2) ∈ joints →
      touches p.1 p.2 = touches q.1 q.2) (neighbours ts) (neighbours us)) : Alike f g ts us := by
  induction ts generalizing us with
  | nil =>
    obtain rfl : us = [] := List.map_eq_nil_iff.mp hkinds.symm
    exact .nil
  | cons t ts ih =>
    obtain ⟨u, us, rfl⟩ : ∃ u us', us = u :: us' := by
      cases us with
      | nil => cases hkinds
      | cons u us => exact ⟨u, us, rfl⟩
    rw [List.map_cons, List.map_cons, List.cons.injEq] at hkinds hlabels
    cases ts with
    | nil =>
      obtain rfl : us = [] := List.map_eq_nil_iff.mp hkinds.2.symm
      exact .singleton hkinds.1 hlabels.1
    | cons t' ts =>
      cases us with
      | nil => cases hkinds.2
      | cons u' us =>
        obtain ⟨hpair, htouches⟩ := List.forall₂_cons.mp htouches
        refine .cons hkinds.1 hlabels.1 ?_ (ih hkinds.2 hlabels.2 htouches)
        rintro _ ⟨⟩ _ ⟨⟩ hjoint
        exact hpair hjoint

/-! ### Programs over positions -/

section

variable {α β : Type} [Readable α] [Readable β]

/-- A program does not change with the tokens, as long as they are read in the same way. -/
theorem map_program_of_kind {h : α → β} (hkind : ∀ t, kind (h t) = kind t)
    (htouches : ∀ t u, touches (h t) (h u) = touches t u) (s : α) (ts : List α) :
    (program s ts).map h = program (h s) (ts.map h) := by
  have halike : Alike h id ts (ts.map h) := by
    induction ts with
    | nil => exact .nil
    | cons t ts ih =>
      refine .cons (hkind t).symm rfl (fun t' ht' u' hu' _ => ?_) ih
      rw [List.head?_map, Option.mem_def.mp ht', Option.map_some] at hu'
      rw [← Option.some.inj hu', htouches]
  have hmap : (program s ts).map h = (program (h s) (ts.map h)).map id :=
    map_program (hkind s).symm rfl halike
  rwa [Program.map_eq_self (f := id) fun _ _ => rfl] at hmap

/-- Streams that are alike are alike with the positions of their tokens for labels. -/
theorem Alike.zipIdx {γ : Type} {f : α → γ} {g : β → γ} {ts : List α} {us : List β}
    (h : Alike f g ts us) (n : Nat) : Alike Prod.snd Prod.snd (ts.zipIdx n) (us.zipIdx n) := by
  induction h generalizing n with
  | nil => exact .nil
  | cons hkind _ htouches halike ih =>
    refine .cons hkind rfl ?_ (ih (n + 1))
    cases halike with
    | nil => nofun
    | cons =>
      rintro _ ⟨⟩ _ ⟨⟩ hjoint
      exact htouches _ rfl _ rfl hjoint

omit [Readable α] in
private theorem map_takeD {γ : Type} (f : α → γ) (n : Nat) (ts : List α) (s : α) :
    (ts.takeD n s).map f = (ts.map f).takeD n (f s) := by
  induction n generalizing ts with
  | zero => rfl
  | succ n ih => cases ts <;> simp [ih]

/-- The program of the positions in a stream. The sentinel has the position behind the last token.
-/
def shape (s : α) (ts : List α) : Program Nat :=
  (program (s, ts.length) ts.zipIdx).map Prod.snd

/-- Positions are taken in order, as far as the program of the stream goes. -/
theorem parts_shape (s : α) (ts : List α) :
    ∃ taken, (shape s ts).leaves.flatMap Leaf.parts =
      (List.range ts.length).takeD taken ts.length := by
  refine ⟨Parser.taken (s, ts.length) ts.zipIdx, ?_⟩
  rw [shape, Program.parts_map, (took_program (s, ts.length) ts.zipIdx).parts_eq, map_takeD,
    List.zipIdx_map_snd, List.range_eq_range']

omit [Readable α] in
/-- Each position that a program takes is that of the token taken there, or that of the sentinel. -/
private theorem getD_of_mem_takeD {s : α} {ts : List α} {n : Nat} {placed : α × Nat}
    (h : placed ∈ ts.zipIdx.takeD n (s, ts.length)) : ts.getD placed.2 s = placed.1 := by
  rcases mem_or_eq_of_mem_takeD h with hmem | rfl
  · rw [List.getD_eq_getElem?_getD, List.mk_mem_zipIdx_iff_getElem?.mp hmem, Option.getD_some]
  · rw [List.getD_eq_getElem?_getD, List.getElem?_eq_none (Nat.le_refl _), Option.getD_none]

/-- The program of a stream is that of its positions, with the tokens put back. -/
theorem program_eq_map_getD (s : α) (ts : List α) :
    program s ts = (shape s ts).map fun position => ts.getD position s := by
  have hfst : (program (s, ts.length) ts.zipIdx).map Prod.fst = program s ts := by
    have hmap := map_program_of_kind (h := fun placed : α × Nat => placed.1) (fun _ => rfl)
      (fun _ _ => rfl) (s, ts.length) ts.zipIdx
    rwa [List.zipIdx_map_fst] at hmap
  have hsame : (program (s, ts.length) ts.zipIdx).map (fun placed => (ts.getD placed.2 s, placed.2))
      = program (s, ts.length) ts.zipIdx := by
    refine Program.map_eq_self fun placed hplaced => ?_
    rw [(took_program (s, ts.length) ts.zipIdx).parts_eq] at hplaced
    rw [getD_of_mem_takeD hplaced]
  calc program s ts
    _ = ((program (s, ts.length) ts.zipIdx).map
          fun placed => (ts.getD placed.2 s, placed.2)).map Prod.fst := by rw [hsame, hfst]
    _ = (shape s ts).map fun position => ts.getD position s := by
      rw [shape, Program.map_map, Program.map_map]

/-- Streams that are alike have the same program over positions. -/
theorem Alike.shape_eq {γ : Type} {f : α → γ} {g : β → γ} {s : α} {s' : β} {ts : List α}
    {us : List β} (h : Alike f g ts us) (hs : kind s = kind s') : shape s ts = shape s' us := by
  have hlength : ts.length = us.length := by
    simpa using congrArg List.length h.map_kind_eq
  exact map_program (f := Prod.snd) (g := Prod.snd) hs hlength (h.zipIdx 0)

end

end Parser

/-! ### Kinds and neighbours decide -/

/-- **Nothing but kinds and neighbours is seen.** Let two streams that are parsed have equal kinds,
and let their neighbours touch at the same places, as far as their kinds stand side by side in a
compound operator. Both trees are then made of the same program over the positions of the tokens,
taken in order, by putting the tokens of either stream at their positions. So the trees have the
same shape and the same kinds, and the same kinds are expected and found at their errors. -/
theorem parse_eq_of_kinds {tokens others : List Token} {tree tree' : SyntaxTree}
    (hkinds : tokens.map Token.kind = others.map Token.kind)
    (htouches : List.Forall₂ (fun p q => (p.1.kind, p.2.kind) ∈ Parser.joints →
      p.1.touches p.2 = q.1.touches q.2) (Parser.neighbours tokens) (Parser.neighbours others))
    (h : parse tokens = .ok tree) (h' : parse others = .ok tree') :
    (∃ (shape : Parser.Program Nat) (taken : Nat) (sentinel sentinel' : Token),
      StandsBehind tokens sentinel ∧ StandsBehind others sentinel' ∧
      shape.leaves.flatMap Leaf.parts = (List.range tokens.length).takeD taken tokens.length ∧
      tree = (shape.map fun position => tokens.getD position sentinel).tree ∧
      tree' = (shape.map fun position => others.getD position sentinel').tree) ∧
      tree.statements.map (Statement.map Token.kind) =
        tree'.statements.map (Statement.map Token.kind) ∧
      tree.endOfFile.kind = tree'.endOfFile.kind ∧
      tree.diagnostics.map (fun error => (error.expected, error.found)) =
        tree'.diagnostics.map fun error => (error.expected, error.found) := by
  obtain ⟨sentinel, hsentinel, rfl⟩ := exists_program_of_parse h
  obtain ⟨sentinel', hsentinel', rfl⟩ := exists_program_of_parse h'
  have hbehind := standsBehind_of_sentinelOf hsentinel
  have hbehind' := standsBehind_of_sentinelOf hsentinel'
  have hends : kind sentinel = kind sentinel' := hbehind.kind_eq.trans hbehind'.kind_eq.symm
  have halike : Parser.Alike Token.kind Token.kind tokens others :=
    Parser.alike_of_forall₂ hkinds hkinds htouches
  have hmap : (Parser.program sentinel tokens).map Token.kind =
      (Parser.program sentinel' others).map Token.kind := Parser.map_program hends hends halike
  obtain ⟨taken, hparts⟩ := Parser.parts_shape sentinel tokens
  refine ⟨⟨Parser.shape sentinel tokens, taken, sentinel, sentinel', hbehind, hbehind', hparts,
    congrArg Parser.Program.tree (Parser.program_eq_map_getD sentinel tokens), ?_⟩, ?_, ?_, ?_⟩
  · rw [halike.shape_eq hends]
    exact congrArg Parser.Program.tree (Parser.program_eq_map_getD sentinel' others)
  · rw [(Parser.Program.map_tree Leaf.kind_token_eq_kindOfKinds _).1, hmap,
      (Parser.Program.map_tree Leaf.kind_token_eq_kindOfKinds _).1]
  · rw [(Parser.Program.map_tree Leaf.kind_token_eq_kindOfKinds _).2, hmap,
      (Parser.Program.map_tree Leaf.kind_token_eq_kindOfKinds _).2]
  · let shown (unexpected : Unexpected TokenKind) := (unexpected.expected, unexpected.found)
    rw [Parser.Program.map_diagnostics_tree Token.kind shown (fun _ => rfl), hmap,
      Parser.Program.map_diagnostics_tree Token.kind shown (fun _ => rfl)]

/-- Two equalities that lack their right operands, with other names and other spaces. -/
theorem parse_eq_of_kinds_unfinishedEqualities :
    ∃ tree tree', parse (tokenize "a==;") = .ok tree ∧
      parse (tokenize "/* b */ bc == ; // d") = .ok tree' ∧
      (tokenize "a==;").map Token.kind = (tokenize "/* b */ bc == ; // d").map Token.kind ∧
      List.Forall₂ (fun p q => (p.1.kind, p.2.kind) ∈ Parser.joints →
          p.1.touches p.2 = q.1.touches q.2)
        (Parser.neighbours (tokenize "a==;"))
        (Parser.neighbours (tokenize "/* b */ bc == ; // d")) ∧
      (∃ (shape : Parser.Program Nat) (taken : Nat) (sentinel sentinel' : Token),
        StandsBehind (tokenize "a==;") sentinel ∧
        StandsBehind (tokenize "/* b */ bc == ; // d") sentinel' ∧
        shape.leaves.flatMap Leaf.parts =
          (List.range (tokenize "a==;").length).takeD taken (tokenize "a==;").length ∧
        tree = (shape.map fun position => (tokenize "a==;").getD position sentinel).tree ∧
        tree' = (shape.map fun position =>
          (tokenize "/* b */ bc == ; // d").getD position sentinel').tree) ∧
      tree.statements.map (Statement.map Token.kind) =
        tree'.statements.map (Statement.map Token.kind) ∧
      tree.endOfFile.kind = tree'.endOfFile.kind ∧
      tree.diagnostics.map (fun error => (error.expected, error.found)) =
        tree'.diagnostics.map fun error => (error.expected, error.found) := by
  obtain ⟨tree, h⟩ := exists_parse_tokenize "a==;"
  obtain ⟨tree', h'⟩ := exists_parse_tokenize "/* b */ bc == ; // d"
  have hkinds : (tokenize "a==;").map Token.kind =
      (tokenize "/* b */ bc == ; // d").map Token.kind := by decide +kernel
  have htouches : List.Forall₂ (fun p q => (p.1.kind, p.2.kind) ∈ Parser.joints →
        p.1.touches p.2 = q.1.touches q.2)
      (Parser.neighbours (tokenize "a==;"))
      (Parser.neighbours (tokenize "/* b */ bc == ; // d")) := by
    decide +kernel
  exact ⟨tree, tree', h, h', hkinds, htouches, parse_eq_of_kinds hkinds htouches h h'⟩

end LosslessSyntax
