import LosslessSyntax.Proofs.Token.Dump
import LosslessSyntax.Proofs.Tree.Conservation
import LosslessSyntax.Tree.Dump

/-!
# The tree dump can be read

The rows of a dump can be read off its lines, with the depth of each: a label does not begin with a
blank and is made of letters, and what stands behind it can be read
(`Outline.map_withoutTrivia_of_render_eq`). And the tree can be read off its rows. Their captions,
that is their labels and their tokens, are enough for this (`Expression.captions_append_inj`,
`Statement.captions_append_inj`): a caption says which parts follow, and the statements in a block
go on up to the first token that stands where a statement could begin.

So trees with the same dump are the same but for the trivia of their tokens and their errors
(`map_withoutTrivia_of_dumpTree_eq`).
-/

namespace LosslessSyntax

/-! ### Captions -/

/-- What a row says apart from where it stands. -/
inductive Caption (τ : Type)
  /-- A node by its name. -/
  | node (name : String)
  /-- A token in its role. -/
  | token (role : String) (item : τ)

namespace Caption

variable {τ υ : Type}

/-- Changes the token. -/
def map (f : τ → υ) : Caption τ → Caption υ
  | node name => node name
  | token role item => token role (f item)

/-- The name of the node, or the role of the token. -/
def label : Caption τ → String
  | node name => name
  | token role _ => role

end Caption

namespace Expression

variable {τ υ : Type}

/-- The captions of an expression in the order of its rows. -/
def captions : Expression τ → List (Caption τ)
  | literal value => [.token "LiteralExpression" value]
  | identifier name => [.token "IdentifierExpression" name]
  | assignment name equals value =>
    .node "AssignmentExpression" :: .token "identifier" name :: .token "equals" equals ::
      value.captions
  | binary left operator right =>
    .node "BinaryExpression" :: (left.captions ++ .token "operator" operator :: right.captions)
  | unary operator operand =>
    .node "UnaryExpression" :: .token "operator" operator :: operand.captions
  | parenthesized opening inner closing =>
    .node "ParenthesizedExpression" :: .token "open" opening ::
      (inner.captions ++ [.token "close" closing])

theorem captions_map (f : τ → υ) (e : Expression τ) :
    (e.map f).captions = e.captions.map (Caption.map f) := by
  induction e <;> simp [map, captions, Caption.map, *]

/-- An expression and what is behind it are known from the captions. -/
theorem captions_append_inj {e other : Expression τ} {rest rest' : List (Caption τ)}
    (h : e.captions ++ rest = other.captions ++ rest') : e = other ∧ rest = rest' := by
  -- The first caption tells one kind of expression from another.
  induction e generalizing other rest rest' with
  | literal value =>
    cases other with
    | literal => simpa [captions] using h
    | _ => simp [captions] at h
  | identifier name =>
    cases other with
    | identifier => simpa [captions] using h
    | _ => simp [captions] at h
  | assignment name equals value ih =>
    cases other with
    | assignment =>
      simp only [captions, List.cons_append, List.cons.injEq, Caption.token.injEq, true_and] at h
      obtain ⟨hname, hequals, hbelow⟩ := h
      obtain ⟨hvalue, hrest⟩ := ih hbelow
      exact ⟨by rw [hname, hequals, hvalue], hrest⟩
    | _ => simp [captions] at h
  | binary left operator right ihleft ihright =>
    cases other with
    | binary =>
      simp only [captions, List.cons_append, List.append_assoc, List.cons.injEq, true_and] at h
      obtain ⟨hleft, hbehind⟩ := ihleft h
      simp only [List.cons.injEq, Caption.token.injEq, true_and] at hbehind
      obtain ⟨hright, hrest⟩ := ihright hbehind.2
      exact ⟨by rw [hleft, hbehind.1, hright], hrest⟩
    | _ => simp [captions] at h
  | unary operator operand ih =>
    cases other with
    | unary =>
      simp only [captions, List.cons_append, List.cons.injEq, Caption.token.injEq, true_and] at h
      obtain ⟨hoperator, hbelow⟩ := h
      obtain ⟨hoperand, hrest⟩ := ih hbelow
      exact ⟨by rw [hoperator, hoperand], hrest⟩
    | _ => simp [captions] at h
  | parenthesized opening inner closing ih =>
    cases other with
    | parenthesized =>
      simp only [captions, List.cons_append, List.append_assoc, List.cons.injEq,
        Caption.token.injEq, true_and] at h
      obtain ⟨hopening, hbelow⟩ := h
      obtain ⟨hinner, hbehind⟩ := ih hbelow
      simp only [List.nil_append, List.cons.injEq, Caption.token.injEq, true_and] at hbehind
      exact ⟨by rw [hopening, hinner, hbehind.1], hbehind.2⟩
    | _ => simp [captions] at h

end Expression

namespace Statement

variable {τ υ : Type}

mutual

/-- The captions of a statement in the order of its rows. -/
def captions : Statement τ → List (Caption τ)
  | expression value semicolon =>
    .node "ExpressionStatement" :: (value.captions ++ [.token "semicolon" semicolon])
  | block opening body closing =>
    .node "BlockStatement" :: .token "open" opening ::
      (captionsOfAll body ++ [.token "close" closing])
  | declaration type name semicolon =>
    [.node "VariableDeclarationStatement", .token "type" type, .token "identifier" name,
      .token "semicolon" semicolon]
  | initialization type name equals value semicolon =>
    .node "VariableInitializationStatement" :: .token "type" type ::
      ((Expression.assignment name equals value).captions ++ [.token "semicolon" semicolon])

/-- The captions of some statements, one after the other. -/
def captionsOfAll : List (Statement τ) → List (Caption τ)
  | [] => []
  | statement :: others => captions statement ++ captionsOfAll others

end

mutual

theorem captions_map (f : τ → υ) :
    (s : Statement τ) → (s.map f).captions = s.captions.map (Caption.map f)
  | expression value semicolon => by simp [map, captions, Caption.map, Expression.captions_map]
  | block opening body closing => by simp [map, captions, Caption.map, captionsOfAll_mapAll f body]
  | declaration type name semicolon => rfl
  | initialization type name equals value semicolon => by
    simp [map, captions, Caption.map, Expression.captions, Expression.captions_map]

theorem captionsOfAll_mapAll (f : τ → υ) : (statements : List (Statement τ)) →
    captionsOfAll (mapAll f statements) = (captionsOfAll statements).map (Caption.map f)
  | [] => rfl
  | statement :: others => by
    simp [mapAll, captionsOfAll, captions_map f statement, captionsOfAll_mapAll f others]

end

/-- A statement is a node, hence its captions do not begin with a token. -/
theorem captions_append_ne_token (s : Statement τ) {role : String} {item : τ}
    {others rest : List (Caption τ)} : .token role item :: rest ≠ s.captions ++ others := by
  cases s <;> simp [captions]

mutual

/-- A statement and what is behind it are known from the captions. -/
theorem captions_append_inj {rest rest' : List (Caption τ)} : (s : Statement τ) →
    {other : Statement τ} → s.captions ++ rest = other.captions ++ rest' → s = other ∧ rest = rest'
  | expression value semicolon, other, h => by
    cases other with
    | expression =>
      simp only [captions, List.cons_append, List.append_assoc, List.cons.injEq, true_and] at h
      obtain ⟨hvalue, hbehind⟩ := Expression.captions_append_inj h
      simp only [List.nil_append, List.cons.injEq, Caption.token.injEq, true_and] at hbehind
      exact ⟨by rw [hvalue, hbehind.1], hbehind.2⟩
    | _ => simp [captions] at h
  | block opening body closing, other, h => by
    cases other with
    | block =>
      simp only [captions, List.cons_append, List.append_assoc, List.cons.injEq,
        Caption.token.injEq, true_and] at h
      obtain ⟨hopening, hbelow⟩ := h
      obtain ⟨hbody, hbehind⟩ := captionsOfAll_append_inj body hbelow
      simp only [List.cons.injEq, Caption.token.injEq, true_and] at hbehind
      exact ⟨by rw [hopening, hbody, hbehind.1], hbehind.2⟩
    | _ => simp [captions] at h
  | declaration type name semicolon, other, h => by
    cases other with
    | declaration => simpa [captions, and_assoc] using h
    | _ => simp [captions] at h
  | initialization type name equals value semicolon, other, h => by
    cases other with
    | initialization =>
      simp only [captions, List.cons_append, List.append_assoc, List.cons.injEq,
        Caption.token.injEq, true_and] at h
      obtain ⟨htype, hbelow⟩ := h
      obtain ⟨hassignment, hbehind⟩ := Expression.captions_append_inj hbelow
      obtain ⟨hname, hequals, hvalue⟩ := Expression.assignment.inj hassignment
      simp only [List.nil_append, List.cons.injEq, Caption.token.injEq, true_and] at hbehind
      exact ⟨by rw [htype, hname, hequals, hvalue, hbehind.1], hbehind.2⟩
    | _ => simp [captions] at h

/-- Some statements are known from the captions up to a token behind them. -/
theorem captionsOfAll_append_inj {role role' : String} {item item' : τ}
    {rest rest' : List (Caption τ)} : (statements : List (Statement τ)) →
    {others : List (Statement τ)} →
      captionsOfAll statements ++ .token role item :: rest =
        captionsOfAll others ++ .token role' item' :: rest' →
      statements = others ∧ Caption.token role item :: rest = .token role' item' :: rest'
  | [], [], h => ⟨rfl, h⟩
  | [], other :: others, h => by
    rw [captionsOfAll, captionsOfAll, List.append_assoc] at h
    exact absurd h other.captions_append_ne_token
  | statement :: others, [], h => by
    rw [captionsOfAll, captionsOfAll, List.append_assoc] at h
    exact absurd h.symm statement.captions_append_ne_token
  | statement :: others, other :: more, h => by
    rw [captionsOfAll, captionsOfAll, List.append_assoc, List.append_assoc] at h
    obtain ⟨hstatement, hbehind⟩ := captions_append_inj statement h
    obtain ⟨hothers, hrest⟩ := captionsOfAll_append_inj others hbehind
    exact ⟨by rw [hstatement, hothers], hrest⟩

end

end Statement

/-! ### The captions of an outline -/

/-- What a row says apart from where it stands. -/
def Row.caption : Row → Caption Token
  | node name _ => .node name
  | token role item => .token role item

namespace Outline

/-- The captions of an outline in order. -/
def captions (outline : Outline) : List (Caption Token) :=
  outline.map fun row => row.2.caption

@[simp] theorem captions_append (outline others : Outline) :
    captions (outline ++ others) = outline.captions ++ others.captions :=
  List.map_append

@[simp] theorem captions_node (depth : Nat) (name : String) (span : Span) (children : Outline) :
    (node depth name span children).captions = .node name :: children.captions :=
  rfl

@[simp] theorem captions_token (depth : Nat) (role : String) (item : Token) :
    (token depth role item).captions = [.token role item] :=
  rfl

end Outline

theorem captions_of_assignmentOutline {depth : Nat} {name equals : Token}
    {value : Expression Token} {children rows : Outline}
    (h : assignmentOutline depth name equals value children = .ok rows)
    (hchildren : children.captions = value.captions) :
    rows.captions = (Expression.assignment name equals value).captions := by
  obtain ⟨inner, -, h⟩ := exists_of_bind_eq_ok h
  obtain ⟨span, -, h⟩ := exists_of_bind_eq_ok h
  cases h
  simp [hchildren, Expression.captions]

/-- The outline of an expression has the captions of the expression. -/
theorem Expression.captions_of_outline {e : Expression Token} {depth : Nat} {rows : Outline}
    (h : e.outline depth = .ok rows) : rows.captions = e.captions := by
  induction e generalizing depth rows with
  | literal value =>
    cases h
    rfl
  | identifier name =>
    cases h
    rfl
  | assignment name equals value ih =>
    obtain ⟨inner, hinner, h⟩ := exists_of_bind_eq_ok h
    exact captions_of_assignmentOutline h (ih hinner)
  | binary left operator right ihleft ihright =>
    obtain ⟨span, -, h⟩ := exists_of_bind_eq_ok h
    obtain ⟨outer, houter, h⟩ := exists_of_bind_eq_ok h
    obtain ⟨inner, hinner, h⟩ := exists_of_bind_eq_ok h
    cases h
    simp [ihleft houter, ihright hinner, captions]
  | unary operator operand ih =>
    obtain ⟨span, -, h⟩ := exists_of_bind_eq_ok h
    obtain ⟨inner, hinner, h⟩ := exists_of_bind_eq_ok h
    cases h
    simp [ih hinner, captions]
  | parenthesized opening inner closing ih =>
    obtain ⟨span, -, h⟩ := exists_of_bind_eq_ok h
    obtain ⟨rows, hrows, h⟩ := exists_of_bind_eq_ok h
    cases h
    simp [ih hrows, captions]

namespace Statement

mutual

/-- The outline of a statement has the captions of the statement. -/
theorem captions_of_outline {depth : Nat} {rows : Outline} : (s : Statement Token) →
    s.outline depth = .ok rows → rows.captions = s.captions
  | expression value semicolon, h => by
    obtain ⟨span, -, h⟩ := exists_of_bind_eq_ok h
    obtain ⟨inner, hinner, h⟩ := exists_of_bind_eq_ok h
    cases h
    simp [Expression.captions_of_outline hinner, captions]
  | block opening body closing, h => by
    obtain ⟨span, -, h⟩ := exists_of_bind_eq_ok h
    obtain ⟨inner, hinner, h⟩ := exists_of_bind_eq_ok h
    cases h
    simp [captions_of_outlineOfAll body hinner, captions]
  | declaration type name semicolon, h => by
    obtain ⟨span, -, h⟩ := exists_of_bind_eq_ok h
    cases h
    rfl
  | initialization type name equals value semicolon, h => by
    obtain ⟨span, -, h⟩ := exists_of_bind_eq_ok h
    obtain ⟨inner, hinner, h⟩ := exists_of_bind_eq_ok h
    obtain ⟨outer, houter, h⟩ := exists_of_bind_eq_ok h
    cases h
    simp [captions_of_assignmentOutline houter (Expression.captions_of_outline hinner), captions]

/-- The outline of some statements has the captions of the statements. -/
theorem captions_of_outlineOfAll {depth : Nat} {rows : Outline} :
    (statements : List (Statement Token)) → outlineOfAll depth statements = .ok rows →
      rows.captions = captionsOfAll statements
  | [], h => by
    cases h
    rfl
  | statement :: others, h => by
    obtain ⟨inner, hinner, h⟩ := exists_of_bind_eq_ok h
    obtain ⟨below, hbelow, h⟩ := exists_of_bind_eq_ok h
    cases h
    rw [Outline.captions_append, captions_of_outline statement hinner,
      captions_of_outlineOfAll others hbelow, captionsOfAll]

end

end Statement

/-! ### Labels -/

/-- The labels of rows: the names of nodes, and the roles of tokens. -/
def rowLabels : List String :=
  ["ExpressionStatement", "BlockStatement", "VariableDeclarationStatement",
    "VariableInitializationStatement", "LiteralExpression", "IdentifierExpression",
    "AssignmentExpression", "BinaryExpression", "UnaryExpression", "ParenthesizedExpression",
    "type", "identifier", "equals", "operator", "open", "close", "semicolon", "end"]

/-- A label is made of letters, and has some. -/
theorem legible_of_mem_rowLabels : ∀ label ∈ rowLabels,
    (∀ c ∈ label.toList, c.isAlpha = true) ∧ label.toList ≠ [] := by
  have hall : ∀ label ∈ rowLabels, label.toList.all Char.isAlpha = true ∧ label.toList ≠ [] := by
    decide +kernel
  exact fun label hlabel => ⟨List.all_eq_true.mp (hall label hlabel).1, (hall label hlabel).2⟩

section

variable {τ : Type}

theorem Expression.map_label_captions_subset (e : Expression τ) :
    e.captions.map Caption.label ⊆ rowLabels := by
  induction e <;>
    simp only [captions, List.map_cons, List.map_append, List.map_nil, Caption.label,
      List.cons_subset, List.append_subset, List.nil_subset, and_true, true_and, *] <;>
    decide

mutual

theorem Statement.map_label_captions_subset (s : Statement τ) :
    s.captions.map Caption.label ⊆ rowLabels := by
  cases s <;>
    simp only [captions, List.map_cons, List.map_append, List.map_nil, Caption.label,
      List.cons_subset, List.append_subset, List.nil_subset, and_true, true_and,
      Expression.map_label_captions_subset, map_label_captionsOfAll_subset] <;>
    decide

theorem Statement.map_label_captionsOfAll_subset : (statements : List (Statement τ)) →
    (Statement.captionsOfAll statements).map Caption.label ⊆ rowLabels
  | [] => List.nil_subset _
  | statement :: others => by
    rw [Statement.captionsOfAll, List.map_append]
    exact List.append_subset.mpr ⟨Statement.map_label_captions_subset statement,
      Statement.map_label_captionsOfAll_subset others⟩

end

end

/-! ### The lines of an outline -/

/-- A row with its token without trivia. -/
def Row.withoutTrivia : Row → Row
  | node name span => node name span
  | token role item => token role item.withoutTrivia

theorem Row.caption_withoutTrivia (row : Row) :
    row.withoutTrivia.caption = row.caption.map Token.withoutTrivia := by
  cases row <;> rfl

section

variable {plain : Char → Bool} {rest rest' : List Char}

/-- What stands behind the label of a row. -/
def Row.afterLabel (plain : Char → Bool) : Row → List Char
  | node _ span => ' ' :: (toString span).toList
  | token _ item => ':' :: ' ' :: (item.describe plain).toList

theorem Row.toList_describe (row : Row) : (row.describe plain).toList =
    row.caption.label.toList ++ row.afterLabel plain := by
  cases row <;> simp [describe, caption, Caption.label, afterLabel]

theorem Row.isAlpha_head?_afterLabel (row : Row) (rest : List Char) :
    ∀ c ∈ (row.afterLabel plain ++ rest).head?, c.isAlpha = false := by
  cases row with
  | node => exact forall_mem_head?_cons (by decide)
  | token => exact forall_mem_head?_cons (by decide)

/-- The description of a row can be read up to the end of its line. -/
theorem Row.describe_append_inj {row other : Row} (hrow : row.caption.label ∈ rowLabels)
    (hother : other.caption.label ∈ rowLabels)
    (h : (row.describe plain).toList ++ '\n' :: rest =
      (other.describe plain).toList ++ '\n' :: rest') :
    row.withoutTrivia = other.withoutTrivia ∧ rest = rest' := by
  have hfeed : Char.isDigit '\n' = false := by decide
  rw [toList_describe, toList_describe, List.append_assoc, List.append_assoc] at h
  obtain ⟨hlabel, h⟩ := word_append_inj (legible_of_mem_rowLabels _ hrow).1
    (legible_of_mem_rowLabels _ hother).1 (row.isAlpha_head?_afterLabel _)
    (other.isAlpha_head?_afterLabel _) h
  -- A node goes on with a blank, and a token with a colon.
  cases row with
  | node name span =>
    cases other with
    | node name' span' =>
      obtain ⟨hspan, hrest⟩ := Span.append_inj (forall_mem_head?_cons hfeed)
        (forall_mem_head?_cons hfeed) (List.cons.inj h).2
      exact ⟨congrArg₂ node hlabel hspan, (List.cons.inj hrest).2⟩
    | token role' item' => exact absurd (List.cons.inj h).1 (by decide)
  | token role item =>
    cases other with
    | node name' span' => exact absurd (List.cons.inj h).1 (by decide)
    | token role' item' =>
      obtain ⟨hitem, hrest⟩ := Token.describe_append_inj (forall_mem_head?_cons hfeed)
        (forall_mem_head?_cons hfeed) (List.cons.inj (List.cons.inj h).2).2
      exact ⟨congrArg₂ token hlabel hitem, (List.cons.inj hrest).2⟩

/-- The description of a row does not begin with a blank. -/
theorem Row.head?_describe_ne_blank {row : Row} (hrow : row.caption.label ∈ rowLabels)
    (rest : List Char) :
    ∀ c ∈ ((row.describe plain).toList ++ rest).head?, (c == ' ') = false := by
  obtain ⟨hletters, hne⟩ := legible_of_mem_rowLabels _ hrow
  obtain ⟨first, letters, hlabel⟩ := List.exists_cons_of_ne_nil hne
  have hfirst : first.isAlpha = true := hletters first (by simp [hlabel])
  rw [toList_describe, hlabel]
  refine forall_mem_head?_cons (beq_eq_false_iff_ne.mpr ?_)
  rintro rfl
  exact absurd hfirst (by decide)

/-- The line of a row can be read, whatever is behind it. -/
theorem Row.line_append_inj {depth depth' : Nat} {row other : Row}
    (hrow : row.caption.label ∈ rowLabels) (hother : other.caption.label ∈ rowLabels)
    (h : List.replicate (2 * depth) ' ' ++ ((row.describe plain).toList ++ '\n' :: rest) =
      List.replicate (2 * depth') ' ' ++ ((other.describe plain).toList ++ '\n' :: rest')) :
    depth = depth' ∧ row.withoutTrivia = other.withoutTrivia ∧ rest = rest' := by
  have hblanks (n : Nat) : ∀ c ∈ List.replicate n ' ', (c == ' ') = true := fun c hc =>
    beq_iff_eq.mpr (List.eq_of_mem_replicate hc)
  obtain ⟨hindent, h⟩ := append_inj_of_run (hblanks _) (hblanks _)
    (head?_describe_ne_blank hrow _) (head?_describe_ne_blank hother _) h
  refine ⟨?_, describe_append_inj hrow hother h⟩
  have hlength := congrArg List.length hindent
  rw [List.length_replicate, List.length_replicate] at hlength
  omega

namespace Outline

theorem toList_render_cons (depth : Nat) (row : Row) (outline : Outline) :
    (render ((depth, row) :: outline) plain).toList =
      List.replicate (2 * depth) ' ' ++
        ((row.describe plain).toList ++ '\n' :: (outline.render plain).toList) := by
  simp [render]

/-- An outline can be read off its lines. -/
theorem map_withoutTrivia_of_render_eq {outline others : Outline}
    (houtline : outline.captions.map Caption.label ⊆ rowLabels)
    (hothers : others.captions.map Caption.label ⊆ rowLabels)
    (h : outline.render plain = others.render plain) :
    outline.map (Prod.map id Row.withoutTrivia) = others.map (Prod.map id Row.withoutTrivia) := by
  rw [← String.toList_inj] at h
  induction outline generalizing others with
  | nil =>
    cases others with
    | nil => rfl
    | cons line others =>
      rw [toList_render_cons line.1 line.2] at h
      exact absurd h.symm (by simp [render])
  | cons line outline ih =>
    cases others with
    | nil =>
      rw [toList_render_cons line.1 line.2] at h
      exact absurd h (by simp [render])
    | cons line' others =>
      obtain ⟨hlabel, houtline⟩ := List.cons_subset.mp houtline
      obtain ⟨hlabel', hothers⟩ := List.cons_subset.mp hothers
      rw [toList_render_cons line.1 line.2, toList_render_cons line'.1 line'.2] at h
      obtain ⟨hdepth, hrow, h⟩ := Row.line_append_inj hlabel hlabel' h
      exact List.cons_eq_cons.mpr ⟨Prod.ext hdepth hrow, ih houtline hothers h⟩

theorem captions_map_withoutTrivia (outline : Outline) :
    captions (outline.map (Prod.map id Row.withoutTrivia)) =
      outline.captions.map (Caption.map Token.withoutTrivia) := by
  simp [captions, Row.caption_withoutTrivia]

end Outline

end

/-! ### The dump -/

/-- The dump of a tree shows rows with the captions of the tree. -/
theorem exists_outline_of_dumpTree {plain : Char → Bool} {tree : SyntaxTree} {dump : String}
    (h : dumpTree tree plain = .ok dump) : ∃ outline : Outline,
      outline.render plain = dump ∧ outline.captions =
        Statement.captionsOfAll tree.statements ++ [.token "end" tree.endOfFile] := by
  obtain ⟨outline, houtline, h⟩ := exists_of_bind_eq_ok h
  cases h
  refine ⟨_, rfl, ?_⟩
  rw [Outline.captions_append, Outline.captions_token,
    Statement.captions_of_outlineOfAll _ houtline]

/-- **The tree dump determines the tree**: whichever characters show plainly, two trees with the
same dump have the same statements and expressions, with the same kind, text and span at each token,
and so at the end of the input. Only the trivia of their tokens and their errors may differ. -/
theorem map_withoutTrivia_of_dumpTree_eq {plain : Char → Bool} {tree other : SyntaxTree}
    {dump : String} (h : dumpTree tree plain = .ok dump)
    (hother : dumpTree other plain = .ok dump) :
    tree.statements.map (Statement.map Token.withoutTrivia) =
        other.statements.map (Statement.map Token.withoutTrivia) ∧
      tree.endOfFile.withoutTrivia = other.endOfFile.withoutTrivia := by
  have hlabels (tree : SyntaxTree) : (Statement.captionsOfAll tree.statements ++
      [Caption.token "end" tree.endOfFile]).map Caption.label ⊆ rowLabels := by
    rw [List.map_append]
    exact List.append_subset.mpr ⟨Statement.map_label_captionsOfAll_subset _, by
      simp [Caption.label, rowLabels]⟩
  obtain ⟨outline, hdump, hcaptions⟩ := exists_outline_of_dumpTree h
  obtain ⟨others, hdump', hcaptions'⟩ := exists_outline_of_dumpTree hother
  have hrows := Outline.map_withoutTrivia_of_render_eq (hcaptions ▸ hlabels tree)
    (hcaptions' ▸ hlabels other) (hdump.trans hdump'.symm)
  have hsame := congrArg Outline.captions hrows
  rw [Outline.captions_map_withoutTrivia, Outline.captions_map_withoutTrivia, hcaptions, hcaptions',
    List.map_append, List.map_append, ← Statement.captionsOfAll_mapAll,
    ← Statement.captionsOfAll_mapAll] at hsame
  obtain ⟨hstatements, hend⟩ := Statement.captionsOfAll_append_inj _ hsame
  rw [← Statement.mapAll_eq_map, ← Statement.mapAll_eq_map]
  exact ⟨hstatements, (Caption.token.inj (List.cons.inj hend).1).2⟩

/-- The tree of a name behind four bytes of trivia. -/
def nameBehind (leading : Trivia) : SyntaxTree where
  statements := [.expression
    (.identifier { kind := .identifier, value := "x", span := ⟨4, 1⟩, leading := [leading] })
    { kind := .semicolon, value := ";", span := ⟨5, 1⟩ }]
  endOfFile := .endAt 6
  diagnostics := []

/-- The same dump for blanks and for a comment. -/
theorem map_withoutTrivia_of_dumpTree_eq_nameBehind :
    let blanks := nameBehind ⟨.whitespace, "    ", ⟨0, 4⟩⟩
    let comment := nameBehind ⟨.multiLineComment, "/**/", ⟨0, 4⟩⟩
    let dump := "ExpressionStatement 4..6\n  IdentifierExpression: Identifier \"x\" 4..5\n" ++
      "  semicolon: Semicolon \";\" 5..6\nend: EndToken \"\" 6..6\n"
    dumpTree blanks = .ok dump ∧ dumpTree comment = .ok dump ∧
      blanks.statements.map (Statement.map Token.withoutTrivia) =
        comment.statements.map (Statement.map Token.withoutTrivia) ∧
      blanks.endOfFile.withoutTrivia = comment.endOfFile.withoutTrivia := by
  intro blanks comment dump
  have hblanks : dumpTree blanks = .ok dump := by decide +kernel
  have hcomment : dumpTree comment = .ok dump := by decide +kernel
  exact ⟨hblanks, hcomment, map_withoutTrivia_of_dumpTree_eq hblanks hcomment⟩

end LosslessSyntax
