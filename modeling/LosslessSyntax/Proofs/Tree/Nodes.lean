import Mathlib.Data.List.Infix
import Mathlib.Data.List.ModifyLast
import LosslessSyntax.Proofs.Tree.Shape

/-!
# The nodes of a tree

The expressions that an expression is built from (`Expression.nodes`), the statements that a
statement is built from (`Statement.nodes`), and the expression that belongs to a statement itself
(`Statement.value?`). The leaves of a node stand side by side in the tree, and a node of a
well-shaped tree is well shaped.

`Expression.mapFirst`, `Expression.mapLast` and the same for statements change the leaf at one end
of a tree. As long as it keeps its kind, the tree keeps its shape
(`Expression.WellShaped.of_map_eq`, `Statement.WellShaped.of_map_eq`).
-/

namespace LosslessSyntax

variable {τ υ : Type}

/-! ### Nodes -/

namespace Expression

/-- The expressions that an expression is built from, itself the first. -/
def nodes : Expression τ → List (Expression τ)
  | literal value => [literal value]
  | identifier name => [identifier name]
  | assignment name equals value => assignment name equals value :: value.nodes
  | binary left operator right => binary left operator right :: (left.nodes ++ right.nodes)
  | unary operator operand => unary operator operand :: operand.nodes
  | parenthesized opening inner closing => parenthesized opening inner closing :: inner.nodes

theorem nodes_map (f : τ → υ) (e : Expression τ) : (e.map f).nodes = e.nodes.map (map f) := by
  induction e <;> simp [map, nodes, *]

/-- The leaves of a node stand side by side. -/
theorem isInfix_leaves {e : Expression τ} : ∀ d ∈ e.nodes, d.leaves <:+: e.leaves := by
  induction e with
  | literal value => exact List.forall_mem_singleton.mpr (List.infix_refl _)
  | identifier name => exact List.forall_mem_singleton.mpr (List.infix_refl _)
  | assignment name equals value ih =>
    refine List.forall_mem_cons.mpr ⟨List.infix_refl _, fun d hd => (ih d hd).trans ?_⟩
    exact (List.suffix_append [name, equals] _).isInfix
  | binary left operator right ihleft ihright =>
    refine List.forall_mem_cons.mpr ⟨List.infix_refl _, List.forall_mem_append.mpr ⟨?_, ?_⟩⟩
    · exact fun d hd => (ihleft d hd).trans (List.prefix_append _ _).isInfix
    · exact fun d hd => (ihright d hd).trans
        ((List.suffix_cons operator _).trans (List.suffix_append _ _)).isInfix
  | unary operator operand ih =>
    exact List.forall_mem_cons.mpr ⟨List.infix_refl _, fun d hd =>
      (ih d hd).trans (List.suffix_cons _ _).isInfix⟩
  | parenthesized opening inner closing ih =>
    exact List.forall_mem_cons.mpr ⟨List.infix_refl _, fun d hd =>
      (ih d hd).trans (List.infix_append [opening] inner.leaves [closing])⟩

/-- The nodes of a well-shaped expression are well shaped. -/
theorem WellShaped.of_mem_nodes {kindOf : τ → TokenKind} {e : Expression τ}
    (h : e.WellShaped kindOf) : ∀ d ∈ e.nodes, d.WellShaped kindOf := by
  induction h with
  | literal hvalue => exact List.forall_mem_singleton.mpr (.literal hvalue)
  | identifier hname => exact List.forall_mem_singleton.mpr (.identifier hname)
  | assignment hname hequals hvalue ih =>
    exact List.forall_mem_cons.mpr ⟨.assignment hname hequals hvalue, ih⟩
  | binary hoperator hleft hadmits hright hlt ihleft ihright =>
    exact List.forall_mem_cons.mpr ⟨.binary hoperator hleft hadmits hright hlt,
      List.forall_mem_append.mpr ⟨ihleft, ihright⟩⟩
  | unary hoperator hoperand hnone ih =>
    exact List.forall_mem_cons.mpr ⟨.unary hoperator hoperand hnone, ih⟩
  | parenthesized hopening hinner hclosing ih =>
    exact List.forall_mem_cons.mpr ⟨.parenthesized hopening hinner hclosing, ih⟩

end Expression

namespace Statement

mutual

/-- The statements that a statement is built from, itself the first. -/
def nodes : Statement τ → List (Statement τ)
  | expression value semicolon => [expression value semicolon]
  | block opening body closing => block opening body closing :: nodesOfAll body
  | declaration type name semicolon => [declaration type name semicolon]
  | initialization type name equals value semicolon =>
    [initialization type name equals value semicolon]

/-- The statements that some statements are built from. -/
def nodesOfAll : List (Statement τ) → List (Statement τ)
  | [] => []
  | statement :: others => nodes statement ++ nodesOfAll others

end

theorem nodesOfAll_eq_flatMap (statements : List (Statement τ)) :
    nodesOfAll statements = statements.flatMap nodes := by
  induction statements with
  | nil => rfl
  | cons statement others ih => rw [nodesOfAll, ih, List.flatMap_cons]

mutual

theorem nodes_map (f : τ → υ) : (s : Statement τ) → (s.map f).nodes = s.nodes.map (map f)
  | expression value semicolon => rfl
  | block opening body closing => by simp [map, nodes, nodesOfAll_mapAll f body]
  | declaration type name semicolon => rfl
  | initialization type name equals value semicolon => rfl

theorem nodesOfAll_mapAll (f : τ → υ) :
    (statements : List (Statement τ)) →
      nodesOfAll (mapAll f statements) = (nodesOfAll statements).map (map f)
  | [] => rfl
  | statement :: others => by
    simp [mapAll, nodesOfAll, nodes_map f statement, nodesOfAll_mapAll f others]

end

mutual

/-- The leaves of a node stand side by side. -/
theorem isInfix_leaves : (s : Statement τ) → ∀ d ∈ s.nodes, d.leaves <:+: s.leaves
  | expression .. => List.forall_mem_singleton.mpr (List.infix_refl _)
  | block opening body closing => List.forall_mem_cons.mpr ⟨List.infix_refl _, fun d hd =>
      (isInfix_leavesOfAll body d hd).trans
        (List.infix_append [opening] (leavesOfAll body) [closing])⟩
  | declaration .. | initialization .. => List.forall_mem_singleton.mpr (List.infix_refl _)

/-- The leaves of a node stand side by side. -/
theorem isInfix_leavesOfAll :
    (statements : List (Statement τ)) →
      ∀ d ∈ nodesOfAll statements, d.leaves <:+: leavesOfAll statements
  | [] => nofun
  | statement :: others => List.forall_mem_append.mpr ⟨
      fun d hd => (isInfix_leaves statement d hd).trans (List.prefix_append _ _).isInfix,
      fun d hd => (isInfix_leavesOfAll others d hd).trans (List.suffix_append _ _).isInfix⟩

end

/-- The nodes of a well-shaped statement are well shaped. -/
theorem WellShaped.of_mem_nodes {kindOf : τ → TokenKind} {s : Statement τ}
    (h : s.WellShaped kindOf) : ∀ d ∈ s.nodes, d.WellShaped kindOf := by
  induction h with
  | expression hvalue hsemicolon =>
    exact List.forall_mem_singleton.mpr (.expression hvalue hsemicolon)
  | block hopening hbody hclosing ih =>
    refine List.forall_mem_cons.mpr ⟨.block hopening hbody hclosing, fun d hd => ?_⟩
    rw [nodesOfAll_eq_flatMap] at hd
    obtain ⟨s, hs, hd⟩ := List.mem_flatMap.mp hd
    exact ih s hs d hd
  | declaration htype hname hsemicolon =>
    exact List.forall_mem_singleton.mpr (.declaration htype hname hsemicolon)
  | initialization htype hname hequals hvalue hsemicolon =>
    exact List.forall_mem_singleton.mpr (.initialization htype hname hequals hvalue hsemicolon)

/-- The expression of a statement. That of a declaration with a value is the assignment to its name;
the expressions in a block belong to its statements. -/
def value? : Statement τ → Option (Expression τ)
  | expression value _ => some value
  | initialization _ name equals value _ => some (.assignment name equals value)
  | block .. | declaration .. => none

theorem value?_map (f : τ → υ) (s : Statement τ) :
    (s.map f).value? = s.value?.map (Expression.map f) := by
  cases s <;> rfl

theorem isInfix_leaves_of_mem_value? {s : Statement τ} :
    ∀ e ∈ s.value?, e.leaves <:+: s.leaves := by
  cases s with
  | expression value semicolon =>
    rintro _ ⟨⟩
    exact (List.prefix_append _ _).isInfix
  | initialization type name equals value semicolon =>
    rintro _ ⟨⟩
    exact List.infix_append [type] (name :: equals :: value.leaves) [semicolon]
  | block opening body closing => nofun
  | declaration type name semicolon => nofun

/-- The expression of a well-shaped statement is well shaped, if the name that it assigns to is not
missing. -/
theorem WellShaped.of_mem_value? {kindOf : τ → TokenKind} {s : Statement τ}
    (h : s.WellShaped kindOf) (hleaves : ∀ leaf ∈ s.leaves, kindOf leaf ≠ .missingToken) :
    ∀ e ∈ s.value?, e.WellShaped kindOf := by
  cases h with
  | expression hvalue hsemicolon =>
    rintro _ ⟨⟩
    exact hvalue
  | @initialization type name equals semicolon value htype hname hequals hvalue hsemicolon =>
    rintro _ ⟨⟩
    have hne := hleaves name (List.mem_cons_of_mem _ List.mem_cons_self)
    exact .assignment (List.mem_singleton.mp (hname.resolve_right hne)) hequals hvalue
  | block hopening hbody hclosing => nofun
  | declaration htype hname hsemicolon => nofun

end Statement

/-- All statements of a tree, those in blocks included. -/
def SyntaxTree.statementNodes (tree : SyntaxTree) : List (Statement Token) :=
  tree.statements.flatMap Statement.nodes

/-- All expressions of a tree, those that others are built from included. -/
def SyntaxTree.expressionNodes (tree : SyntaxTree) : List (Expression Token) :=
  tree.statementNodes.flatMap fun s => s.value?.toList.flatMap Expression.nodes

/-! ### The ends of a tree -/

namespace Expression

/-- Changes the first leaf of an expression. -/
def mapFirst (f : τ → τ) : Expression τ → Expression τ
  | literal value => literal (f value)
  | identifier name => identifier (f name)
  | assignment name equals value => assignment (f name) equals value
  | binary left operator right => binary (left.mapFirst f) operator right
  | unary operator operand => unary (f operator) operand
  | parenthesized opening inner closing => parenthesized (f opening) inner closing

/-- Changes the last leaf of an expression. -/
def mapLast (f : τ → τ) : Expression τ → Expression τ
  | literal value => literal (f value)
  | identifier name => identifier (f name)
  | assignment name equals value => assignment name equals (value.mapLast f)
  | binary left operator right => binary left operator (right.mapLast f)
  | unary operator operand => unary operator (operand.mapLast f)
  | parenthesized opening inner closing => parenthesized opening inner (f closing)

theorem first_map (f : τ → υ) (e : Expression τ) : (e.map f).first = f e.first := by
  induction e <;> simp [map, first, *]

theorem last_map (f : τ → υ) (e : Expression τ) : (e.map f).last = f e.last := by
  induction e <;> simp [map, last, *]

theorem leaves_ne_nil (e : Expression τ) : e.leaves ≠ [] := by
  intro hnil
  have := e.head?_leaves
  rw [hnil] at this
  cases this

theorem leaves_mapFirst (f : τ → τ) (e : Expression τ) :
    (e.mapFirst f).leaves = e.leaves.modifyHead f := by
  induction e with
  | binary left operator right ih =>
    rw [mapFirst, leaves, ih, leaves]
    obtain ⟨leaf, others, h⟩ := List.exists_cons_of_ne_nil left.leaves_ne_nil
    rw [h]
    rfl
  | _ => rfl

theorem leaves_mapLast (f : τ → τ) (e : Expression τ) :
    (e.mapLast f).leaves = e.leaves.modifyLast f := by
  induction e with
  | literal value => rfl
  | identifier name => rfl
  | assignment name equals value ih =>
    rw [mapLast, leaves, ih, leaves]
    exact (List.modifyLast_append_of_right_ne_nil f [name, equals] _ value.leaves_ne_nil).symm
  | binary left operator right _ ih =>
    rw [mapLast, leaves, ih, leaves, List.append_cons left.leaves operator right.leaves,
      List.modifyLast_append_of_right_ne_nil f _ _ right.leaves_ne_nil]
    exact List.append_cons left.leaves operator _
  | unary operator operand ih =>
    rw [mapLast, leaves, ih, leaves]
    exact (List.modifyLast_append_of_right_ne_nil f [operator] _ operand.leaves_ne_nil).symm
  | parenthesized opening inner closing =>
    exact (List.modifyLast_concat f closing (opening :: inner.leaves)).symm

theorem map_mapFirst {f : τ → τ} {g : υ → υ} {k : τ → υ} (h : ∀ leaf, k (f leaf) = g (k leaf))
    (e : Expression τ) : (e.mapFirst f).map k = (e.map k).mapFirst g := by
  induction e <;> simp [mapFirst, map, *]

theorem map_mapLast {f : τ → τ} {g : υ → υ} {k : τ → υ} (h : ∀ leaf, k (f leaf) = g (k leaf))
    (e : Expression τ) : (e.mapLast f).map k = (e.map k).mapLast g := by
  induction e <;> simp [mapLast, map, *]

theorem mapFirst_id (e : Expression τ) : e.mapFirst id = e := by
  induction e <;> simp [mapFirst, *]

theorem mapLast_id (e : Expression τ) : e.mapLast id = e := by
  induction e <;> simp [mapLast, *]

end Expression

namespace Statement

theorem first_map (f : τ → υ) (s : Statement τ) : (s.map f).first = f s.first := by
  cases s <;> simp [map, first, Expression.first_map]

theorem last_map (f : τ → υ) (s : Statement τ) : (s.map f).last = f s.last := by
  cases s <;> rfl

/-- Changes the first leaf of a statement. -/
def mapFirst (f : τ → τ) : Statement τ → Statement τ
  | expression value semicolon => expression (value.mapFirst f) semicolon
  | block opening body closing => block (f opening) body closing
  | declaration type name semicolon => declaration (f type) name semicolon
  | initialization type name equals value semicolon =>
    initialization (f type) name equals value semicolon

/-- Changes the last leaf of a statement. -/
def mapLast (f : τ → τ) : Statement τ → Statement τ
  | expression value semicolon => expression value (f semicolon)
  | block opening body closing => block opening body (f closing)
  | declaration type name semicolon => declaration type name (f semicolon)
  | initialization type name equals value semicolon =>
    initialization type name equals value (f semicolon)

theorem leaves_mapFirst (f : τ → τ) (s : Statement τ) :
    (s.mapFirst f).leaves = s.leaves.modifyHead f := by
  cases s with
  | expression value semicolon =>
    rw [mapFirst, leaves, value.leaves_mapFirst, leaves]
    obtain ⟨leaf, others, h⟩ := List.exists_cons_of_ne_nil value.leaves_ne_nil
    rw [h]
    rfl
  | _ => rfl

theorem leaves_mapLast (f : τ → τ) (s : Statement τ) :
    (s.mapLast f).leaves = s.leaves.modifyLast f := by
  cases s with
  | expression value semicolon => exact (List.modifyLast_concat f semicolon value.leaves).symm
  | block opening body closing =>
    exact (List.modifyLast_concat f closing (opening :: leavesOfAll body)).symm
  | declaration type name semicolon =>
    exact (List.modifyLast_concat f semicolon [type, name]).symm
  | initialization type name equals value semicolon =>
    exact (List.modifyLast_concat f semicolon (type :: name :: equals :: value.leaves)).symm

theorem map_mapFirst {f : τ → τ} {g : υ → υ} {k : τ → υ} (h : ∀ leaf, k (f leaf) = g (k leaf))
    (s : Statement τ) : (s.mapFirst f).map k = (s.map k).mapFirst g := by
  cases s <;> simp [mapFirst, map, h, Expression.map_mapFirst h]

theorem map_mapLast {f : τ → τ} {g : υ → υ} {k : τ → υ} (h : ∀ leaf, k (f leaf) = g (k leaf))
    (s : Statement τ) : (s.mapLast f).map k = (s.map k).mapLast g := by
  cases s <;> simp [mapLast, map, h]

theorem mapFirst_id (s : Statement τ) : s.mapFirst id = s := by
  cases s <;> simp [mapFirst, Expression.mapFirst_id]

theorem mapLast_id (s : Statement τ) : s.mapLast id = s := by
  cases s <;> rfl

end Statement

/-! ### The shape of a tree with other ends -/

section

variable {kindOf : τ → TokenKind}

/-- An expression is well shaped if the kinds of its leaves are. -/
theorem Expression.WellShaped.of_map {e : Expression τ} (h : (e.map kindOf).WellShaped id) :
    e.WellShaped kindOf := by
  have hprecedence (e : Expression τ) : (e.map kindOf).precedence? id = e.precedence? kindOf :=
    Expression.precedence?_map (fun _ => rfl) e
  induction e with
  | literal value =>
    cases h with
    | literal hvalue => exact .literal hvalue
  | identifier name =>
    cases h with
    | identifier hname => exact .identifier hname
  | assignment name equals value ih =>
    cases h with
    | assignment hname hequals hvalue => exact .assignment hname hequals (ih hvalue)
  | binary left operator right ihleft ihright =>
    cases h with
    | binary hoperator hleft hadmits hright hlt =>
      refine .binary hoperator (ihleft hleft) ⟨?_, ?_⟩ (ihright hright) ?_
      · rw [← hprecedence]
        exact hadmits.le
      · rw [← Expression.endsInAssignment_map kindOf]
        exact hadmits.eq_zero
      · rw [← hprecedence]
        exact hlt
  | unary operator operand ih =>
    cases h with
    | unary hoperator hoperand hnone =>
      exact .unary hoperator (ih hoperand) ((hprecedence operand).symm.trans hnone)
  | parenthesized opening inner closing ih =>
    cases h with
    | parenthesized hopening hinner hclosing => exact .parenthesized hopening (ih hinner) hclosing

/-- An expression is well shaped if one with leaves of the same kinds is. -/
theorem Expression.WellShaped.of_map_eq {e d : Expression τ} (h : e.WellShaped kindOf)
    (heq : d.map kindOf = e.map kindOf) : d.WellShaped kindOf := by
  have hmap : (e.map kindOf).WellShaped id := h.map (f := kindOf) fun _ => rfl
  exact .of_map (heq ▸ hmap)

theorem Expression.WellShaped.mapFirst {f : τ → τ} (hf : ∀ leaf, kindOf (f leaf) = kindOf leaf)
    {e : Expression τ} (h : e.WellShaped kindOf) : (e.mapFirst f).WellShaped kindOf :=
  h.of_map_eq ((Expression.map_mapFirst (g := id) hf e).trans (Expression.mapFirst_id _))

theorem Expression.WellShaped.mapLast {f : τ → τ} (hf : ∀ leaf, kindOf (f leaf) = kindOf leaf)
    {e : Expression τ} (h : e.WellShaped kindOf) : (e.mapLast f).WellShaped kindOf :=
  h.of_map_eq ((Expression.map_mapLast (g := id) hf e).trans (Expression.mapLast_id _))

mutual

/-- A statement is well shaped if the kinds of its leaves are. -/
theorem Statement.WellShaped.of_map :
    (s : Statement τ) → (s.map kindOf).WellShaped id → s.WellShaped kindOf
  | .expression value semicolon, h => by
    cases h with
    | expression hvalue hsemicolon => exact .expression (.of_map hvalue) hsemicolon
  | .block opening body closing, h => by
    cases h with
    | block hopening hbody hclosing =>
      exact .block hopening (Statement.WellShaped.of_mapAll body hbody) hclosing
  | .declaration type name semicolon, h => by
    cases h with
    | declaration htype hname hsemicolon => exact .declaration htype hname hsemicolon
  | .initialization type name equals value semicolon, h => by
    cases h with
    | initialization htype hname hequals hvalue hsemicolon =>
      exact .initialization htype hname hequals (.of_map hvalue) hsemicolon

/-- Statements are well shaped if the kinds of their leaves are. -/
theorem Statement.WellShaped.of_mapAll :
    (statements : List (Statement τ)) →
      (∀ s ∈ Statement.mapAll kindOf statements, s.WellShaped id) →
      ∀ s ∈ statements, s.WellShaped kindOf
  | [], _ => nofun
  | statement :: others, h => by
    obtain ⟨hstatement, hothers⟩ := List.forall_mem_cons.mp h
    exact List.forall_mem_cons.mpr ⟨Statement.WellShaped.of_map statement hstatement,
      Statement.WellShaped.of_mapAll others hothers⟩

end

/-- A statement is well shaped if one with leaves of the same kinds is. -/
theorem Statement.WellShaped.of_map_eq {s t : Statement τ} (h : s.WellShaped kindOf)
    (heq : t.map kindOf = s.map kindOf) : t.WellShaped kindOf := by
  have hmap : (s.map kindOf).WellShaped id := h.map (f := kindOf) fun _ => rfl
  exact .of_map t (heq ▸ hmap)

theorem Statement.WellShaped.mapFirst {f : τ → τ} (hf : ∀ leaf, kindOf (f leaf) = kindOf leaf)
    {s : Statement τ} (h : s.WellShaped kindOf) : (s.mapFirst f).WellShaped kindOf :=
  h.of_map_eq ((Statement.map_mapFirst (g := id) hf s).trans (Statement.mapFirst_id _))

theorem Statement.WellShaped.mapLast {f : τ → τ} (hf : ∀ leaf, kindOf (f leaf) = kindOf leaf)
    {s : Statement τ} (h : s.WellShaped kindOf) : (s.mapLast f).WellShaped kindOf :=
  h.of_map_eq ((Statement.map_mapLast (g := id) hf s).trans (Statement.mapLast_id _))

end

end LosslessSyntax
