import LosslessSyntax.Proofs.Tree.Recorded

/-!
# Streams that look alike

Of a token the parser sees the kind, and of two neighbours whether they touch, where their kinds
stand side by side in the spelling of a compound operator. Two streams are alike if they agree in
this position by position (`Alike`). They may be of different types: what else their tokens have in
common is given by a label for the tokens of either stream.

From streams that are alike the parser makes programs that are equal up to the labels of their
leaves (`map_program`): the same shape, and at every place leaves of tokens at the same positions.
Like the parser the proof goes from the operator at the front of a stream (`agrees_operator`) to
expressions (`agrees_expression`) and to statements (`forall₂_agrees_statements`).
-/

namespace LosslessSyntax

/-! ### Changing the tokens of a program -/

/-- Changes the tokens that a leaf is made of. -/
def Leaf.map {α β : Type} (f : α → β) : Leaf α → Leaf β
  | plain token => plain (f token)
  | missing expected token => missing expected (f token)
  | merged operator first others => merged operator (f first) (others.map f)

theorem Leaf.map_plain {α β : Type} (f : α → β) (token : α) :
    (plain token).map f = plain (f token) :=
  rfl

theorem Leaf.parts_map {α β : Type} (f : α → β) (leaf : Leaf α) :
    (leaf.map f).parts = leaf.parts.map f := by
  cases leaf <;> rfl

theorem Leaf.getLastD_map {α β : Type} (f : α → β) (others : List α) (first : α) :
    (others.map f).getLastD (f first) = f (others.getLastD first) := by
  rw [List.getLastD_eq_getLast?, List.getLastD_eq_getLast?, List.getLast?_map, Option.getD_map]

/-- Two answers of the parser took as many tokens, and what they parsed is equal up to labels. -/
structure Parsed.Agrees {α β σ τ υ : Type} (f : σ → υ) (g : τ → υ) (p : Parsed α σ)
    (q : Parsed β τ) : Prop where
  value : f p.value = g q.value
  taken : p.taken = q.taken

namespace Parser

/-- Changes the tokens that the leaves of a program are made of. -/
def Program.map {α β : Type} (f : α → β) (p : Program α) : Program β where
  statements := p.statements.map (Statement.map (Leaf.map f))
  closing := p.closing.map f

theorem Program.leaves_map {α β : Type} (f : α → β) (p : Program α) :
    (p.map f).leaves = p.leaves.map (Leaf.map f) := by
  rw [leaves, leaves, map, List.map_append, List.map_flatMap, List.flatMap_map]
  simp only [Statement.leaves_map, List.map_singleton]

/-- The labels of the tokens of a tree are those of the leaves that put them there. -/
theorem Program.map_tree {γ : Type} {label : Token → γ} {shown : Leaf γ → γ}
    (h : ∀ leaf : Leaf Token, label leaf.token = shown (leaf.map label)) (p : Program Token) :
    p.tree.statements.map (Statement.map label) =
        (p.map label).statements.map (Statement.map shown) ∧
      label p.tree.endOfFile = shown (p.map label).closing := by
  refine ⟨?_, h _⟩
  simp only [tree, map, List.map_map, Function.comp_def, Statement.map_map, h]

/-! ### Answers that agree -/

section Agreement

variable {α β γ : Type} (f : α → γ) (g : β → γ)

/-- Two answers with expressions that are equal up to labels. -/
abbrev ExpressionsAgree (p : Parsed α (Expression (Leaf α)))
    (q : Parsed β (Expression (Leaf β))) : Prop :=
  Parsed.Agrees (Expression.map (Leaf.map f)) (Expression.map (Leaf.map g)) p q

/-- Two answers with statements that are equal up to labels. -/
abbrev StatementsAgree (p : Parsed α (Statement (Leaf α)))
    (q : Parsed β (Statement (Leaf β))) : Prop :=
  Parsed.Agrees (Statement.map (Leaf.map f)) (Statement.map (Leaf.map g)) p q

variable {f g}

namespace ExpressionsAgree

variable {left right : Parsed α (Expression (Leaf α))}
  {left' right' : Parsed β (Expression (Leaf β))} {sign : Parsed α (Leaf α)}
  {sign' : Parsed β (Leaf β)}

theorem unary (hsign : Parsed.Agrees (Leaf.map f) (Leaf.map g) sign sign')
    (hright : ExpressionsAgree f g right right') :
    ExpressionsAgree f g ((sign.map .unary).app right) ((sign'.map .unary).app right') where
  value := congr (congrArg Expression.unary hsign.value) hright.value
  taken := congr (congrArg HAdd.hAdd hsign.taken) hright.taken

theorem binary (hleft : ExpressionsAgree f g left left')
    (hsign : Parsed.Agrees (Leaf.map f) (Leaf.map g) sign sign')
    (hright : ExpressionsAgree f g right right') :
    ExpressionsAgree f g (((left.map .binary).app sign).app right)
      (((left'.map .binary).app sign').app right') where
  value := congr (congr (congrArg Expression.binary hleft.value) hsign.value) hright.value
  taken := congr (congrArg HAdd.hAdd (congr (congrArg HAdd.hAdd hleft.taken) hsign.taken))
    hright.taken

theorem assignment {t : α} {u : β} (hlabel : f t = g u)
    (hsign : Parsed.Agrees (Leaf.map f) (Leaf.map g) sign sign')
    (hright : ExpressionsAgree f g right right') :
    ExpressionsAgree f g (((Parsed.one (.assignment (.plain t))).app sign).app right)
      (((Parsed.one (.assignment (.plain u))).app sign').app right') where
  value := congr (congr (congrArg (Expression.assignment ∘ Leaf.plain) hlabel) hsign.value)
    hright.value
  taken := congr (congrArg HAdd.hAdd (congrArg (1 + ·) hsign.taken)) hright.taken

theorem parenthesized {t : α} {u : β} (hlabel : f t = g u) (hleft : ExpressionsAgree f g left left')
    (hsign : Parsed.Agrees (Leaf.map f) (Leaf.map g) sign sign') :
    ExpressionsAgree f g (((Parsed.one (.parenthesized (.plain t))).app left).app sign)
      (((Parsed.one (.parenthesized (.plain u))).app left').app sign') where
  value := congr (congr (congrArg (Expression.parenthesized ∘ Leaf.plain) hlabel) hleft.value)
    hsign.value
  taken := congr (congrArg HAdd.hAdd (congrArg (1 + ·) hleft.taken)) hsign.taken

theorem literal (hsign : Parsed.Agrees (Leaf.map f) (Leaf.map g) sign sign') :
    ExpressionsAgree f g (sign.map .literal) (sign'.map .literal) where
  value := congrArg Expression.literal hsign.value
  taken := hsign.taken

end ExpressionsAgree

/-- Statements that agree one by one took as many tokens together. -/
theorem StatementsAgree.total_eq {ps : List (Parsed α (Statement (Leaf α)))}
    {qs : List (Parsed β (Statement (Leaf β)))} (h : List.Forall₂ (StatementsAgree f g) ps qs) :
    Parsed.total ps = Parsed.total qs := by
  induction h with
  | nil => rfl
  | cons hagrees _ ih => rw [Parsed.total, Parsed.total, hagrees.taken, ih]

/-- Statements that agree one by one are equal up to labels. -/
theorem StatementsAgree.map_eq {ps : List (Parsed α (Statement (Leaf α)))}
    {qs : List (Parsed β (Statement (Leaf β)))} (h : List.Forall₂ (StatementsAgree f g) ps qs) :
    (ps.map Parsed.value).map (Statement.map (Leaf.map f)) =
      (qs.map Parsed.value).map (Statement.map (Leaf.map g)) := by
  induction h with
  | nil => rfl
  | cons hagrees _ ih => simp only [List.map_cons, hagrees.value, ih]

end Agreement

/-! ### Alike streams -/

/-- The pairs of kinds that stand side by side in the spelling of a compound operator. -/
def joints : List (TokenKind × TokenKind) :=
  compoundOperators.flatMap fun compound => compound.1.zip compound.1.tail

/-- The end of the input has no part in a compound operator. -/
theorem not_mem_joints_endToken (kind : TokenKind) : (kind, .endToken) ∉ joints := by
  have hall : ∀ joint ∈ joints, joint.2 ≠ .endToken := by decide
  exact fun hmem => hall _ hmem rfl

variable {α β γ : Type} [Readable α] [Readable β] {f : α → γ} {g : β → γ}

variable (f g) in
/-- Two streams with the same kinds and the same labels, in which neighbours touch at the same
places, as far as their kinds stand side by side in a compound operator. -/
inductive Alike : List α → List β → Prop
  | nil : Alike [] []
  | cons {t : α} {u : β} {ts : List α} {us : List β} (hkind : kind t = kind u)
      (hlabel : f t = g u)
      (htouches : ∀ t' ∈ ts.head?, ∀ u' ∈ us.head?, (kind t, kind t') ∈ joints →
        touches t t' = touches u u')
      (halike : Alike ts us) : Alike (t :: ts) (u :: us)

namespace Alike

variable {ts : List α} {us : List β}

/-- A single token touches none. -/
theorem singleton {t : α} {u : β} (hkind : kind t = kind u) (hlabel : f t = g u) :
    Alike f g [t] [u] :=
  .cons hkind hlabel (fun _ h => absurd h (Option.not_mem_none _)) .nil

theorem map_eq (h : Alike f g ts us) : ts.map f = us.map g := by
  induction h with
  | nil => rfl
  | cons _ hlabel _ _ ih => rw [List.map_cons, List.map_cons, hlabel, ih]

theorem exists_cons {t : α} (h : Alike f g (t :: ts) us) : ∃ u us', us = u :: us' := by
  cases h with
  | @cons _ u _ us => exact ⟨u, us, rfl⟩

theorem tail {t : α} {u : β} (h : Alike f g (t :: ts) (u :: us)) : Alike f g ts us := by
  cases h with
  | cons _ _ _ halike => exact halike

theorem kind_eq {t : α} {u : β} (h : Alike f g (t :: ts) (u :: us)) : kind t = kind u := by
  cases h with
  | cons hkind _ _ _ => exact hkind

theorem label_eq {t : α} {u : β} (h : Alike f g (t :: ts) (u :: us)) : f t = g u := by
  cases h with
  | cons _ hlabel _ _ => exact hlabel

theorem map_kind_eq (h : Alike f g ts us) : ts.map kind = us.map kind := by
  induction h with
  | nil => rfl
  | cons hkind _ _ _ ih => rw [List.map_cons, List.map_cons, hkind, ih]

theorem symm (h : Alike f g ts us) : Alike g f us ts := by
  induction h with
  | nil => exact .nil
  | @cons t u ts us hkind hlabel htouches halike ih =>
    refine .cons hkind.symm hlabel.symm (fun u' hu' t' ht' hjoint => ?_) ih
    have hheads := congrArg List.head? halike.map_kind_eq
    rw [List.head?_map, List.head?_map, Option.mem_def.mp ht', Option.mem_def.mp hu'] at hheads
    rw [← hkind, ← Option.some.inj hheads] at hjoint
    exact (htouches t' ht' u' hu' hjoint).symm

theorem drop (h : Alike f g ts us) (n : Nat) : Alike f g (ts.drop n) (us.drop n) := by
  induction n generalizing ts us with
  | zero => exact h
  | succ n ih =>
    cases h with
    | nil => exact .nil
    | cons _ _ _ halike => exact ih halike

theorem rest {σ τ υ : Type} {F : σ → υ} {G : τ → υ} {p : Parsed α σ} {q : Parsed β τ}
    (h : Alike f g ts us) (hagrees : Parsed.Agrees F G p q) :
    Alike f g (p.rest ts) (q.rest us) := by
  rw [Parsed.rest, Parsed.rest, hagrees.taken]
  exact h.drop _

/-- Streams with the same labels are alike, where the labels tell the kinds and what touches. -/
theorem of_map_eq (hkind : ∀ t u, f t = g u → kind t = kind u)
    (htouches : ∀ t u t' u', f t = g u → f t' = g u' → touches t t' = touches u u')
    (h : ts.map f = us.map g) : Alike f g ts us := by
  induction ts generalizing us with
  | nil =>
    obtain rfl : us = [] := List.map_eq_nil_iff.mp h.symm
    exact .nil
  | cons t ts ih =>
    obtain ⟨u, us, rfl, hlabel, hlabels⟩ := List.map_eq_cons_iff.mp h.symm
    refine .cons (hkind t u hlabel.symm) hlabel.symm (fun t' ht' u' hu' _ => ?_) (ih hlabels.symm)
    have hheads := congrArg List.head? hlabels
    rw [List.head?_map, List.head?_map, Option.mem_def.mp ht', Option.mem_def.mp hu'] at hheads
    exact htouches t u t' u' hlabel.symm (Option.some.inj hheads).symm

theorem map_take_eq (h : Alike f g ts us) (n : Nat) : (ts.take n).map f = (us.take n).map g := by
  rw [List.map_take, List.map_take, h.map_eq]

end Alike

/-! ### Operators -/

private theorem kind_eq_of_spells {k : TokenKind} {kinds : List TokenKind} {t : α} {ts : List α}
    (h : spells (k :: kinds) (t :: ts) = true) : kind t = k := by
  obtain ⟨front, rest, hts, hkinds, -⟩ := spells_iff.mp h
  obtain ⟨u, front, rfl, hu, -⟩ := List.map_eq_cons_iff.mp hkinds
  rw [(List.cons.inj hts).1, hu]

private theorem Alike.spells_imp {kinds : List TokenKind}
    (hkinds : ∀ joint ∈ kinds.zip kinds.tail, joint ∈ joints) {ts : List α} {us : List β}
    (h : Alike f g ts us) (hspells : spells kinds ts = true) : spells kinds us = true := by
  induction kinds generalizing ts us with
  | nil => rw [spells]
  | cons k kinds ih =>
    cases h with
    | nil => simp [spells] at hspells
    | @cons t u ts us hkind _ htouches halike =>
      have hk : kind u = k := hkind ▸ kind_eq_of_spells hspells
      cases kinds with
      | nil => exact decide_eq_true hk
      | cons l kinds =>
        obtain ⟨hjoint, hkinds⟩ := List.forall_mem_cons.mp hkinds
        simp only [spells, Bool.and_eq_true, decide_eq_true_eq] at hspells ⊢
        obtain ⟨⟨-, htouch⟩, hrest⟩ := hspells
        refine ⟨⟨hk, ?_⟩, ih hkinds halike hrest⟩
        cases halike with
        | nil => simp at htouch
        | @cons t' u' =>
          -- The next token has the kind that stands beside this one in the spelling.
          have hl : kind t' = l := kind_eq_of_spells hrest
          have heq := htouches t' rfl u' rfl (by rwa [hkind, hk, hl])
          rw [List.head?_cons, Option.any_some] at htouch ⊢
          rwa [← heq]

/-- The same compound operators are spelled at the front of streams that are alike. -/
theorem Alike.spells_eq {ts : List α} {us : List β} (h : Alike f g ts us)
    {compound : List TokenKind × TokenKind} (hmem : compound ∈ compoundOperators) :
    spells compound.1 ts = spells compound.1 us := by
  have hkinds : ∀ joint ∈ compound.1.zip compound.1.tail, joint ∈ joints :=
    fun joint hjoint => List.mem_flatMap.mpr ⟨compound, hmem, hjoint⟩
  rw [Bool.eq_iff_iff]
  exact ⟨h.spells_imp hkinds, h.symm.spells_imp hkinds⟩

/-- The operators at the front of alike streams are of the same kind. -/
theorem agrees_operator {t : α} {u : β} {ts : List α} {us : List β}
    (h : Alike f g (t :: ts) (u :: us)) :
    Parsed.Agrees (Leaf.map f) (Leaf.map g) (operator t ts) (operator u us) ∧
      (operator t ts).value.kind = (operator u us).value.kind := by
  have hfind : (compoundOperators.find? fun compound => spells compound.1 (t :: ts)) =
      compoundOperators.find? fun compound => spells compound.1 (u :: us) := by
    rw [← List.head?_filter, ← List.head?_filter, List.filter_congr fun _ hmem => h.spells_eq hmem]
  cases h with
  | cons hkind hlabel _ halike =>
    rw [operator, operator, hfind]
    cases compoundOperators.find? fun compound => spells compound.1 (u :: us) with
    | none => exact ⟨⟨congrArg Leaf.plain hlabel, rfl⟩, hkind⟩
    | some found =>
      have hothers := halike.map_take_eq (found.1.length - 1)
      refine ⟨⟨?_, ?_⟩, rfl⟩
      · simp only [Leaf.map, hlabel, hothers]
      · have := congrArg List.length hothers
        rw [List.length_map, List.length_map] at this
        simp only [this]

theorem agrees_expect {s : α} {s' : β} (hkind : kind s = kind s') (hlabel : f s = g s')
    (kinds : List TokenKind) {ts : List α} {us : List β} (h : Alike f g ts us) :
    Parsed.Agrees (Leaf.map f) (Leaf.map g) (expect s kinds ts) (expect s' kinds us) := by
  have hhead : kind (ts.headD s) = kind (us.headD s') ∧ f (ts.headD s) = g (us.headD s') := by
    cases h with
    | nil => exact ⟨hkind, hlabel⟩
    | cons hkind hlabel _ _ => exact ⟨hkind, hlabel⟩
  refine ⟨?_, rfl⟩
  simp only [expect, hhead.1]
  split
  · exact congrArg Leaf.plain hhead.2
  · exact congrArg (Leaf.missing kinds) hhead.2

/-- An equals sign stands at the front of both of two alike streams or of neither. -/
theorem equals?_alike {ts : List α} {us : List β} (h : Alike f g ts us) :
    (equals? ts = none ∧ equals? us = none) ∨
      ∃ equals equals', equals? ts = some equals ∧ equals? us = some equals' ∧
        Parsed.Agrees (Leaf.map f) (Leaf.map g) equals equals' := by
  cases h with
  | nil => exact .inl ⟨rfl, rfl⟩
  | @cons t u ts us hkind hlabel htouches halike =>
    obtain ⟨hagrees, hoperator⟩ := agrees_operator (.cons hkind hlabel htouches halike)
    rw [equals?, equals?, hoperator]
    split
    · exact .inr ⟨_, _, rfl, rfl, hagrees⟩
    · exact .inl ⟨rfl, rfl⟩

/-! ### Expressions -/

section

variable {s : α} {s' : β}

private theorem agrees_sign {t : α} {u : β} {ts : List α} {us : List β}
    (h : Alike f g (t :: ts) (u :: us)) :
    Parsed.Agrees (Leaf.map f) (Leaf.map g) (operator t ts) (operator u us) ∧
      unaryPrecedence (operator t ts).value.kind = unaryPrecedence (operator u us).value.kind :=
  ⟨(agrees_operator h).1, congrArg unaryPrecedence (agrees_operator h).2⟩

private theorem agrees_all (hs : kind s = kind s') (hlabel : f s = g s') :
    (∀ level ts us, Alike f g ts us →
      ExpressionsAgree f g (expression s level ts) (expression s' level us)) ∧
    (∀ level left ts left' us, ExpressionsAgree f g left left' → Alike f g ts us →
      ExpressionsAgree f g (climb s level left ts) (climb s' level left' us)) ∧
    ∀ level ts us, Alike f g ts us →
      ExpressionsAgree f g (operand s level ts) (operand s' level us) := by
  apply expression.mutual_induct s
  case case1 =>
    intro level ts left hoperand hclimb us halike
    have hleft := hoperand us halike
    rw [expression, expression]
    exact hclimb _ _ hleft (halike.rest hleft)
  case case2 =>
    intro level left left' us hleft halike
    cases halike
    rwa [climb, climb]
  case case3 =>
    intro level left t ts sign precedence hle left' us hleft halike
    obtain ⟨u, us, rfl⟩ := halike.exists_cons
    have hprecedence := congrArg binaryPrecedence (agrees_operator halike).2
    rw [climb, climb, if_pos hle, if_pos (hprecedence ▸ hle)]
    exact hleft
  case case4 =>
    intro level left t ts sign precedence hlt rest right hright _ hclimb left' us hleft halike
    obtain ⟨u, us, rfl⟩ := halike.exists_cons
    obtain ⟨hoperator, hkind⟩ := agrees_operator halike
    have hprecedence : binaryPrecedence (operator u us).value.kind = precedence :=
      congrArg binaryPrecedence hkind.symm
    have hafter := halike.rest hoperator
    have hvalue := hright _ hafter
    rw [climb, climb, hprecedence, if_neg hlt, if_neg hlt]
    exact hclimb _ _ (hleft.binary hoperator hvalue) (hafter.rest hvalue)
  case case5 =>
    intro level us halike
    have hliteral := agrees_expect hs hlabel literalKinds halike
    cases halike
    rw [operand, operand]
    exact .literal hliteral
  case case6 =>
    intro level t ts sign precedence hunary hoperand us halike
    obtain ⟨u, us, rfl⟩ := halike.exists_cons
    obtain ⟨hoperator, hprecedence⟩ := agrees_sign halike
    rw [operand, operand, ← hprecedence, if_pos hunary, if_pos hunary]
    exact .unary hoperator (hoperand _ (halike.rest hoperator))
  case case7 =>
    intro level t ts sign precedence hunary ht hequals us halike
    obtain ⟨u, us, rfl⟩ := halike.exists_cons
    have hu : kind u = .identifier := halike.kind_eq ▸ ht
    rcases equals?_alike halike.tail with ⟨-, hequals'⟩ | ⟨equals, _, hsome, -⟩
    · rw [operand, operand, ← (agrees_sign halike).2, if_neg hunary, if_neg hunary]
      simp only [ht, hu, hequals, hequals']
      exact ⟨congrArg (Expression.identifier ∘ Leaf.plain) halike.label_eq, rfl⟩
    · cases hequals.symm.trans hsome
  case case8 =>
    intro level t ts sign precedence hunary ht equals hequals hvalue us halike
    obtain ⟨u, us, rfl⟩ := halike.exists_cons
    have hu : kind u = .identifier := halike.kind_eq ▸ ht
    rcases equals?_alike halike.tail with ⟨hnone, -⟩ | ⟨_, equals', hsome, hequals', hagrees⟩
    · cases hnone.symm.trans hequals
    · obtain rfl := Option.some.inj (hsome.symm.trans hequals)
      rw [operand, operand, ← (agrees_sign halike).2, if_neg hunary, if_neg hunary]
      simp only [ht, hu, hequals, hequals']
      exact .assignment halike.label_eq hagrees (hvalue _ (halike.tail.rest hagrees))
  case case9 =>
    intro level t ts sign precedence hunary ht hinner us halike
    obtain ⟨u, us, rfl⟩ := halike.exists_cons
    have hu : kind u = .leftParen := halike.kind_eq ▸ ht
    have hagrees := hinner us halike.tail
    rw [operand, operand, ← (agrees_sign halike).2, if_neg hunary, if_neg hunary]
    simp only [ht, hu]
    exact .parenthesized halike.label_eq hagrees
      (agrees_expect hs hlabel [.rightParen] (halike.tail.rest hagrees))
  case case10 =>
    intro level t ts sign precedence hunary hidentifier hparen us halike
    obtain ⟨u, us, rfl⟩ := halike.exists_cons
    have hliteral := agrees_expect hs hlabel literalKinds halike
    rw [operand_of_not hunary hidentifier hparen, operand_of_not ?_ ?_ ?_]
    · exact .literal hliteral
    · rwa [← (agrees_sign halike).2]
    · rwa [← halike.kind_eq]
    · rwa [← halike.kind_eq]

/-- Alike streams begin with expressions that are equal up to labels. -/
theorem agrees_expression (hs : kind s = kind s') (hlabel : f s = g s') (level : Nat) {ts : List α}
    {us : List β} (h : Alike f g ts us) :
    ExpressionsAgree f g (expression s level ts) (expression s' level us) :=
  (agrees_all hs hlabel).1 level ts us h

/-! ### Statements -/

omit [Readable β] in
private theorem significantKind_eq_find? (s : α) (ts : List α) :
    significantKind s ts = ((ts.map kind).find? fun k => !k.isTrivia).getD (kind s) := by
  rw [significantKind, List.find?_map, Option.getD_map]
  rfl

private theorem significantKind_alike (hs : kind s = kind s') {ts : List α} {us : List β}
    (h : Alike f g ts us) : significantKind s ts = significantKind s' us := by
  rw [significantKind_eq_find?, significantKind_eq_find?, h.map_kind_eq, hs]

private theorem agrees_expressionStatement (hs : kind s = kind s') (hlabel : f s = g s')
    {ts : List α} {us : List β} (h : Alike f g ts us) :
    StatementsAgree f g (expressionStatement s ts) (expressionStatement s' us) := by
  have hvalue := agrees_expression hs hlabel 0 h
  have hsemicolon := agrees_expect hs hlabel [.semicolon] (h.rest hvalue)
  exact ⟨congr (congrArg Statement.expression hvalue.value) hsemicolon.value,
    congr (congrArg HAdd.hAdd hvalue.taken) hsemicolon.taken⟩

private theorem agrees_declaration (hs : kind s = kind s') (hlabel : f s = g s') {t : α} {u : β}
    {ts : List α} {us : List β} (h : Alike f g (t :: ts) (u :: us)) :
    StatementsAgree f g (declaration s t ts) (declaration s' u us) := by
  have htype := h.label_eq
  have hname := agrees_expect hs hlabel [.identifier] h.tail
  have hrest := h.tail.drop 1
  rcases equals?_alike hrest with ⟨hnone, hnone'⟩ | ⟨equals, equals', hsome, hsome', hequals⟩
  · rw [declaration_of_equals?_eq_none hnone, declaration_of_equals?_eq_none hnone']
    have hsemicolon := agrees_expect hs hlabel [.semicolon] hrest
    refine ⟨?_, rfl⟩
    simp only [Parsed.app, Parsed.map, Parsed.one, Statement.map, Leaf.map_plain, htype,
      hname.value, hsemicolon.value]
  · rw [declaration_of_equals?_eq_some hsome, declaration_of_equals?_eq_some hsome']
    have hafter := hrest.rest hequals
    have hvalue := agrees_expression hs hlabel 0 hafter
    have hsemicolon := agrees_expect hs hlabel [.semicolon] (hafter.rest hvalue)
    refine ⟨?_, ?_⟩
    · simp only [Parsed.app, Parsed.map, Parsed.one, Statement.map, Leaf.map_plain, htype,
        hname.value, hequals.value, hvalue.value, hsemicolon.value]
    · simp only [Parsed.app, Parsed.map, Parsed.one, hname.taken, hequals.taken, hvalue.taken,
        hsemicolon.taken]

private theorem agrees_blockOf (hs : kind s = kind s') (hlabel : f s = g s') {t : α} {u : β}
    {ts : List α} {us : List β} (h : Alike f g (t :: ts) (u :: us))
    {body : List (Parsed α (Statement (Leaf α)))} {body' : List (Parsed β (Statement (Leaf β)))}
    (hbody : List.Forall₂ (StatementsAgree f g) body body') :
    StatementsAgree f g (blockOf s t ts body) (blockOf s' u us body') := by
  have htotal := StatementsAgree.total_eq hbody
  have hrest : Alike f g (ts.drop (Parsed.total body)) (us.drop (Parsed.total body')) := by
    rw [← htotal]
    exact h.tail.drop _
  have hclosing := agrees_expect hs hlabel [.rightCurlyBrace] hrest
  refine ⟨?_, congr (congrArg (fun total taken => 1 + total + taken) htotal) hclosing.taken⟩
  simp only [blockOf, Statement.map, Statement.mapAll_eq_map, Leaf.map_plain, h.label_eq,
    StatementsAgree.map_eq hbody, hclosing.value]

/-- Alike streams begin with statements that are equal up to labels. -/
theorem forall₂_agrees_statements (hs : kind s = kind s') (hlabel : f s = g s')
    (closers : List TokenKind) {ts : List α} {us : List β} (h : Alike f g ts us) :
    List.Forall₂ (StatementsAgree f g) (statements s closers ts) (statements s' closers us) := by
  refine (statement.mutual_induct
    (fun s t ts => kind s = kind s' → f s = g s' → ∀ u us, Alike f g (t :: ts) (u :: us) →
      StatementsAgree f g (statement s t ts) (statement s' u us))
    (fun s closers ts => kind s = kind s' → f s = g s' → ∀ us, Alike f g ts us →
      List.Forall₂ (StatementsAgree f g) (statements s closers ts) (statements s' closers us))
    ?_ ?_ ?_ ?_ ?_ ?_).2 s closers ts hs hlabel us h
  · intro s t ts hbrace hbody hs hlabel u us halike
    rw [statement_of_leftCurlyBrace hbrace,
      statement_of_leftCurlyBrace (halike.kind_eq ▸ hbrace : kind u = .leftCurlyBrace)]
    exact agrees_blockOf hs hlabel halike (hbody hs hlabel us halike.tail)
  · intro s t ts hnext hidentifier hs hlabel u us halike
    rw [statement_of_identifier hidentifier hnext, statement_of_identifier]
    · exact agrees_declaration hs hlabel halike
    · rwa [← halike.kind_eq]
    · rwa [← significantKind_alike hs halike.tail]
  · intro s t ts hbrace hdeclaration hs hlabel u us halike
    rw [statement_of_not hbrace hdeclaration, statement_of_not]
    · exact agrees_expressionStatement hs hlabel halike
    · rwa [← halike.kind_eq]
    · rwa [← halike.kind_eq, ← significantKind_alike hs halike.tail]
  · intro s closers hs hlabel us halike
    cases halike
    rw [statements, statements]
    exact .nil
  · intro s closers t ts ht hs hlabel us halike
    obtain ⟨u, us, rfl⟩ := halike.exists_cons
    rw [statements, if_pos ht, statements, if_pos (halike.kind_eq ▸ ht)]
    exact .nil
  · intro s closers t ts ht first hfirst hothers hs hlabel us halike
    obtain ⟨u, us, rfl⟩ := halike.exists_cons
    have hagrees := hfirst hs hlabel u us halike
    rw [statements, if_neg ht, statements, if_neg (halike.kind_eq ▸ ht)]
    exact .cons hagrees (hothers hs hlabel _ (halike.rest hagrees))

/-! ### Programs -/

/-- **Kinds and touching decide.** From alike streams the parser makes programs that are equal up to
labels. -/
theorem map_program (hs : kind s = kind s') (hlabel : f s = g s') {ts : List α} {us : List β}
    (h : Alike f g ts us) : (program s ts).map f = (program s' us).map g := by
  have hbody := forall₂_agrees_statements hs hlabel [.endToken] h
  have htotal := StatementsAgree.total_eq hbody
  have hclosing := agrees_expect hs hlabel [.endToken]
    (h.drop (Parsed.total (statements s [.endToken] ts)))
  simp only [program, parsed, Program.map, StatementsAgree.map_eq hbody, ← htotal, hclosing.value]

end

end Parser

end LosslessSyntax
