import LosslessSyntax.Proofs.Token.Tiling
import LosslessSyntax.Proofs.Tree.Endless
import LosslessSyntax.Proofs.Tree.Validity

/-!
# Every stream has a tree

Whatever the kinds of a stream are, the parser comes to an end, and soon. The only stream without a
tree is one in which the last token and its trivia would end before they start, since nothing can
stand behind it, or where an arithmetic refuses that end. For all others `parse_answers` gives a
bound on the depth of the calls, and one on the tokens taken, in the number `n` of the tokens:
beyond the stream the parser takes a sentinel for each parenthesis and brace that is open, one for
an operand that is missing, one for a semicolon and one for the end.

In words up to a greatest one the end of the last token is the only sum that the parser makes of the
offsets of a stream. Where there is a word for it, there is no difference to numbers without a bound
(`parse_eq_of_holds`), and there is one in every text that is short enough
(`parse_tokenize_eq_of_holds`).

That the stream does not end in a sentinel makes no difference: what stands behind it can be written
out (`parse_append_sentinel`).
-/

namespace LosslessSyntax

/-! ### How many tokens are taken -/

namespace Parser

variable {α : Type} [Readable α]

/-- An operator is spelled by tokens of the stream. -/
theorem taken_operator_le (t : α) (ts : List α) : (operator t ts).taken ≤ (t :: ts).length := by
  rcases operator_cases t ts with hone | ⟨compound, others, rest, rfl, -, hmerged⟩
  · rw [hone]
    exact Nat.le_add_left 1 _
  · rw [hmerged, List.length_cons, List.length_append]
    simp only
    omega

/-- An expression takes one token more than twice the tokens that are left: in parentheses each
opening one can ask for a closing one. An operator and the operand to its left are tokens of the
stream. -/
theorem Reads.taken_le {sentinel : α} {level : Nat} {ts : List α}
    {p : Parsed α (Expression (Leaf α))} (h : Reads sentinel level ts p) :
    p.taken ≤ 2 * ts.length + 1 := by
  induction h with
  | literal => exact Nat.le_add_left 1 _
  | identifier => exact Nat.le_add_left 1 _
  | @assignment _ t ts equals value _ hequals _ _ ih =>
    obtain ⟨u, rest, rfl, -, rfl⟩ := equals?_eq_some hequals
    rw [Parsed.rest_one] at ih
    simp only [Parsed.app, Parsed.one, List.length_cons]
    omega
  | @parenthesized _ t ts inner _ _ _ ih =>
    simp only [Parsed.app, Parsed.one, expect, List.length_cons]
    omega
  | @unary _ t ts operand _ _ _ _ ih =>
    have hsign := taken_operator_le t ts
    rw [Parsed.rest, List.length_drop] at ih
    simp only [Parsed.app, Parsed.map]
    omega
  | @binary _ ts rest t left right _ hrest _ _ _ _ ih =>
    have hsign := taken_operator_le t rest
    have hleft := congrArg List.length hrest
    rw [Parsed.rest, List.length_drop] at ih hleft
    rw [List.length_cons] at ih hsign hleft
    simp only [Parsed.app, Parsed.map]
    omega

/-- A statement and those after it, where the bound for one statement is that for several: what
takes all that is left has no statement after it. -/
private theorem total_cons_le {sentinel : α} {closers : List TokenKind} {ts : List α}
    {first : Parsed α (Statement (Leaf α))} {others : List (Parsed α (Statement (Leaf α)))}
    (hfirst : first.taken ≤ 2 * ts.length + 2)
    (hothers : ReadsAll sentinel closers (first.rest ts) others)
    (ih : Parsed.total others ≤ 2 * (first.rest ts).length + 2) :
    Parsed.total (first :: others) ≤ 2 * ts.length + 2 := by
  rw [Parsed.total]
  by_cases hlt : first.taken < ts.length
  · rw [Parsed.rest, List.length_drop] at ih
    omega
  · have hnil : first.rest ts = [] := List.drop_eq_nil_of_le (Nat.le_of_not_lt hlt)
    rw [hnil] at hothers
    cases hothers
    exact hfirst

theorem ReadsAll.total_le {sentinel : α} {closers : List TokenKind} {ts : List α}
    {ps : List (Parsed α (Statement (Leaf α)))} (h : ReadsAll sentinel closers ts ps) :
    Parsed.total ps ≤ 2 * ts.length + 2 := by
  induction h with
  | nil => exact Nat.zero_le _
  | closer => exact Nat.zero_le _
  | @block closers t ts body others _ _ _ hothers ihbody ih =>
    refine total_cons_le ?_ hothers ih
    simp only [blockOf, expect, List.length_cons]
    omega
  | @declaration closers t ts others _ _ hothers ih =>
    refine total_cons_le ?_ hothers ih
    cases hequals : equals? (ts.drop 1) with
    | none =>
      rw [declaration_of_equals?_eq_none hequals, List.length_cons]
      simp only [Parsed.app, Parsed.map, expect, Parsed.one]
      omega
    | some equals =>
      obtain ⟨u, rest, hdrop, -, rfl⟩ := equals?_eq_some hequals
      have hvalue := (reads_expression sentinel 0 rest).taken_le
      have hlength := congrArg List.length hdrop
      rw [List.length_drop, List.length_cons] at hlength
      rw [declaration_of_equals?_eq_some hequals, hdrop, Parsed.rest_one, List.length_cons]
      simp only [Parsed.app, Parsed.map, expect, Parsed.one]
      omega
  | @expression closers t ts others _ hothers ih =>
    refine total_cons_le ?_ hothers ih
    have hvalue := (reads_expression sentinel 0 (t :: ts)).taken_le
    simp only [expressionStatement, Parsed.app, Parsed.map, expect]
    omega

theorem taken_le (sentinel : α) (ts : List α) : taken sentinel ts ≤ 2 * ts.length + 3 :=
  Nat.succ_le_succ (reads_statements sentinel [.endToken] ts).total_le

end Parser

/-- A tree has at most as many tokens as were used for it. -/
theorem Conserves.length_le {used tokens : List Token} {errors : List ParseError}
    (h : Conserves used tokens errors) : tokens.length ≤ used.length := by
  induction h with
  | nil => exact Nat.le_refl 0
  | unchanged _ _ ih | missing _ _ ih => exact Nat.succ_le_succ ih
  | compound _ _ _ _ _ _ ih =>
    simp only [List.length_append, List.length_cons]
    omega

/-! ### The answer -/

/-- What stands behind a stream is an end of the input. -/
theorem kind_of_sentinelOf {tokens : List Token} {sentinel : Token} {arithmetic : Arithmetic}
    (h : sentinelOf tokens arithmetic = .ok sentinel) : sentinel.kind = .endToken := by
  rcases List.eq_nil_or_concat tokens with rfl | ⟨body, last, rfl⟩
  · cases h
    rfl
  · rw [List.concat_eq_append, sentinelOf_append_singleton] at h
    cases hspan : last.fullSpan arithmetic with
    | error fault =>
      rw [hspan] at h
      cases h
    | ok span =>
      rw [hspan] at h
      obtain rfl := Except.ok.inj h
      split
      · assumption
      · rfl

/-- Whether the end of the last token of a stream, or that of the trivia after it, is refused. -/
def EndsBeyond (arithmetic : Arithmetic) (tokens : List Token) : Prop :=
  ∃ last ∈ tokens.getLast?, last.Overflows arithmetic

/-- Whether the last token of a stream and its trivia would end before they start. -/
def EndsReversed (arithmetic : Arithmetic) (tokens : List Token) : Prop :=
  ∃ last ∈ tokens.getLast?, arithmetic.residue last.fullStop < last.fullStart

section

variable {arithmetic : Arithmetic} {tokens : List Token}

/-- Nothing stands behind a stream whose end is refused. -/
theorem sentinelOf_of_endsBeyond (h : EndsBeyond arithmetic tokens) :
    sentinelOf tokens arithmetic = .error .overflow := by
  obtain ⟨last, hlast, hover⟩ := h
  obtain ⟨body, rfl⟩ := List.getLast?_eq_some_iff.mp hlast
  rw [sentinelOf_append_singleton, Token.fullSpan_of_overflows hover]
  rfl

/-- Nothing stands behind a stream that ends with a reversed token. -/
theorem sentinelOf_of_endsReversed (hbeyond : ¬EndsBeyond arithmetic tokens)
    (h : EndsReversed arithmetic tokens) : sentinelOf tokens arithmetic = .error .reversedSpan := by
  obtain ⟨last, hlast, hlt⟩ := h
  have hover : ¬last.Overflows arithmetic := fun hover => hbeyond ⟨last, hlast, hover⟩
  obtain ⟨body, rfl⟩ := List.getLast?_eq_some_iff.mp hlast
  rw [sentinelOf_append_singleton, Token.fullSpan_of_not_overflows hover, Span.ofBounds_of_lt hlt]
  rfl

/-- Something stands behind any other stream. -/
theorem exists_sentinelOf (hbeyond : ¬EndsBeyond arithmetic tokens)
    (hreversed : ¬EndsReversed arithmetic tokens) :
    ∃ sentinel, sentinelOf tokens arithmetic = .ok sentinel := by
  rcases List.eq_nil_or_concat tokens with rfl | ⟨body, last, rfl⟩
  · exact ⟨_, rfl⟩
  · rw [List.concat_eq_append] at hbeyond hreversed ⊢
    have hover : ¬last.Overflows arithmetic :=
      fun hover => hbeyond ⟨last, List.getLast?_concat, hover⟩
    have hle := Nat.le_of_not_lt fun hlt => hreversed ⟨last, List.getLast?_concat, hlt⟩
    rw [sentinelOf_append_singleton, Token.fullSpan_of_not_overflows hover,
      Span.ofBounds_of_le hle]
    exact ⟨_, rfl⟩

end

/-- **The parser answers.** Whatever the kinds of a stream are, the only faults are that the end of
its last token and its trivia is refused, which is so only where sums are checked, or else that it
comes before their start. In all other cases there is a tree: that of the program which the machine
finds on the endless stream, within a depth of calls, turns of loops counted, of four more than
twice the number of tokens. It takes at most three more than twice the number of tokens, sentinels
counted, and the tree has no more tokens than that. -/
theorem parse_answers (arithmetic : Arithmetic) (tokens : List Token) :
    (∀ fault, parse tokens arithmetic = .error fault ↔
        fault = .overflow ∧ EndsBeyond arithmetic tokens ∨
          fault = .reversedSpan ∧ ¬EndsBeyond arithmetic tokens ∧
            EndsReversed arithmetic tokens) ∧
      Fault.message? .reversedSpan = some "span end before start" ∧
      (EndsBeyond arithmetic tokens ∨ EndsReversed arithmetic tokens ∨
        ∃ (sentinel : Token) (program : Parser.Program Token) (taken : Nat),
          sentinelOf tokens arithmetic = .ok sentinel ∧ sentinel.kind = .endToken ∧
          (∀ depth ≥ 2 * tokens.length + 4,
            Endless.program? (Endless.ofList sentinel tokens) depth = some (program, taken)) ∧
          parse tokens arithmetic = .ok program.tree ∧
          taken ≤ 2 * tokens.length + 3 ∧ program.tree.tokens.length ≤ taken) := by
  by_cases hbeyond : EndsBeyond arithmetic tokens
  · have herror : parse tokens arithmetic = .error .overflow := by
      rw [parse, sentinelOf_of_endsBeyond hbeyond]
      rfl
    refine ⟨fun fault => ?_, rfl, .inl hbeyond⟩
    rw [herror, Except.error.injEq, and_iff_left hbeyond, eq_comm]
    exact (or_iff_left fun h => h.2.1 hbeyond).symm
  by_cases hreversed : EndsReversed arithmetic tokens
  · have hboth : ¬EndsBeyond arithmetic tokens ∧ EndsReversed arithmetic tokens :=
      ⟨hbeyond, hreversed⟩
    have herror : parse tokens arithmetic = .error .reversedSpan := by
      rw [parse, sentinelOf_of_endsReversed hbeyond hreversed]
      rfl
    refine ⟨fun fault => ?_, rfl, .inr (.inl hreversed)⟩
    rw [herror, Except.error.injEq, and_iff_left hboth, eq_comm]
    exact (or_iff_right fun h => hbeyond h.2).symm
  · obtain ⟨sentinel, hsentinel⟩ := exists_sentinelOf hbeyond hreversed
    have hkind := kind_of_sentinelOf hsentinel
    have htree := parse_of_sentinelOf hsentinel
    refine ⟨fun fault => ?_, rfl, .inr (.inr ⟨sentinel, _, _, hsentinel, hkind,
      Endless.program?_ofList hkind tokens, htree, Parser.taken_le sentinel tokens, ?_⟩)⟩
    · rw [htree]
      refine iff_of_false (fun heq => ?_) fun h =>
        h.elim (fun h => hbeyond h.2) fun h => hreversed h.2.2
      cases heq
    · exact (conserves_tree sentinel tokens).length_le.trans
        (Nat.le_of_eq (List.takeD_length _ _ _))

/-- Three parentheses that nothing closes take as many tokens as three tokens can. -/
example :
    let opening : Token := { kind := .leftParen, value := "(", span := ⟨0, 1⟩ }
    (Endless.program? (Endless.ofList (.endAt 3) [opening, opening, opening]) 10).map Prod.snd =
      some 9 := by
  cbv

/-! ### Words up to a greatest one -/

/-- Where there is a word for the end of the last token, and one for the end of its trivia, the
words make no difference. -/
theorem parse_eq_of_holds {arithmetic : Arithmetic} {tokens : List Token}
    (h : ∀ last ∈ tokens.getLast?,
      arithmetic.Holds last.span.stop ∧ arithmetic.Holds last.fullStop) :
    parse tokens arithmetic = parse tokens := by
  have hsentinel : sentinelOf tokens arithmetic = sentinelOf tokens := by
    rcases List.eq_nil_or_concat tokens with rfl | ⟨body, last, rfl⟩
    · rfl
    · rw [List.concat_eq_append] at h ⊢
      obtain ⟨hown, hfull⟩ := h last List.getLast?_concat
      rw [sentinelOf_append_singleton, sentinelOf_append_singleton,
        Token.fullSpan_of_holds hown hfull]
  rw [parse, parse, hsentinel]

/-- A token that ends just beyond the greatest word has no tree, but for two reasons. -/
example :
    let last : Token := { kind := .semicolon, value := ";", span := ⟨255, 1⟩ }
    parse [last] (.checked 255) = .error .overflow ∧
      parse [last] (.wrapping 255) = .error .reversedSpan :=
  ⟨rfl, rfl⟩

/-- Hence they make none to a text for whose length there is a word. -/
theorem parse_tokenize_eq_of_holds {arithmetic : Arithmetic} {text : String}
    (h : arithmetic.Holds text.utf8ByteSize) :
    parse (tokenize text) arithmetic = parse (tokenize text) := by
  obtain ⟨body, leading, htokens, -⟩ := tokenize_eq_append text
  refine parse_eq_of_holds fun last hlast => ?_
  rw [htokens, List.getLast?_concat] at hlast
  obtain rfl := Option.some.inj hlast
  exact ⟨h, h⟩

/-! ### The sentinel written out -/

theorem sentinelOf_append_endAt (tokens : List Token) (position : Nat) :
    sentinelOf (tokens ++ [.endAt position]) = .ok (.endAt position) := by
  have hspan : (Token.endAt position).fullSpan = .ok ⟨position, 0⟩ :=
    (Token.fullSpan_exact _).trans (Span.ofBounds_start_stop ⟨position, 0⟩)
  rw [sentinelOf_append_singleton, hspan]
  rfl

/-- What stands behind a stream with a tree is what the parser uses there, and it does so behind the
stream with one more token, too. -/
theorem StandsBehind.sentinelOf_eq {tokens : List Token} {sentinel found : Token}
    (h : StandsBehind tokens sentinel) (hfound : sentinelOf tokens = .ok found) :
    found = sentinel ∧ sentinelOf (tokens ++ [sentinel]) = .ok sentinel := by
  cases h with
  | empty =>
    exact ⟨(Except.ok.inj hfound).symm, sentinelOf_append_endAt [] 0⟩
  | last hkind =>
    rw [sentinelOf_append_singleton] at hfound ⊢
    cases hspan : sentinel.fullSpan with
    | error fault =>
      rw [hspan] at hfound
      cases hfound
    | ok span =>
      rw [hspan] at hfound
      simp only [hkind, if_true] at hfound ⊢
      exact ⟨(Except.ok.inj hfound).symm, rfl⟩
  | after hkind hspan =>
    rw [sentinelOf_append_singleton, hspan] at hfound
    simp only [hkind, if_false] at hfound
    exact ⟨(Except.ok.inj hfound).symm, sentinelOf_append_endAt _ _⟩

/-- **The sentinel can be written out.** Where a stream has a tree, the stream with what stands
behind it as one more token has the same tree. -/
theorem parse_append_sentinel {tokens : List Token} {tree : SyntaxTree}
    (h : parse tokens = .ok tree) :
    (∃ sentinel, StandsBehind tokens sentinel) ∧
      ∀ sentinel, StandsBehind tokens sentinel → parse (tokens ++ [sentinel]) = .ok tree := by
  obtain ⟨found, hfound, rfl⟩ := exists_program_of_parse h
  refine ⟨⟨found, standsBehind_of_sentinelOf hfound⟩, fun sentinel hsentinel => ?_⟩
  obtain ⟨rfl, happend⟩ := hsentinel.sentinelOf_eq hfound
  rw [parse_of_sentinelOf happend, Endless.program_append_singleton hsentinel.kind_eq]

/-- A block and a parenthesis in it that nothing closes, and a blank. -/
def truncatedBlock : List Token :=
  [{ kind := .leftCurlyBrace, value := "\x7b", span := ⟨0, 1⟩ },
    { kind := .leftParen, value := "(", span := ⟨1, 1⟩,
      trailing := [⟨.whitespace, " ", ⟨2, 1⟩⟩] }]

theorem parse_append_sentinel_truncatedBlock :
    ∃ tree, parse truncatedBlock = .ok tree ∧
      StandsBehind truncatedBlock (.endAt 3) ∧ parse (truncatedBlock ++ [.endAt 3]) = .ok tree := by
  have hsentinel : sentinelOf truncatedBlock = .ok (.endAt 3) := rfl
  have htree := parse_of_sentinelOf hsentinel
  have hbehind := standsBehind_of_sentinelOf hsentinel
  exact ⟨_, htree, hbehind, (parse_append_sentinel htree).2 _ hbehind⟩

end LosslessSyntax
