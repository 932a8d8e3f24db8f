import LosslessSyntax.Token.Kind
import LosslessSyntax.Token.Trivia

/-!
# Tokens

A token holds its kind, its text, the place of its text, and the trivia on both sides of it. The
text of a whole stream, trivia included, is `fullText`: nothing of a source is kept anywhere else.
-/

namespace LosslessSyntax

/-- A token: its kind, its text, where the text stands, and the trivia before and after it. -/
structure Token where
  kind : TokenKind
  value : String
  span : Span
  leading : List Trivia := []
  trailing : List Trivia := []
deriving DecidableEq, Repr

namespace Token

/-- The end of the input at a position: a token without text and trivia. -/
def endAt (position : Nat) : Token :=
  { kind := .endToken, value := "", span := ⟨position, 0⟩ }

/-- The same token as what stands where another kind was expected. -/
def toMissing (token : Token) : Token :=
  { token with kind := .missingToken }

/-- Whether no trivia stands between a token and the one after it. -/
def touches (token next : Token) : Bool :=
  token.trailing.isEmpty && next.leading.isEmpty

/-- Where a token and its trivia start: with the first item of the leading trivia, if there is any.
-/
def fullStart (token : Token) : Nat :=
  (token.leading.head?.map fun item => item.span.start).getD token.span.start

/-- Where a token and its trivia stop: with the last item of the trailing trivia, if there is any.
-/
def fullStop (token : Token) : Nat :=
  (token.trailing.getLast?.map fun item => item.span.stop).getD token.span.stop

/-- The span of a token and its trivia. The end of the token itself is looked at even where trivia
comes after it. -/
def fullSpan (token : Token) (arithmetic : Arithmetic := .exact) : Except Fault Span := do
  let stop ← token.span.stopIn arithmetic
  match token.trailing.getLast? with
  | none => Span.ofBounds token.fullStart stop
  | some item => Span.ofBounds token.fullStart (← item.span.stopIn arithmetic)

/-- The text of a token and its trivia. -/
def fullText (token : Token) : String :=
  String.join (token.leading.map Trivia.text) ++ token.value ++
    String.join (token.trailing.map Trivia.text)

section

variable {token : Token} {arithmetic : Arithmetic}

theorem fullSpan_of_store {own stop : Nat} (hown : arithmetic.store token.span.stop = .ok own)
    (hstop : arithmetic.store token.fullStop = .ok stop) :
    token.fullSpan arithmetic = Span.ofBounds token.fullStart stop := by
  have htrailing : ∀ item ∈ token.trailing.getLast?, item.span.stop = token.fullStop := by
    intro item hitem
    rw [fullStop, Option.mem_def.mp hitem]
    rfl
  rw [fullSpan, Span.stopIn, hown]
  cases hlast : token.trailing.getLast? with
  | none =>
    rw [fullStop, hlast] at hstop
    exact congrArg (Span.ofBounds token.fullStart) (Except.ok.inj (hown.symm.trans hstop))
  | some item =>
    simp only [bind, Except.bind, Span.stopIn, htrailing item hlast, hstop]

theorem fullSpan_exact (token : Token) :
    token.fullSpan = Span.ofBounds token.fullStart token.fullStop :=
  fullSpan_of_store rfl rfl

/-- Whether an arithmetic refuses the end of a token, or that of the trivia after it. -/
def Overflows (token : Token) (arithmetic : Arithmetic) : Prop :=
  arithmetic.Overflows token.span.stop ∨
    ∃ item ∈ token.trailing.getLast?, arithmetic.Overflows item.span.stop

theorem fullSpan_of_overflows (h : token.Overflows arithmetic) :
    token.fullSpan arithmetic = .error .overflow := by
  by_cases hown : arithmetic.Overflows token.span.stop
  · rw [fullSpan, Span.stopIn, Arithmetic.store_of_overflows hown]
    rfl
  · obtain ⟨item, hitem, hbehind⟩ := h.resolve_left hown
    rw [fullSpan, Span.stopIn, Arithmetic.store_of_not_overflows hown, Option.mem_def.mp hitem]
    simp only [bind, Except.bind, Span.stopIn, Arithmetic.store_of_overflows hbehind]

theorem not_overflows_fullStop (h : ¬token.Overflows arithmetic) :
    ¬arithmetic.Overflows token.fullStop := by
  obtain ⟨hown, hbehind⟩ := not_or.mp h
  rw [fullStop]
  cases hlast : token.trailing.getLast? with
  | none => exact hown
  | some item => exact fun hitem => hbehind ⟨item, hlast, hitem⟩

theorem fullSpan_of_not_overflows (h : ¬token.Overflows arithmetic) :
    token.fullSpan arithmetic =
      Span.ofBounds token.fullStart (arithmetic.residue token.fullStop) :=
  fullSpan_of_store (Arithmetic.store_of_not_overflows (not_or.mp h).1)
    (Arithmetic.store_of_not_overflows (not_overflows_fullStop h))

/-- Where the ends fit, the full span is the same in any arithmetic. -/
theorem fullSpan_of_holds (hown : arithmetic.Holds token.span.stop)
    (hfull : arithmetic.Holds token.fullStop) : token.fullSpan arithmetic = token.fullSpan := by
  rw [fullSpan_exact]
  exact fullSpan_of_store (Arithmetic.store_of_holds hown) (Arithmetic.store_of_holds hfull)

/-- The end of a full span is kept as it is. -/
theorem stopIn_of_fullSpan {span : Span} (h : token.fullSpan arithmetic = .ok span) :
    span.stopIn arithmetic = .ok span.stop := by
  by_cases hover : token.Overflows arithmetic
  · rw [fullSpan_of_overflows hover] at h
    cases h
  · rw [fullSpan_of_not_overflows hover] at h
    rw [Span.stopIn, Span.stop_of_ofBounds h]
    exact Arithmetic.store_of_holds (Arithmetic.holds_residue (not_overflows_fullStop hover))

end

end Token

/-- The text of a stream of tokens and their trivia. -/
def fullText (tokens : List Token) : String :=
  String.join (tokens.map Token.fullText)

@[simp] theorem fullText_nil : fullText [] = "" :=
  rfl

theorem fullText_cons (token : Token) (tokens : List Token) :
    fullText (token :: tokens) = token.fullText ++ fullText tokens := by
  rw [fullText, fullText, List.map_cons, String.join_cons]

theorem fullText_append (tokens others : List Token) :
    fullText (tokens ++ others) = fullText tokens ++ fullText others := by
  rw [fullText, fullText, fullText, List.map_append, String.join_append]

theorem fullText_replicate {token : Token} (h : token.fullText = "") (n : Nat) :
    fullText (List.replicate n token) = "" := by
  induction n with
  | zero => rfl
  | succ n ih => rw [List.replicate_succ, fullText_cons, h, ih, String.empty_append]

end LosslessSyntax
