import LosslessSyntax.Text.Cut

/-!
# Trivia

Trivia is the text between the tokens: runs of spaces and tabs, line breaks, and comments. An item
is recognised by how it starts. A run of blanks is as long as it can be; a carriage return takes the
line feed after it along; a comment of one line ends before the break; a block comment ends at the
first star and slash after its opening, and one that is never closed takes all the text there is.

`Trivia.next?` takes one item off a text and `Gap.scan` all of them, so that the text after a gap
never begins with trivia. `Trivia.of_next?` and `Gap.scan_append` say that no character is lost.
-/

namespace LosslessSyntax

/-- The kinds of trivia. -/
inductive TriviaKind
  /-- A run of spaces and tabs. -/
  | whitespace
  /-- One line break. -/
  | endOfLine
  /-- Two slashes and the text up to the break. -/
  | singleLineComment
  /-- The text from a slash and a star through a star and a slash. -/
  | multiLineComment
deriving DecidableEq, Repr, Inhabited

namespace TriviaKind

/-- All kinds, in the order of their declaration. -/
def all : List TriviaKind :=
  [whitespace, endOfLine, singleLineComment, multiLineComment]

/-- The name of a kind. -/
def name : TriviaKind → String
  | whitespace => "Whitespace"
  | endOfLine => "EndOfLine"
  | singleLineComment => "SingleLineComment"
  | multiLineComment => "MultiLineComment"

/-- The kind with a given name. -/
def ofName? (name : String) : Option TriviaKind :=
  all.find? fun kind => kind.name == name

end TriviaKind

/-- One item of trivia: its kind, its text, and where the text stands. -/
structure Trivia where
  kind : TriviaKind
  text : String
  span : Span
deriving DecidableEq, Repr

/-- Whether a character is a space or a tab. -/
def isBlank (c : Char) : Bool :=
  c = ' ' || c = '\t'

/-- Divides a text after the first star and slash, or at its end if there are none. -/
def throughClosing : List Char → List Char × List Char
  | [] => ([], [])
  | '*' :: '/' :: cs => (['*', '/'], cs)
  | c :: cs => (c :: (throughClosing cs).1, (throughClosing cs).2)

theorem throughClosing_append (cs : List Char) :
    (throughClosing cs).1 ++ (throughClosing cs).2 = cs := by
  fun_induction throughClosing cs <;> simp_all

namespace Trivia

/-- The item of trivia with which a text begins. -/
def next? : List Char → Option (Cut TriviaKind)
  | '\r' :: '\n' :: cs => some ⟨.endOfLine, ['\r', '\n'], cs⟩
  | '/' :: '/' :: cs => some (.run .singleLineComment ['/', '/'] (fun c => !isBreak c) cs)
  | '/' :: '*' :: cs =>
    some ⟨.multiLineComment, '/' :: '*' :: (throughClosing cs).1, (throughClosing cs).2⟩
  | c :: cs =>
    if isBlank c then some (.run .whitespace [c] isBlank cs)
    else if isBreak c then some ⟨.endOfLine, [c], cs⟩
    else none
  | [] => none

/-- The item of trivia with which a text begins, by the first character and the one after it. -/
theorem next?_cons (c : Char) (cs : List Char) :
    next? (c :: cs) =
      if isBlank c then some (.run .whitespace [c] isBlank cs)
      else if isBreak c then
        if c = '\r' ∧ cs.head? = some '\n' then some ⟨.endOfLine, ['\r', '\n'], cs.tail⟩
        else some ⟨.endOfLine, [c], cs⟩
      else if c = '/' ∧ cs.head? = some '/' then
        some (.run .singleLineComment ['/', '/'] (fun c => !isBreak c) cs.tail)
      else if c = '/' ∧ cs.head? = some '*' then
        some ⟨.multiLineComment, '/' :: '*' :: (throughClosing cs.tail).1,
          (throughClosing cs.tail).2⟩
      else none := by
  unfold next?
  split
  · next cs hcons =>
    obtain ⟨rfl, rfl⟩ := List.cons.inj hcons
    rfl
  · next cs hcons =>
    obtain ⟨rfl, rfl⟩ := List.cons.inj hcons
    rfl
  · next cs hcons =>
    obtain ⟨rfl, rfl⟩ := List.cons.inj hcons
    rfl
  · next hbreak hline hblock hcons =>
    obtain ⟨rfl, rfl⟩ := List.cons.inj hcons
    have hpair (a b : Char) (h : ∀ ds, c = a → cs = b :: ds → False) :
        ¬(c = a ∧ cs.head? = some b) := by
      rintro ⟨hc, hhead⟩
      cases cs with
      | nil => cases hhead
      | cons d ds => exact h ds hc (by rw [Option.some.inj hhead])
    rw [if_neg (hpair _ _ hbreak), if_neg (hpair _ _ hline), if_neg (hpair _ _ hblock)]
  · next hnil => cases hnil

/-- An item is cut off the front of the text. -/
theorem of_next? {cs : List Char} {cut : Cut TriviaKind} (h : next? cs = some cut) :
    cut.Of cs := by
  unfold next? at h
  split at h
  · cases h; exact ⟨rfl, by simp⟩
  · cases h; exact Cut.of_run _ _ _ (by simp)
  · cases h; exact ⟨by simp [throughClosing_append], by simp⟩
  · split at h
    · cases h; exact Cut.of_run _ _ _ (by simp)
    · split at h
      · cases h; exact ⟨rfl, by simp⟩
      · cases h
  · cases h

theorem length_rest_lt {cs : List Char} {cut : Cut TriviaKind} (h : next? cs = some cut) :
    cut.rest.length < cs.length :=
  (of_next? h).length_rest_lt

/-- The item that a cut at a position makes. -/
def ofCut (position : Nat) (cut : Cut TriviaKind) : Trivia :=
  ⟨cut.kind, String.ofList cut.piece, position, byteLength cut.piece⟩

end Trivia

/-- The trivia between two tokens: its items, its characters, and the text after it. -/
structure Gap where
  items : List Trivia
  piece : List Char
  rest : List Char

namespace Gap

/-- All the trivia with which a text begins that stands at a position. -/
def scan (position : Nat) (cs : List Char) : Gap :=
  match _ : Trivia.next? cs with
  | none => ⟨[], [], cs⟩
  | some cut =>
    let gap := scan (position + byteLength cut.piece) cut.rest
    ⟨Trivia.ofCut position cut :: gap.items, cut.piece ++ gap.piece, gap.rest⟩
termination_by cs.length
decreasing_by exact Trivia.length_rest_lt ‹_›

/-- No character is lost between a gap and the text after it. -/
theorem scan_append (position : Nat) (cs : List Char) :
    (scan position cs).piece ++ (scan position cs).rest = cs := by
  fun_induction scan position cs with
  | case1 => rfl
  | case2 position cs cut h gap ih =>
    rw [List.append_assoc, ih, (Trivia.of_next? h).append_eq]

/-- No item is left at the front of the text after a gap. -/
theorem next?_rest (position : Nat) (cs : List Char) :
    Trivia.next? (scan position cs).rest = none := by
  fun_induction scan position cs with
  | case1 position cs h => exact h
  | case2 position cs cut h gap ih => exact ih

theorem length_rest_le (position : Nat) (cs : List Char) :
    (scan position cs).rest.length ≤ cs.length := by
  have := congrArg List.length (scan_append position cs)
  rw [List.length_append] at this
  omega

end Gap

end LosslessSyntax
