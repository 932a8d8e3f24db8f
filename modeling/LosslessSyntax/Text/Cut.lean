import LosslessSyntax.Text.Line

/-!
# Cuts

A scanner takes a piece off the front of a text. What it answers is a `Cut`: what kind of piece it
took, the characters of the piece, and the rest. `Cut.Of cs` says that nothing was lost and
something was taken, so that the rest is shorter than the text and a scan that goes on with it comes
to an end.
-/

namespace LosslessSyntax

/-- A piece at the front of a text, of a kind, and the text after it. -/
structure Cut (κ : Type) where
  kind : κ
  piece : List Char
  rest : List Char
deriving DecidableEq, Repr

/-- A run ends where its characters do. -/
theorem takeWhile_append_of_run {test : Char → Bool} {run rest : List Char}
    (hrun : ∀ c ∈ run, test c = true) (hrest : ∀ c ∈ rest.head?, test c = false) :
    (run ++ rest).takeWhile test = run ∧ (run ++ rest).dropWhile test = rest := by
  rw [List.takeWhile_append_of_pos hrun, List.dropWhile_append_of_pos hrun]
  cases rest with
  | nil => exact ⟨List.append_nil run, rfl⟩
  | cons d rest =>
    have hd : ¬test d = true := by simp [hrest d rfl]
    rw [List.takeWhile_cons_of_neg hd, List.dropWhile_cons_of_neg hd, List.append_nil]
    exact ⟨rfl, rfl⟩

namespace Cut

/-- A cut divides a text into a piece that is not empty and the rest. -/
structure Of {κ : Type} (cut : Cut κ) (cs : List Char) : Prop where
  append_eq : cut.piece ++ cut.rest = cs
  piece_ne_nil : cut.piece ≠ []

theorem Of.length_rest_lt {κ : Type} {cut : Cut κ} {cs : List Char} (h : cut.Of cs) :
    cut.rest.length < cs.length := by
  have := List.length_pos_iff.2 h.piece_ne_nil
  rw [← h.append_eq, List.length_append]
  omega

/-- The cut after an opening and the longest run of characters after it that pass a test. -/
def run {κ : Type} (kind : κ) (opening : List Char) (test : Char → Bool) (cs : List Char) : Cut κ :=
  ⟨kind, opening ++ cs.takeWhile test, cs.dropWhile test⟩

theorem of_run {κ : Type} (kind : κ) {opening : List Char} (test : Char → Bool) (cs : List Char)
    (h : opening ≠ []) : (run kind opening test cs).Of (opening ++ cs) where
  append_eq := by simp [run]
  piece_ne_nil := by simp [run, h]

end Cut

end LosslessSyntax
