import LosslessSyntax.Proofs.Diagnostic.FirstError
import LosslessSyntax.Proofs.Diagnostic.Flaws
import LosslessSyntax.Proofs.Text.Lookup

/-!
# Reported places

A diagnostic is reported at the place of its start (`Diagnostic.place`). Errors of a text start with
a character that is not of a break (`withinLine_of_mem_lexicalErrors`), and so do all tokens that an
error of the tree can be about, but for the end of the input (`withinLine_of_mem_diagnostics`). The
place of such a character is on a line of the source, before the break of the line, and that of the
end of the input is at the end of the last line.

As the lookup keeps the order of positions, the places come in the order of the diagnostics
(`diagnostics_places`).
-/

namespace LosslessSyntax

/-- The place at which a diagnostic is reported. -/
def Diagnostic.place (source : Source) (error : Diagnostic) : LinePosition :=
  source.linePosition error.span.start

variable {text : String} {tree : SyntaxTree}

/-- A diagnostic starts with a character that is not of a break, or it is an error about the end of
the input, which stands at the end of the text. -/
theorem withinLine_of_mem_diagnostics (h : parse (tokenize text) = .ok tree) {error : Diagnostic}
    (herror : error ∈ diagnostics (tokenize text) tree) :
    (Source.ofString text).WithinLine error.span.start ∨
      ∃ expected, error = .grammatical ⟨expected, .endToken, ⟨text.utf8ByteSize, 0⟩⟩ := by
  rcases mem_diagnostics.mp herror with ⟨flaw, hflaw, rfl⟩ | ⟨other, hother, rfl⟩
  · exact .inl (withinLine_of_mem_lexicalErrors hflaw)
  · by_cases hend : other.found = .endToken
    · refine .inr ⟨other.expected, ?_⟩
      rw [← span_of_found_eq_endToken h hother hend, ← hend]
    · obtain ⟨token, htoken, hfound, hspan⟩ := exists_token_of_mem_diagnostics h other hother
      rw [← hfound] at hend
      have hwithin := Token.withinLine htoken hend
      rw [hspan] at hwithin
      exact .inl hwithin

/-- **Diagnostics are reported at places of the text.** For every diagnostic of a text and its tree
the source has the line of its place, and the column is at most the length of this line without its
break. It is less than the length unless the diagnostic is an error of the tree about the end of the
input. The places do not decrease from one diagnostic to the next. -/
theorem diagnostics_places (text : String) :
    ∃ tree, parse (tokenize text) = .ok tree ∧
      (∀ error ∈ diagnostics (tokenize text) tree, ∃ line,
        (Source.ofString text).lines[(error.place (.ofString text)).line]? = some line ∧
        (error.place (.ofString text)).column ≤ line.length ∧
        ((error.place (.ofString text)).column < line.length ∨
          ∃ expected, error = .grammatical ⟨expected, .endToken, ⟨text.utf8ByteSize, 0⟩⟩)) ∧
      ((diagnostics (tokenize text) tree).map (Diagnostic.place (.ofString text))).Pairwise
        (· ≤ ·) := by
  obtain ⟨tree, hparse⟩ := exists_parse_tokenize text
  refine ⟨tree, hparse, fun error herror => ?_, ?_⟩
  · rcases withinLine_of_mem_diagnostics hparse herror with hwithin | ⟨expected, rfl⟩
    · obtain ⟨line, hline, hlt⟩ := hwithin.exists_column_lt_length
      exact ⟨line, hline, Nat.le_of_lt hlt, .inl hlt⟩
    · obtain ⟨line, hline, heq⟩ := Source.exists_column_eq_length text
      exact ⟨line, hline, Nat.le_of_eq heq, .inr ⟨expected, rfl⟩⟩
  · refine List.pairwise_map.mpr ((sorted_diagnostics (tokenize text) tree).imp fun hle => ?_)
    exact (Source.strictMono_linePosition text).monotone hle

end LosslessSyntax
