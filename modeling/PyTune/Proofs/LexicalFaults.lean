import PyTune.Proofs.ScanStep
import PyTune.Proofs.Editing

/-!
# The first lexical fault ends reading

A source has at most one lexical fault, followed only by the end of input
(`Lexeme.scan_fault_unique`), so a source with one fails to read at it or at an earlier lexeme
(`Module.parse_lexical_first`).
-/

namespace PyTune

namespace Scanner

/-- A lexeme read inside a line that is a lexical fault leaves the scanner failed. -/
theorem Body.failed_of_fault {s : Scanner} {r : Lexeme × Scanner} (h : Body s r)
    (hf : r.1.token.fault? ≠ none) : r.2.failed = true := by
  cases h with
  | unclosed | unmatched | mismatched | fault => rfl
  | closeLevels | eof | lineEnd => exact absurd rfl hf
  | opening _ ht => exact absurd (Token.fault?_of_opening ht) hf
  | closing _ _ ht => exact absurd (Token.fault?_of_closing ht) hf
  | token _ _ _ clean => exact absurd clean hf

/-- A step that gives a lexical fault leaves the scanner failed. -/
theorem Step.failed_of_fault {s : Scanner} {r : Lexeme × Scanner} (h : Step s r)
    (hf : r.1.token.fault? ≠ none) : r.2.failed = true := by
  cases h with
  | ended | owed | indent | dedent => exact absurd rfl hf
  | badDedent => rfl
  | lineCode _ _ _ _ _ _ _ read | inLine _ _ _ _ read => exact read.failed_of_fault hf

theorem next_of_failed {s : Scanner} (h : s.failed = true) :
    s.next = (⟨.eof, ⟨s.size, s.size⟩⟩, s) := by
  unfold next
  rw [if_pos h]

end Scanner

section Tape

variable {src : String} {k : Nat}

theorem Tape.lexemes_ofSource (src : String) : (Tape.ofSource src).lexemes = Lexeme.scan src :=
  rfl

/-- Where the source has a lexeme, the tape read from it gives that lexeme. -/
theorem Tape.lexemeAt_ofSource {l : Lexeme} (h : (Lexeme.scan src)[k]? = some l) :
    (Tape.ofSource src).lexemeAt k = l := by
  unfold Tape.lexemeAt
  rw [Tape.lexemes_ofSource, h]
  rfl

theorem Tape.getElem?_ofSource (h : k < (Lexeme.scan src).size) :
    (Lexeme.scan src)[k]? = some ((Tape.ofSource src).lexemeAt k) := by
  unfold Tape.lexemeAt
  rw [Tape.lexemes_ofSource, Array.getElem?_eq_getElem h, Option.getD_some]

end Tape

/-- A module read from a source: no lexeme of it is a lexical fault. -/
theorem Module.parse_noFault {src : String} {m : Module} (h : Module.parse src = .ok m) :
    ∀ l ∈ (Lexeme.scan src).toList, l.token.fault? = none := by
  unfold Module.parse at h
  dsimp only at h
  split at h
  · next body c adv heq =>
    have reads : (Grammar.statements _ false #[]).Reads (Tape.ofSource src) ⟨0, 0⟩ body c :=
      ⟨adv, heq⟩
    exact Lexeme.scan_noFault adv (Grammar.statements_ends _ _ reads)
  · cases h

/-- Reading that gives no module fails where the tape says it stops. -/
theorem Module.parse_stops (src : String) (hp : ∀ m, Module.parse src ≠ .ok m) :
    ∃ h : Halt, (Tape.ofSource src).Stops ⟨0, 0⟩ h ∧
      Module.parse src = .error (ParseError.atOffset src h.fault h.offset) := by
  unfold Module.parse at hp ⊢
  dsimp only at hp ⊢
  split at hp
  · next => exact absurd rfl (hp _)
  · next h stops _ => exact ⟨h, stops, rfl⟩

end PyTune
