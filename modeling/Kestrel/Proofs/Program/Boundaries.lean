import Kestrel.Proofs.Program.Spans
import Kestrel.Proofs.Token.Tokenization

/-!
# Spans of whole characters

The tokens of a source start and stop at characters of it, and so does every span that is merged
from their spans.

## Main definitions

- `Span.OnBoundaries` — a span starts and stops at characters of a source

## Main statements

- `Span.OnBoundaries.merge` — merged spans start and stop at characters
- `onBoundaries_of_mem_tokenize` — tokens do
-/

namespace Kestrel

/-- A span of a source that starts at a character and stops behind one. -/
structure Span.OnBoundaries (source : String) (s : Span) : Prop where
  start_le_stop : s.start ≤ s.stop
  stop_le : s.stop ≤ source.utf8ByteSize
  start_valid : String.Pos.Raw.IsValid source ⟨s.start⟩
  stop_valid : String.Pos.Raw.IsValid source ⟨s.stop⟩

/-- Merging spans makes no new boundaries. -/
theorem Span.OnBoundaries.merge (source : String) : Span.Merges (Span.OnBoundaries source) := by
  intro a b ha hb
  refine ⟨?_, Nat.max_le.2 ⟨ha.stop_le, hb.stop_le⟩, ?_, ?_⟩
  · exact Nat.le_trans (Nat.min_le_left _ _) (Nat.le_trans ha.start_le_stop (Nat.le_max_left _ _))
  · show String.Pos.Raw.IsValid source ⟨min a.start b.start⟩
    rcases Nat.le_total a.start b.start with hle | hle
    · rw [Nat.min_eq_left hle]
      exact ha.start_valid
    · rw [Nat.min_eq_right hle]
      exact hb.start_valid
  · show String.Pos.Raw.IsValid source ⟨max a.stop b.stop⟩
    rcases Nat.le_total a.stop b.stop with hle | hle
    · rw [Nat.max_eq_right hle]
      exact hb.stop_valid
    · rw [Nat.max_eq_left hle]
      exact ha.stop_valid

/-! ### Tokens -/

theorem Token.fits_of_mem_tokenize {source : String} {t : Token} (h : t ∈ tokenize source) :
    t.Fits source := by
  rw [← String.ofList_toList (s := source), tokenize_ofList] at h
  exact (lossless_tokensFrom 0 source.toList).fits (List.nil_append _).symm rfl t h

theorem Token.Fits.onBoundaries {source : String} {t : Token} (h : t.Fits source) :
    t.span.OnBoundaries source :=
  ⟨Nat.le_of_lt h.start_lt_stop, h.stop_le, h.start_valid, h.stop_valid⟩

theorem onBoundaries_of_mem_tokenize (source : String) :
    TokensIn (Span.OnBoundaries source) (tokenize source) :=
  fun _ ht => (Token.fits_of_mem_tokenize ht).onBoundaries

/-- The end of the last token is a boundary, and so is the start of a source without tokens. -/
theorem onBoundaries_endSpan (source : String) :
    (endSpan (tokenize source)).OnBoundaries source := by
  unfold endSpan
  split
  · next t ht =>
    have hlast := onBoundaries_of_mem_tokenize source t (List.mem_of_getLast? ht)
    exact ⟨Nat.le_refl _, hlast.stop_le, hlast.stop_valid, hlast.stop_valid⟩
  · exact ⟨Nat.le_refl _, Nat.zero_le _, String.Pos.Raw.isValid_zero, String.Pos.Raw.isValid_zero⟩

end Kestrel
