import Kestrel.Proofs.Program.Boundaries
import Kestrel.Proofs.Program.Parsing
import Kestrel.Proofs.Program.Placement
import Kestrel.Proofs.Token.Spelling

/-!
# A program as a map of its source

The spans of a program that was read from a source divide it up: every part of the program has a
piece of whole tokens, the pieces of its own parts lie in it one after the other, and a part that is
a single token has the text of it.

## Main definitions

- `Node.IsSpelled` — the text of a name, a truth value or a number
- `Node.MappedTo` — a part of a program has a piece of a source

## Main statements

- `Program.mappedTo_of_ofTokens` — all parts of a program that was read have one
-/

namespace Kestrel

/-- The text that a part of a program has to have, if it is a single token. -/
def Node.IsSpelled (text : String) : Node → Prop
  | .expr (.number value _) => Numeral text.toList value
  | .expr (.boolean value _) => text = if value then "true" else "false"
  | .expr (.name word _) => text = word
  | .expr (.unary _ _ _) | .expr (.binary _ _ _ _) | .stmt _ => True

/-- A part of a program has a piece of the source that is not empty and goes from the start of a
token to the stop of one. The pieces of its own parts lie in it, one after the other. -/
structure Node.MappedTo (source : String) (n : Node) : Prop where
  start_lt_stop : n.span.start < n.span.stop
  starts : ∃ t ∈ tokenize source, t.span.start = n.span.start
  stops : ∃ t ∈ tokenize source, t.span.stop = n.span.stop
  onBoundaries : n.span.OnBoundaries source
  inside : ∀ child ∈ n.children,
    n.span.start ≤ child.span.start ∧ child.span.stop ≤ n.span.stop
  apart : n.children.Pairwise fun child child' => child.span.stop ≤ child'.span.start
  isSpelled : n.IsSpelled (n.span.text source)

/-- The tokens of a source are laid out in it. -/
theorem laidOut_tokenize (source : String) : LaidOut (tokenize source) :=
  ⟨fun _ ht => (Token.fits_of_mem_tokenize ht).start_lt_stop, (isTokenization_iff.2 rfl).ordered⟩

theorem Span.Covers.onBoundaries {source : String} {s : Span} (h : s.Covers (tokenize source)) :
    s.OnBoundaries source := by
  obtain ⟨t, ht, hstart⟩ := h.starts
  obtain ⟨t', ht', hstop⟩ := h.stops
  have hfirst := (Token.fits_of_mem_tokenize ht).onBoundaries
  have hlast := (Token.fits_of_mem_tokenize ht').onBoundaries
  exact ⟨Nat.le_of_lt h.start_lt_stop, hstop ▸ hlast.stop_le, hstart ▸ hfirst.start_valid,
    hstop ▸ hlast.stop_valid⟩

/-- What is a token of the source has the text of it. -/
theorem Node.isSpelled_of_token {source : String} {n : Node}
    (h : ∀ t ∈ n.token?, t ∈ tokenize source) : n.IsSpelled (n.span.text source) := by
  have hspelled : ∀ t ∈ n.token?, t.lexeme.IsSpelled (t.span.text source).toList :=
    fun t ht => (Token.fits_of_mem_tokenize (h t ht)).isSpelled
  match n with
  | .expr (.number value span) => exact hspelled _ rfl
  | .expr (.boolean true span) => exact String.toList_inj.1 (hspelled _ rfl)
  | .expr (.boolean false span) => exact String.toList_inj.1 (hspelled _ rfl)
  | .expr (.name word span) => exact String.toList_inj.1 (hspelled _ rfl)
  | .expr (.unary _ _ _) => trivial
  | .expr (.binary _ _ _ _) => trivial
  | .stmt s => trivial

/-- What is placed by the tokens of a source has a piece of it. -/
theorem Node.PlacedBy.mappedTo {source : String} {n : Node} (h : n.PlacedBy (tokenize source)) :
    n.MappedTo source :=
  ⟨h.covers.start_lt_stop, h.covers.starts, h.covers.stops, h.covers.onBoundaries, h.inside,
    h.apart, Node.isSpelled_of_token h.token⟩

/-- The statements of a program that was read from a source come one after the other, and every part
of the program has its piece of the source. -/
theorem Program.mappedTo_of_ofTokens {source : String} {program : Program}
    (h : Program.ofTokens (tokenize source) = .ok program) :
    program.Pairwise (fun s s' => s.span.stop ≤ s'.span.start) ∧
      ∀ n : Node, program.Contains n → n.MappedTo source := by
  have hrow := (Program.written_of_ofTokens h).placed (laidOut_tokenize source)
  refine ⟨List.pairwise_map.1 hrow.apart, ?_⟩
  rintro n ⟨s, hs, hn⟩
  exact (hrow.placed (.stmt s) (List.mem_map_of_mem hs) n hn).mappedTo

/-- A conditional stops at its brace even if newlines follow, and an operand in parentheses stands
between them. -/
theorem mappedTo_conditional : ∃ program, Program.ofTokens
      (tokenize "if x < (-y) { y = true }\n\nprint(x) // é") = .ok program ∧
    program.map Stmt.span = [⟨0, 24⟩, ⟨26, 34⟩] ∧
    program.Pairwise (fun s s' => s.span.stop ≤ s'.span.start) ∧
      ∀ n : Node, program.Contains n →
        n.MappedTo "if x < (-y) { y = true }\n\nprint(x) // é" := by
  have htokens : tokenize "if x < (-y) { y = true }\n\nprint(x) // é" =
      [⟨.keyword .ifKw, ⟨0, 2⟩⟩, ⟨.name "x", ⟨3, 4⟩⟩, ⟨.symbol .less, ⟨5, 6⟩⟩,
        ⟨.symbol .leftParen, ⟨7, 8⟩⟩, ⟨.symbol .minus, ⟨8, 9⟩⟩, ⟨.name "y", ⟨9, 10⟩⟩,
        ⟨.symbol .rightParen, ⟨10, 11⟩⟩, ⟨.symbol .leftBrace, ⟨12, 13⟩⟩, ⟨.name "y", ⟨14, 15⟩⟩,
        ⟨.symbol .assign, ⟨16, 17⟩⟩, ⟨.keyword .trueKw, ⟨18, 22⟩⟩,
        ⟨.symbol .rightBrace, ⟨23, 24⟩⟩, ⟨.newline, ⟨24, 26⟩⟩, ⟨.keyword .printKw, ⟨26, 31⟩⟩,
        ⟨.symbol .leftParen, ⟨31, 32⟩⟩, ⟨.name "x", ⟨32, 33⟩⟩,
        ⟨.symbol .rightParen, ⟨33, 34⟩⟩] := by decide +kernel
  have hparse : Program.ofTokens (tokenize "if x < (-y) { y = true }\n\nprint(x) // é") =
      .ok [.ifThen (.binary (.name "x" ⟨3, 4⟩) .lt (.unary .neg (.name "y" ⟨9, 10⟩) ⟨8, 10⟩)
          ⟨3, 10⟩) [.assign "y" .set (.boolean true ⟨18, 22⟩) ⟨14, 22⟩] ⟨0, 24⟩,
        .print (.name "x" ⟨32, 33⟩) ⟨26, 34⟩] := by
    rw [htokens]
    with_unfolding_all rfl
  exact ⟨_, hparse, rfl, Program.mappedTo_of_ofTokens hparse⟩

end Kestrel
