import Kestrel.Proofs.Token.Spelling

/-!
# Excerpts of a source

A text that is cut out of a source from the start of one token to the stop of another one has the
tokens in between, moved to its own start. What follows a token only matters for where it ends, and
that is where the text is cut.

## Main definitions

- `Span.Around` — from the first of some tokens to the last one

## Main statements

- `Lossless.split` — lossless tokens can be split wherever a token ends
- `map_shift_tokenize_text` — the tokens of an excerpt
-/

namespace Kestrel

open Text

/-- A span from the start of the first of some tokens to the stop of the last one. -/
structure Span.Around (s : Span) (ts : List Token) : Prop where
  first : ts.head?.map (·.span.start) = some s.start
  last : ts.getLast?.map (·.span.stop) = some s.stop

/-! ### Cutting a text off -/

/-- A munched token is munched if the text behind it is cut off anywhere. -/
theorem Munched.cut {lexeme : Lexeme} {text front rest : List Char}
    (h : Munched lexeme text (front ++ rest)) : Munched lexeme text front := by
  constructor
  · exact h.text_ne_nil
  · exact h.alone
  · rintro more rest' rfl
    exact h.longest more (rest' ++ rest) (List.append_assoc more rest' rest)
  · rintro hslash rest' rfl
    exact h.slash hslash (rest' ++ rest) rfl
  · exact h.newline

/-- Lossless tokens can be split, and the text is split where the last token of the first part
stops. -/
theorem Lossless.split {offset : Nat} {cs : List Char} {ts us : List Token}
    (h : Lossless offset cs (ts ++ us)) : ∃ front rest, cs = front ++ rest ∧
      Lossless offset front ts ∧ Lossless (offset + byteLength front) rest us ∧
      offset + byteLength front = (ts.getLast?.map (·.span.stop)).getD offset := by
  induction ts generalizing offset cs with
  | nil => exact ⟨[], cs, rfl, .nil (.nil []), h, rfl⟩
  | cons t ts ih =>
    cases h with
    | @cons _ gap text rest lexeme _ hgap htoken hrest =>
      obtain ⟨front, rest', rfl, hts, hus, hstop⟩ := ih hrest
      have hlength : offset + byteLength (gap ++ (text ++ front)) =
          offset + byteLength gap + byteLength text + byteLength front := by
        rw [byteLength_append, byteLength_append]
        omega
      refine ⟨gap ++ (text ++ front), rest', by simp, .cons (hgap.cut htoken.text_ne_nil front)
        htoken.cut hts, ?_, ?_⟩
      · rwa [hlength]
      · rw [hlength, hstop]
        cases ts with
        | nil => rfl
        | cons t' ts => rw [List.getLast?_cons_cons, List.getLast?_cons]; rfl

/-! ### Excerpts -/

/-- The text from the first to the last of some tokens next to each other has these tokens, up to
their place. -/
theorem map_shift_tokenize_text {source : String} {before ts after : List Token} {s : Span}
    (h : tokenize source = before ++ (ts ++ after)) (hs : s.Around ts) :
    (tokenize (s.text source)).map (Token.shift s.start) = ts := by
  have hlossless : Lossless 0 source.toList (before ++ (ts ++ after)) := by
    rw [← h, ← String.ofList_toList (s := source), tokenize_ofList, String.toList_ofList]
    exact lossless_tokensFrom 0 source.toList
  obtain ⟨pre, rest, hsource, -, hrest, -⟩ := hlossless.split
  obtain ⟨body, post, rfl, hbody, -, hstop⟩ := hrest.split
  cases hbody with
  | nil => cases hs.first
  | @cons _ gap text rest lexeme ts _ htoken hts =>
    -- the excerpt starts behind the gap in front of the first token
    have hlength : byteLength (pre ++ gap) = s.start := by
      rw [byteLength_append, ← Option.some.inj hs.first, Nat.zero_add]
    have htail : Lossless s.start (text ++ rest) (⟨lexeme, ⟨0 + byteLength pre + byteLength gap,
        0 + byteLength pre + byteLength gap + byteLength text⟩⟩ :: ts) := by
      rw [← Option.some.inj hs.first]
      exact .cons (.nil _) htoken hts
    have hslice : slice? source.toList s.start s.stop = some (text ++ rest) := by
      refine slice?_eq_some_iff.2 ⟨pre ++ gap, post, by rw [hsource]; simp, hlength, ?_⟩
      rw [hs.last, Option.getD_some] at hstop
      rw [← hstop, ← hlength]
      simp only [byteLength_append]
      omega
    rw [Span.text_of_slice? hslice, tokenize_ofList, ← tokensFrom_add, Nat.zero_add]
    exact htail.eq_tokensFrom.symm

end Kestrel
