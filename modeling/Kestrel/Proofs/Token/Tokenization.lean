import Kestrel.Proofs.Token.Munch

/-!
# Tokenization is lossless maximal munch

The tokens of a source are described by where they stand in it: between them are only blanks, each
is one token by itself, and none could have reached further. The description says nothing about how
tokens are found, and only the result of `tokenize` meets it.

## Main definitions

- `IsTokenBetween` — the bytes between two offsets of a source are one token by themselves
- `Token.Fits` — a token stands in a source as it has to
- `gaps`, `IsBlankBetween` — what is left between tokens
- `IsTokenization` — all the tokens of a source

## Main statements

- `Token.fits_iff` — tokens that fit are munched
- `isTokenization_iff` — a source has exactly one tokenization

## Design notes

A token by itself has to cover its text. It is not enough that its text has no other token: then a
token could take the blanks in front of it along.
-/

namespace Kestrel

open Text

/-- The bytes from `start` up to `stop` of a source are one token by themselves, which covers all
of them. -/
def IsTokenBetween (source : String) (lexeme : Lexeme) (start stop : Nat) : Prop :=
  ∃ text, slice? source.toList start stop = some text ∧
    tokenize (String.ofList text) = [⟨lexeme, ⟨0, byteLength text⟩⟩]

/-- A token stands in a source as it has to. It is not empty, starts and stops at a character, and
is the same token by itself; no longer text that starts with it is one token. A slash has no slash
behind it, and a newline starts and stops with a newline character. -/
structure Token.Fits (source : String) (t : Token) : Prop where
  start_lt_stop : t.span.start < t.span.stop
  stop_le : t.span.stop ≤ source.utf8ByteSize
  start_valid : String.Pos.Raw.IsValid source ⟨t.span.start⟩
  stop_valid : String.Pos.Raw.IsValid source ⟨t.span.stop⟩
  alone : IsTokenBetween source t.lexeme t.span.start t.span.stop
  longest : ∀ stop, t.span.stop < stop → ∀ lexeme, ¬ IsTokenBetween source lexeme t.span.start stop
  slash : t.lexeme = .symbol .slash →
    slice? source.toList t.span.stop (t.span.stop + 1) ≠ some ['/']
  newline : t.lexeme = .newline →
    slice? source.toList t.span.start (t.span.start + 1) = some ['\n'] ∧
      slice? source.toList (t.span.stop - 1) t.span.stop = some ['\n']

/-- What tokens leave between the offsets `start` and `stop`. -/
def gaps (start stop : Nat) : List Token → List Span
  | [] => [⟨start, stop⟩]
  | t :: ts => ⟨start, t.span.start⟩ :: gaps t.span.stop stop ts

/-- Under a span stand only blanks: spaces, tabs, carriage returns and comments that reach to the
next newline or to the end of the source. -/
def IsBlankBetween (source : String) (span : Span) : Prop :=
  ∃ gap after, slice? source.toList span.start span.stop = some gap ∧
    slice? source.toList span.stop source.utf8ByteSize = some after ∧ Blank gap after

/-- All the tokens of a source, in order. -/
structure IsTokenization (source : String) (tokens : List Token) : Prop where
  fits : ∀ t ∈ tokens, t.Fits source
  ordered : tokens.Pairwise fun t t' => t.span.stop ≤ t'.span.start
  blank : ∀ gap ∈ gaps 0 source.utf8ByteSize tokens, IsBlankBetween source gap
  newlines_apart : NewlinesApart tokens

section Positions

variable {source : String} {pre text rest : List Char} {lexeme : Lexeme}

theorem isTokenBetween_iff (h : source.toList = pre ++ (text ++ rest)) :
    IsTokenBetween source lexeme (byteLength pre) (byteLength pre + byteLength text) ↔
      IsToken lexeme text := by
  rw [IsTokenBetween, slice?_of_eq h, IsToken, ← tokenize_ofList]
  constructor
  · rintro ⟨text', htext, htokens⟩
    obtain rfl := Option.some.inj htext
    exact htokens
  · exact fun htokens => ⟨text, rfl, htokens⟩

/-- A slice that reaches behind a text goes on into what follows. -/
theorem exists_of_slice? {text' : List Char} {stop : Nat}
    (h : source.toList = pre ++ (text ++ rest)) (hlt : byteLength pre + byteLength text < stop)
    (hslice : slice? source.toList (byteLength pre) stop = some text') :
    ∃ more rest', text' = text ++ more ∧ rest = more ++ rest' ∧ more ≠ [] := by
  obtain ⟨rest', hrest, hstop⟩ := (slice?_behind_iff h).1 hslice
  rcases List.append_eq_append_iff.1 hrest with ⟨more, rfl, rfl⟩ | ⟨more, rfl, rfl⟩
  · refine ⟨more, rest', rfl, rfl, ?_⟩
    rintro rfl
    rw [List.append_nil] at hstop
    omega
  · rw [byteLength_append] at hlt
    omega

/-- A token fits into a source if and only if it is munched there. -/
theorem Token.fits_iff (h : source.toList = pre ++ (text ++ rest)) :
    Token.Fits source ⟨lexeme, ⟨byteLength pre, byteLength pre + byteLength text⟩⟩ ↔
      Munched lexeme text rest := by
  have hafter : source.toList = (pre ++ text) ++ rest := by rw [h, List.append_assoc]
  have hlength : byteLength (pre ++ text) = byteLength pre + byteLength text :=
    byteLength_append pre text
  constructor
  · intro hfits
    have hne : text ≠ [] := by
      rintro rfl
      exact Nat.lt_irrefl _ hfits.start_lt_stop
    constructor
    · exact hne
    · exact (isTokenBetween_iff h).1 hfits.alone
    · rintro more rest' rfl hmore other hother
      have hpos := byteLength_pos hmore
      refine hfits.longest (byteLength pre + byteLength (text ++ more)) ?_ other ?_
      · show byteLength pre + byteLength text < _
        rw [byteLength_append]
        omega
      · exact (isTokenBetween_iff (by rw [h, List.append_assoc])).2 hother
    · rintro hslash rest' rfl
      have hslice : slice? source.toList (byteLength (pre ++ text)) _ = some ['/'] :=
        slice?_of_eq hafter
      rw [hlength] at hslice
      exact hfits.slash hslash hslice
    · intro hnewline
      obtain ⟨hfirst, hlast⟩ := hfits.newline hnewline
      exact ⟨(slice?_head_iff rfl hne h).1 hfirst, (slice?_getLast_iff rfl hne h).1 hlast⟩
  · intro hmunched
    have hne := hmunched.text_ne_nil
    have hpos := byteLength_pos hne
    constructor
    · show byteLength pre < byteLength pre + byteLength text
      omega
    · show byteLength pre + byteLength text ≤ _
      rw [utf8ByteSize_eq, hafter, byteLength_append, hlength]
      omega
    · exact isValid_of_append h
    · show String.Pos.Raw.IsValid source ⟨byteLength pre + byteLength text⟩
      rw [← hlength]
      exact isValid_of_append hafter
    · exact (isTokenBetween_iff h).2 hmunched.alone
    · rintro stop hlt other ⟨text', hslice, htokens⟩
      obtain ⟨more, rest', rfl, rfl, hmore⟩ := exists_of_slice? h hlt hslice
      rw [tokenize_ofList] at htokens
      exact hmunched.longest more rest' rfl hmore other htokens
    · intro hslash hslice
      dsimp only at hslice
      rw [← hlength] at hslice
      obtain ⟨rest', hrest, -⟩ := (slice?_behind_iff hafter).1 hslice
      exact hmunched.slash hslash rest' hrest
    · intro hnewline
      obtain ⟨hfirst, hlast⟩ := hmunched.newline hnewline
      exact ⟨(slice?_head_iff rfl hne h).2 hfirst, (slice?_getLast_iff rfl hne h).2 hlast⟩

end Positions

/-! ### All the tokens -/

theorem isBlankBetween_iff {source : String} {pre gap after : List Char}
    (h : source.toList = pre ++ (gap ++ after)) :
    IsBlankBetween source ⟨byteLength pre, byteLength pre + byteLength gap⟩ ↔ Blank gap after := by
  have hafter : source.toList = (pre ++ gap) ++ (after ++ []) := by
    rw [h, List.append_nil, List.append_assoc]
  have hsize : source.utf8ByteSize = byteLength (pre ++ gap) + byteLength after := by
    rw [utf8ByteSize_eq, hafter, List.append_nil, byteLength_append]
  rw [IsBlankBetween, slice?_of_eq h, hsize, ← byteLength_append, slice?_of_eq hafter]
  constructor
  · rintro ⟨_, _, ⟨⟩, ⟨⟩, hblank⟩
    exact hblank
  · exact fun hblank => ⟨gap, after, rfl, rfl, hblank⟩

theorem isBlankBetween_size_iff {source : String} {pre gap : List Char}
    (h : source.toList = pre ++ gap) :
    IsBlankBetween source ⟨byteLength pre, source.utf8ByteSize⟩ ↔ Blank gap [] := by
  rw [utf8ByteSize_eq, h, byteLength_append]
  exact isBlankBetween_iff (by rw [h, List.append_nil])

theorem Lossless.ordered {offset : Nat} {cs : List Char} {tokens : List Token}
    (h : Lossless offset cs tokens) :
    tokens.Pairwise fun t t' => t.span.stop ≤ t'.span.start := by
  induction h with
  | nil => exact .nil
  | cons _ _ h ih =>
    refine .cons ?_ ih
    rw [h.eq_tokensFrom]
    exact fun t ht => le_start_of_mem ht

theorem Lossless.fits {source : String} {offset : Nat} {cs : List Char} {tokens : List Token}
    (h : Lossless offset cs tokens) {pre : List Char} (hsource : source.toList = pre ++ cs)
    (hoffset : byteLength pre = offset) : ∀ t ∈ tokens, t.Fits source := by
  induction h generalizing pre with
  | nil => exact nofun
  | @cons offset gap text rest lexeme ts _ htoken _ ih =>
    have htext : source.toList = (pre ++ gap) ++ (text ++ rest) := by rw [hsource]; simp
    have hrest : source.toList = (pre ++ gap ++ text) ++ rest := by rw [hsource]; simp
    rw [List.forall_mem_cons, ← hoffset, ← byteLength_append]
    refine ⟨(Token.fits_iff htext).2 htoken, ih hrest ?_⟩
    rw [byteLength_append, byteLength_append, hoffset]

theorem Lossless.blank {source : String} {offset : Nat} {cs : List Char} {tokens : List Token}
    (h : Lossless offset cs tokens) {pre : List Char} (hsource : source.toList = pre ++ cs)
    (hoffset : byteLength pre = offset) :
    ∀ gap ∈ gaps offset source.utf8ByteSize tokens, IsBlankBetween source gap := by
  induction h generalizing pre with
  | @nil offset gap hgap =>
    rw [gaps, List.forall_mem_singleton, ← hoffset]
    exact (isBlankBetween_size_iff hsource).2 hgap
  | @cons offset gap text rest lexeme ts hgap _ _ ih =>
    have hrest : source.toList = (pre ++ gap ++ text) ++ rest := by rw [hsource]; simp
    rw [gaps, List.forall_mem_cons]
    refine ⟨?_, ih hrest ?_⟩
    · rw [← hoffset]
      exact (isBlankBetween_iff hsource).2 hgap
    · rw [byteLength_append, byteLength_append, hoffset]

/-- Tokens that fit with blanks between them are lossless. -/
theorem lossless_of_fits {source : String} {pre cs : List Char} {tokens : List Token}
    (hsource : source.toList = pre ++ cs) (hfits : ∀ t ∈ tokens, t.Fits source)
    (hblank : ∀ gap ∈ gaps (byteLength pre) source.utf8ByteSize tokens, IsBlankBetween source gap) :
    Lossless (byteLength pre) cs tokens := by
  induction tokens generalizing pre cs with
  | nil => exact .nil ((isBlankBetween_size_iff hsource).1 (hblank _ List.mem_cons_self))
  | cons t ts ih =>
    obtain ⟨lexeme, ⟨start, stop⟩⟩ := t
    obtain ⟨hfit, hfits'⟩ := List.forall_mem_cons.1 hfits
    obtain ⟨hgap, hblank'⟩ := List.forall_mem_cons.1 hblank
    -- the gap and the token cut the text, and the induction goes on behind them
    obtain ⟨gap, -, hslice, -⟩ := id hgap
    obtain ⟨behind, rfl, rfl⟩ := (slice?_behind_iff hsource).1 hslice
    have hbehind : source.toList = (pre ++ gap) ++ behind := by rw [hsource, List.append_assoc]
    have hlength := byteLength_append pre gap
    rw [← hlength] at hfit
    obtain ⟨text, htext, -⟩ := id hfit.alone
    obtain ⟨rest, rfl, rfl⟩ := (slice?_behind_iff hbehind).1 htext
    have hrest : source.toList = (pre ++ gap ++ text) ++ rest := by
      rw [hbehind, List.append_assoc (pre ++ gap)]
    have hlossless := ih hrest hfits' (by rwa [byteLength_append])
    rw [byteLength_append, hlength] at hlossless
    rw [hlength]
    exact .cons ((isBlankBetween_iff hsource).1 hgap) ((Token.fits_iff hbehind).1 hfit) hlossless

/-- A source has exactly one tokenization. -/
theorem isTokenization_iff {source : String} {tokens : List Token} :
    IsTokenization source tokens ↔ tokens = tokenize source := by
  have htokenize : tokenize source = tokensFrom 0 source.toList := by
    rw [← tokenize_ofList, String.ofList_toList]
  rw [htokenize]
  constructor
  · intro h
    exact Lossless.eq_tokensFrom (lossless_of_fits (List.nil_append _).symm h.fits h.blank)
  · rintro rfl
    have hlossless := lossless_tokensFrom 0 source.toList
    exact ⟨hlossless.fits (List.nil_append _).symm rfl, hlossless.ordered,
      hlossless.blank (List.nil_append _).symm rfl, newlinesApart_tokensFrom 0 _⟩

example : tokenize "é //x\n \n/=" =
    [⟨.unknown 'é', ⟨0, 2⟩⟩, ⟨.newline, ⟨6, 9⟩⟩, ⟨.symbol .slashAssign, ⟨9, 11⟩⟩] := by
  cbv

end Kestrel
