import Kestrel.Proofs.Token.Spelling
import Kestrel.Text.Pieces

/-!
# The tokens of lines

Nothing that is taken off a text goes over the end of a line, a run of newlines apart. So each line
has its tokens by itself, whatever the lines around it are, and the newline between two texts is a
token of its own, but for the newlines that it meets there.

## Main definitions

- `joinLines` — the tokens of two texts with a newline between them
- `tokensOfLines` — the tokens of any number of lines

## Main statements

- `scan_append_newline` — a lexeme does not go on behind a newline
- `tokensFrom_append_newline` — the tokens of two texts with a newline between them
- `tokenize_lines` — a source has the tokens of its lines
-/

namespace Kestrel

open Text

/-! ### Nothing goes over a newline -/

section Newline

variable {cs gap after ds : List Char}

/-- A lexeme does not go on behind a newline. -/
theorem scan_append_newline {s : Scanned} (hs : scan cs = some s) (ds : List Char) :
    scan (cs ++ '\n' :: ds) = some ⟨s.lexeme, s.text, s.rest ++ '\n' :: ds⟩ := by
  have hcs : cs ≠ [] := by
    rintro rfl
    cases hs
  obtain ⟨s', hs'⟩ := exists_scan (List.append_ne_nil_of_left_ne_nil hcs ('\n' :: ds))
  have hinside : ∃ more, cs = s'.text ++ more ∧ s'.rest = more ++ '\n' :: ds := by
    rcases List.append_eq_append_iff.1 (scan_text_append_rest hs') with
      ⟨more, hcs', hrest⟩ | ⟨more, htext, hrest⟩
    · exact ⟨more, hcs', hrest⟩
    · cases more with
      | nil => exact ⟨[], by rw [htext, List.append_nil, List.append_nil], hrest.symm⟩
      | cons c more =>
        -- the lexeme has the newline in it, so it is the newline, which is not the first character
        obtain ⟨rfl, -⟩ := List.cons.inj hrest
        have hmem : '\n' ∈ s'.text := by
          rw [htext]
          exact List.mem_append_right cs List.mem_cons_self
        by_cases hlexeme : s'.lexeme = .newline
        · have hlength := congrArg List.length
            ((text_of_scan_newline hs' hlexeme).symm.trans htext)
          have hpos := List.length_pos_iff.2 hcs
          simp only [List.length_append, List.length_cons, List.length_nil] at hlength
          omega
        · exact absurd hmem ((scan_isScanned hs').newline_notMem hlexeme)
  obtain ⟨more, rfl, hrest⟩ := hinside
  have hcut := scan_cut hs' hrest
  rw [hs] at hcut
  obtain rfl := Option.some.inj hcut
  rw [hs', ← hrest]

/-- Blanks stay blanks when a newline is added to the text behind them. -/
theorem Blank.append_newline (h : Blank gap after) (ds : List Char) :
    Blank gap (after ++ '\n' :: ds) := by
  induction h with
  | nil after => exact .nil _
  | blank hc h ih => exact .blank hc ih
  | comment hline hafter =>
    refine .comment hline (.inr ?_)
    rcases hafter with rfl | ⟨rest, rfl⟩
    · exact ⟨ds, rfl⟩
    · exact ⟨rest ++ '\n' :: ds, rfl⟩

theorem Solid.append_newline (h : Solid cs) (ds : List Char) : Solid (cs ++ '\n' :: ds) := by
  cases cs with
  | nil => exact solid_newline ds
  | cons c cs =>
    constructor
    · rintro c' rest ⟨⟩
      exact h.not_blank c cs rfl
    · intro rest heq
      obtain ⟨rfl, hrest⟩ := List.cons.inj heq
      cases cs with
      | nil => cases hrest
      | cons d cs =>
        obtain ⟨rfl, -⟩ := List.cons.inj hrest
        exact h.not_comment cs rfl

end Newline

/-! ### Tokens around a newline -/

/-- A newline in front of some tokens that goes on to the stop of the first one, if this is a
newline too. -/
def newlineBefore (span : Span) : List Token → List Token
  | [] => [⟨.newline, span⟩]
  | t :: rest =>
    if t.lexeme = .newline then ⟨.newline, ⟨span.start, t.span.stop⟩⟩ :: rest
    else ⟨.newline, span⟩ :: t :: rest

/-- The tokens of two texts with a newline between them, which stands at `offset`. It is one token
with a newline at the end of the tokens in front of it and with one at the beginning of the tokens
behind it. -/
def joinLines (offset : Nat) : (front behind : List Token) → List Token
  | [], behind => newlineBefore ⟨offset, offset + 1⟩ behind
  | [t], behind =>
    if t.lexeme = .newline then newlineBefore ⟨t.span.start, offset + 1⟩ behind
    else t :: newlineBefore ⟨offset, offset + 1⟩ behind
  | t :: t' :: front, behind => t :: joinLines offset (t' :: front) behind

theorem newlineBefore_eq_joinNewline {span : Span} {ts : List Token}
    (h : ∀ t ∈ ts.head?, span.start ≤ t.span.start ∧ span.stop ≤ t.span.stop) :
    newlineBefore span ts = joinNewline ⟨.newline, span⟩ ts := by
  cases ts with
  | nil => rfl
  | cons t ts =>
    obtain ⟨hstart, hstop⟩ := h t rfl
    simp only [newlineBefore, joinNewline, true_and, Span.merge, Nat.min_eq_left hstart,
      Nat.max_eq_right hstop]

theorem joinNewline_newlineBefore {t : Token} (ht : t.lexeme = .newline) {span : Span}
    {behind : List Token} (hstop : t.span.stop ≤ span.stop)
    (hbehind : ∀ t ∈ behind.head?, span.stop ≤ t.span.stop) :
    joinNewline t (newlineBefore span behind) =
      newlineBefore ⟨min t.span.start span.start, span.stop⟩ behind := by
  cases behind with
  | nil =>
    rw [newlineBefore, joinNewline_newline ht rfl, newlineBefore, Span.merge,
      Nat.max_eq_right hstop]
  | cons t' behind =>
    have hle := hbehind t' rfl
    rw [newlineBefore, newlineBefore]
    split
    · rw [joinNewline_newline ht rfl, Span.merge, Nat.max_eq_right (Nat.le_trans hstop hle)]
    · rw [joinNewline_newline ht rfl, Span.merge, Nat.max_eq_right hstop]

/-- A token in front of two texts is in front of the first one. -/
theorem joinNewline_joinLines {t : Token} {offset : Nat} {front behind : List Token}
    (hstart : t.span.start ≤ offset) (hstop : t.span.stop ≤ offset + 1)
    (hbehind : ∀ t ∈ behind.head?, offset + 1 ≤ t.span.stop) :
    joinNewline t (joinLines offset front behind) =
      joinLines offset (joinNewline t front) behind := by
  by_cases ht : t.lexeme = .newline
  · match front with
    | [] =>
      rw [joinLines, joinNewline_newlineBefore ht hstop hbehind, joinNewline, joinLines, if_pos ht,
        Nat.min_eq_left hstart]
    | [t'] =>
      rw [joinLines]
      split
      · next ht' =>
        rw [joinNewline_newlineBefore ht hstop hbehind, joinNewline_newline ht ht', joinLines,
          if_pos rfl]
        rfl
      · next ht' =>
        rw [joinNewline, if_neg fun hboth => ht' hboth.2, joinNewline,
          if_neg fun hboth => ht' hboth.2, joinLines, joinLines, if_neg ht']
    | t' :: t'' :: front =>
      rw [joinLines]
      by_cases ht' : t'.lexeme = .newline
      · rw [joinNewline_newline ht ht', joinNewline_newline ht ht', joinLines]
      · rw [joinNewline, if_neg fun hboth => ht' hboth.2, joinNewline,
          if_neg fun hboth => ht' hboth.2, joinLines, joinLines]
  · rw [joinNewline_of_ne ht, joinNewline_of_ne ht]
    cases front with
    | nil => rw [joinLines, joinLines, if_neg ht]
    | cons t' front => rw [joinLines]

theorem start_le_stop_of_mem {offset : Nat} {cs : List Char} {t : Token}
    (h : t ∈ tokensFrom offset cs) : t.span.start ≤ t.span.stop := by
  generalize hts : tokensFrom offset cs = ts at h
  have hlossless := lossless_tokensFrom offset cs
  rw [hts] at hlossless
  clear hts
  induction hlossless with
  | nil => cases h
  | cons _ _ _ ih =>
    rcases List.mem_cons.1 h with rfl | h
    · exact Nat.le_add_right _ _
    · exact ih h

/-- The tokens of two texts with a newline between them are those of each of them and the
newline. -/
theorem tokensFrom_append_newline (offset : Nat) (cs ds : List Char) :
    tokensFrom offset (cs ++ '\n' :: ds) =
      joinLines (offset + byteLength cs) (tokensFrom offset cs)
        (tokensFrom (offset + byteLength cs + 1) ds) := by
  have hbehind : ∀ offset', ∀ t ∈ (tokensFrom offset' ds).head?,
      offset' ≤ t.span.start ∧ t.span.start ≤ t.span.stop := by
    intro offset' t ht
    have hmem := List.mem_of_mem_head? ht
    exact ⟨le_start_of_mem hmem, start_le_stop_of_mem hmem⟩
  obtain ⟨gap, after, rfl, hgap, hafter⟩ := exists_blank cs
  rw [List.append_assoc, (hgap.append_newline ds).tokensFrom_append (hafter.append_newline ds),
    hgap.tokensFrom_append hafter, byteLength_append, ← Nat.add_assoc]
  by_cases hnil : after = []
  · subst hnil
    rw [List.nil_append, tokensFrom_newline, (Blank.nil []).tokensFrom_eq_nil]
    refine (newlineBefore_eq_joinNewline fun t ht => ?_).symm
    have hle := hbehind (offset + byteLength gap + 1) t ht
    exact ⟨Nat.le_of_succ_le hle.1, Nat.le_trans hle.1 hle.2⟩
  · obtain ⟨s, hscan⟩ := exists_scan hnil
    have hlength : byteLength after = byteLength s.text + byteLength s.rest := by
      rw [← byteLength_append, scan_text_append_rest hscan]
    have hlt : s.rest.length < (gap ++ after).length := by
      have hrest := length_rest_lt_of_scan hscan
      rw [List.length_append]
      omega
    rw [tokensFrom_of_solid (hafter.append_newline ds) (scan_append_newline hscan ds),
      tokensFrom_of_solid hafter hscan, tokensFrom_append_newline _ s.rest ds, hlength,
      ← Nat.add_assoc, joinNewline_joinLines]
    · show offset + byteLength gap ≤ _
      omega
    · show offset + byteLength gap + byteLength s.text ≤
        offset + byteLength gap + byteLength s.text + byteLength s.rest + 1
      omega
    · intro t ht
      have hle := hbehind _ t ht
      exact Nat.le_trans hle.1 hle.2
termination_by cs.length

/-! ### All lines -/

/-- The tokens of some lines with newlines between them, the first of which stands at `offset`. -/
def tokensOfLines (offset : Nat) : List (List Char) → List Token
  | [] => []
  | [line] => (tokenize (String.ofList line)).map (Token.shift offset)
  | line :: rest =>
    joinLines (offset + byteLength line) ((tokenize (String.ofList line)).map (Token.shift offset))
      (tokensOfLines (offset + byteLength line + 1) rest)

theorem tokensFrom_pieces (offset : Nat) (cs : List Char) :
    tokensFrom offset cs = tokensOfLines offset (pieces '\n' cs) := by
  induction cs using pieces_induction '\n' generalizing offset with
  | last line h =>
    rw [pieces_of_notMem h, tokensOfLines, tokenize_ofList, ← tokensFrom_add, Nat.zero_add]
  | next line cs h ih =>
    rw [tokensFrom_append_newline, ih, pieces_append h,
      tokensOfLines.eq_3 _ _ _ (pieces_ne_nil '\n' cs), tokenize_ofList, ← tokensFrom_add,
      Nat.zero_add]

/-- Two texts with a newline between them have their own tokens, those of the second one moved, and
the newline. So a source has the tokens of its lines, and no token but a newline has a newline in
its text. -/
theorem tokenize_lines :
    (∀ a b : String, tokenize (a ++ "\n" ++ b) =
      joinLines a.utf8ByteSize (tokenize a)
        ((tokenize b).map (Token.shift (a.utf8ByteSize + 1)))) ∧
    ∀ source : String, tokenize source = tokensOfLines 0 (pieces '\n' source.toList) ∧
      ∀ t ∈ tokenize source, t.lexeme ≠ .newline → '\n' ∉ (t.span.text source).toList := by
  have htokenize : ∀ source : String, tokenize source = tokensFrom 0 source.toList := by
    intro source
    rw [← tokenize_ofList, String.ofList_toList]
  refine ⟨fun a b => ?_, fun source => ⟨?_, fun t ht hne => ?_⟩⟩
  · have htext : (a ++ "\n" ++ b).toList = a.toList ++ '\n' :: b.toList := by simp
    rw [htokenize, htext, tokensFrom_append_newline, Nat.zero_add, ← utf8ByteSize_eq,
      ← htokenize, ← Nat.zero_add (a.utf8ByteSize + 1), tokensFrom_add, ← htokenize, Nat.zero_add]
  · rw [htokenize, tokensFrom_pieces]
  · obtain ⟨text, hslice, halone⟩ := ((isTokenization_iff.2 rfl).fits t ht).alone
    rw [tokenize_ofList] at halone
    rw [Span.text_of_slice? hslice, String.toList_ofList]
    exact (IsToken.isScanned halone hne).newline_notMem hne

example : tokenize ("x // é\n" ++ "\n" ++ " \ny") =
    [⟨.name "x", ⟨0, 1⟩⟩, ⟨.newline, ⟨7, 11⟩⟩, ⟨.name "y", ⟨11, 12⟩⟩] := by
  cbv

end Kestrel
