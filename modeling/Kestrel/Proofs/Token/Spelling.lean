import Kestrel.Proofs.Token.Tokenization

/-!
# What tokens look like in the source

The text under a token spells its lexeme: a name under a name, the word under a keyword, and under a
number a numeral of this value.

## Main definitions

- `Numeral` — digits, perhaps with a point, and the number that they write
- `Lexeme.IsSpelled` — the characters of a lexeme
- `Lexeme.IsScanned` — the ways in which a single lexeme is found

## Main statements

- `scan_isScanned` — a lexeme is found in one of these ways
- `Token.Fits.isSpelled` — the text under a token of a source spells it
-/

namespace Kestrel

open Text

/-- Digits, and perhaps a point with further digits behind it, write a number. -/
inductive Numeral : (text : List Char) → (value : Float) → Prop
  | whole {digits : List Char} (hne : digits ≠ []) (hdigits : ∀ c ∈ digits, c.isDigit = true) :
      Numeral digits (Number.Decimal.ofNumeral digits []).toFloat
  | point {digits fraction : List Char} (hne : digits ≠ [])
      (hdigits : ∀ c ∈ digits, c.isDigit = true) (hne' : fraction ≠ [])
      (hfraction : ∀ c ∈ fraction, c.isDigit = true) :
      Numeral (digits ++ '.' :: fraction) (Number.Decimal.ofNumeral digits fraction).toFloat

/-- The characters that a lexeme is written with. A newline may stand for several of them, with
blanks in between. -/
def Lexeme.IsSpelled (text : List Char) : Lexeme → Prop
  | .number value => Numeral text value
  | .name word => text = word.toList
  | .keyword word => text = word.text.toList
  | .symbol sign => text = sign.text.toList
  | .newline => text.head? = some '\n'
  | .unknown char => text = [char]

theorem Keyword.text_of_ofText? {word : String} {keyword : Keyword}
    (h : Keyword.ofText? word = some keyword) : keyword.text = word := by
  have hfound : Keyword.all.find? (fun k => k.text == word) = some keyword := h
  have heq := List.find?_some hfound
  exact eq_of_beq heq

theorem wordLexeme_isSpelled (word : String) : (wordLexeme word).IsSpelled word.toList := by
  unfold wordLexeme
  split
  · next keyword hkeyword => exact congrArg String.toList (Keyword.text_of_ofText? hkeyword).symm
  · rfl

theorem Symbol.text_of_ofPair? {c d : Char} {sign : Symbol} (h : Symbol.ofPair? c d = some sign) :
    sign.text.toList = [c, d] := by
  unfold Symbol.ofPair? at h
  split at h <;> cases h <;> rfl

theorem Symbol.text_of_ofChar? {c : Char} {sign : Symbol} (h : Symbol.ofChar? c = some sign) :
    sign.text.toList = [c] := by
  unfold Symbol.ofChar? at h
  split at h <;> cases h <;> rfl

theorem mem_takeWhile_isDigit {cs : List Char} {c : Char} (h : c ∈ cs.takeWhile Char.isDigit) :
    c.isDigit = true :=
  List.all_eq_true.1 List.all_takeWhile c h

/-- A letter or an underscore, and any number of letters, digits and underscores behind it. -/
inductive IsWord : (text : List Char) → Prop
  | mk {c : Char} {cs : List Char} (hc : startsWord c = true)
      (hcs : ∀ d ∈ cs, continuesWord d = true) : IsWord (c :: cs)

/-- The ways in which the characters of a single lexeme are found. -/
inductive Lexeme.IsScanned : (text : List Char) → Lexeme → Prop
  | number {text : List Char} {value : Float} (h : Numeral text value) :
      IsScanned text (.number value)
  | word {text : List Char} (h : IsWord text) : IsScanned text (wordLexeme (String.ofList text))
  | symbol (sign : Symbol) : IsScanned sign.text.toList (.symbol sign)
  | newline : IsScanned ['\n'] .newline
  | unknown {c : Char} (h : c ≠ '\n') : IsScanned [c] (.unknown c)

theorem scanNumber_isScanned {c : Char} {cs : List Char} (hc : c.isDigit = true) :
    (scanNumber (c :: cs)).lexeme.IsScanned (scanNumber (c :: cs)).text := by
  have hne : (c :: cs).takeWhile Char.isDigit ≠ [] := by
    rw [List.takeWhile_cons_of_pos hc]
    exact List.cons_ne_nil _ _
  by_cases hfraction : ∃ d rest, (c :: cs).dropWhile Char.isDigit = '.' :: d :: rest ∧
      d.isDigit = true
  · obtain ⟨d, rest, hdrop, hd⟩ := hfraction
    rw [scanNumber_of_fraction hd hdrop]
    refine .number (.point hne (fun _ => mem_takeWhile_isDigit) ?_ fun _ => mem_takeWhile_isDigit)
    rw [List.takeWhile_cons_of_pos hd]
    exact List.cons_ne_nil _ _
  · rw [scanNumber_of_whole fun d rest hdrop hd => hfraction ⟨d, rest, hdrop, hd⟩]
    exact .number (.whole hne fun _ => mem_takeWhile_isDigit)

theorem scanWord_isScanned {c : Char} {cs : List Char} (hc : startsWord c = true) :
    (scanWord (c :: cs)).lexeme.IsScanned (scanWord (c :: cs)).text := by
  refine .word ?_
  rw [scanWord, List.takeWhile_cons_of_pos (continuesWord_of_startsWord hc)]
  exact .mk hc fun d hd => List.all_eq_true.1 List.all_takeWhile d hd

theorem scanChar_isScanned (c : Char) (cs : List Char) :
    (scanChar c cs).lexeme.IsScanned (scanChar c cs).text := by
  unfold scanChar
  split
  · next sign hsign =>
    rw [← Symbol.text_of_ofChar? hsign]
    exact .symbol sign
  · dsimp only
    split
    · next hc =>
      rw [hc]
      exact .newline
    · next hc => exact .unknown hc

/-- A lexeme is found in one of these ways. -/
theorem scan_isScanned {cs : List Char} {s : Scanned} (h : scan cs = some s) :
    s.lexeme.IsScanned s.text := by
  cases cs with
  | nil => cases h
  | cons c cs =>
    rw [scan] at h
    split at h
    · next hdigit =>
      obtain rfl := Option.some.inj h
      exact scanNumber_isScanned hdigit
    · split at h
      · next hword =>
        obtain rfl := Option.some.inj h
        exact scanWord_isScanned hword
      · obtain rfl := Option.some.inj h
        cases hpair : scanPair? c cs with
        | none => exact scanChar_isScanned c cs
        | some pair =>
          unfold scanPair? at hpair
          split at hpair
          · obtain ⟨sign, hsign, rfl⟩ := Option.map_eq_some_iff.1 hpair
            rw [Option.getD_some, ← Symbol.text_of_ofPair? hsign]
            exact .symbol sign
          · cases hpair

theorem Lexeme.IsScanned.isSpelled {lexeme : Lexeme} {text : List Char}
    (h : lexeme.IsScanned text) : lexeme.IsSpelled text := by
  cases h with
  | number h => exact h
  | @word text h =>
    have hword := wordLexeme_isSpelled (String.ofList text)
    rwa [String.toList_ofList] at hword
  | symbol | newline | unknown => rfl

theorem Numeral.isDigit_or_point {text : List Char} {value : Float} (h : Numeral text value)
    {c : Char} (hc : c ∈ text) : c.isDigit = true ∨ c = '.' := by
  cases h with
  | whole _ hdigits => exact .inl (hdigits c hc)
  | point _ hdigits _ hfraction =>
    rcases List.mem_append.1 hc with hc | hc
    · exact .inl (hdigits c hc)
    · exact (List.mem_cons.1 hc).symm.imp_left (hfraction c)

theorem IsWord.continuesWord {text : List Char} (h : IsWord text) {c : Char} (hc : c ∈ text) :
    Kestrel.continuesWord c = true := by
  cases h with
  | mk hfirst hrest =>
    rcases List.mem_cons.1 hc with rfl | hc
    · exact continuesWord_of_startsWord hfirst
    · exact hrest c hc

/-- No lexeme but the newline has a newline in it. -/
theorem Lexeme.IsScanned.newline_notMem {lexeme : Lexeme} {text : List Char}
    (h : lexeme.IsScanned text) (hne : lexeme ≠ .newline) : '\n' ∉ text := by
  intro hmem
  cases h with
  | number h => rcases h.isDigit_or_point hmem with h | h <;> exact absurd h (by decide)
  | word h => exact absurd (h.continuesWord hmem) (by decide)
  | symbol sign => cases sign <;> exact absurd hmem (by decide)
  | newline => exact hne rfl
  | unknown h => exact h (List.mem_singleton.1 hmem).symm

/-- A text that is one token and no newline is a single lexeme. -/
theorem IsToken.scan_eq {lexeme : Lexeme} {text : List Char} (h : IsToken lexeme text)
    (hne : lexeme ≠ .newline) : scan text = some ⟨lexeme, text, []⟩ := by
  have hnil : text ≠ [] := by
    rintro rfl
    rw [IsToken, (Blank.nil []).tokensFrom_eq_nil] at h
    cases h
  obtain ⟨⟨lexeme', front, rest⟩, hscan⟩ := exists_scan hnil
  have happend : front ++ rest = text := scan_text_append_rest hscan
  have htokens := tokensFrom_of_solid h.solid hscan 0
  rw [h] at htokens
  obtain ⟨span, ts', heq⟩ := exists_joinNewline ⟨lexeme', ⟨0, 0 + byteLength front⟩⟩
    (Kestrel.tokensFrom (0 + byteLength front) rest)
  obtain rfl : lexeme = lexeme' := by
    rw [heq] at htokens
    exact congrArg Token.lexeme (List.cons.inj htokens).1
  rw [joinNewline_of_ne hne] at htokens
  have hlength : byteLength text = 0 + byteLength front :=
    congrArg (fun t => t.span.stop) (List.cons.inj htokens).1
  by_cases hrest : rest = []
  · subst hrest
    rw [List.append_nil] at happend
    rw [hscan, happend]
  · have hpos := byteLength_pos hrest
    rw [← happend, byteLength_append] at hlength
    omega

theorem IsToken.isScanned {lexeme : Lexeme} {text : List Char} (h : IsToken lexeme text)
    (hne : lexeme ≠ .newline) : lexeme.IsScanned text :=
  scan_isScanned (h.scan_eq hne)

/-! ### Tokens of a source -/

theorem Span.text_of_slice? {source : String} {s : Span} {text : List Char}
    (h : slice? source.toList s.start s.stop = some text) : s.text source = String.ofList text := by
  obtain ⟨pre, post, hsource, hstart, hstop⟩ := slice?_eq_some_iff.1 h
  have hsize : source.utf8ByteSize = byteLength pre + (byteLength text + byteLength post) := by
    rw [utf8ByteSize_eq, hsource, byteLength_append, byteLength_append]
  have hle : s.stop ≤ source.utf8ByteSize := by omega
  have hle' : s.start ≤ s.stop := by omega
  simp only [Span.text, Nat.min_eq_left hle, Nat.min_eq_left hle', slice, h, Option.getD_some]

/-- The text under a token of a source spells it. -/
theorem Token.Fits.isSpelled {source : String} {t : Token} (h : t.Fits source) :
    t.lexeme.IsSpelled (t.span.text source).toList := by
  obtain ⟨text, hslice, htokens⟩ := h.alone
  rw [Span.text_of_slice? hslice, String.toList_ofList]
  by_cases hnewline : t.lexeme = .newline
  · obtain ⟨pre, post, hsource, hstart, hstop⟩ := slice?_eq_some_iff.1 hslice
    have hne : text ≠ [] := by
      rintro rfl
      have hlt := h.start_lt_stop
      rw [byteLength_nil] at hstop
      omega
    obtain ⟨hfirst, -⟩ := h.newline hnewline
    rw [← hstart] at hfirst
    rw [hnewline]
    exact (slice?_head_iff rfl hne hsource).1 hfirst
  · rw [tokenize_ofList] at htokens
    exact (IsToken.isScanned htokens hnewline).isSpelled

end Kestrel
