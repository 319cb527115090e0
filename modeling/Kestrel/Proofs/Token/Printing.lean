import Kestrel.Proofs.Token.Spelling

/-!
# Printed lexemes read back

A text that is put together from numerals, words and symbols has the lexemes that it was put
together from, if what stands behind each of them ends it. A blank ends every lexeme, and so do
parentheses and the semicolon.

## Main definitions

- `lexemesOf` — the lexemes of a text
- `Closes` — texts in front of which every lexeme ends
- `Prints` — a text that has some lexemes in front of all these texts
- `Lexeme.IsScannable` — lexemes that occur in some text

## Main statements

- `Numeral.prints`, `IsWord.prints`, `Keyword.prints`, `Symbol.prints` — single lexemes
- `Prints.append`, `Prints.spaced`, `Prints.parens` — texts put together
-/

namespace Kestrel

open Text

/-- The lexemes of a text. -/
def lexemesOf (cs : List Char) : List Lexeme := (tokensFrom 0 cs).map (·.lexeme)

/-- Every lexeme ends in front of this text. -/
def Closes (cs : List Char) : Prop := ∀ c ∈ cs.head?, c ∈ [' ', '(', ')', ';']

/-- In front of a text that ends it, the text `cs` has the lexemes `us`. -/
def Prints (cs : List Char) (us : List Lexeme) : Prop :=
  ∀ rest, Closes rest → lexemesOf (cs ++ rest) = us ++ lexemesOf rest

/-! ### The first lexeme of a text -/

section First

variable {c : Char} {cs text rest : List Char} {lexeme : Lexeme}

theorem map_lexeme_tokensFrom (offset : Nat) (cs : List Char) :
    (tokensFrom offset cs).map (·.lexeme) = lexemesOf cs := by
  rw [← Nat.zero_add offset, tokensFrom_add, List.map_map]
  rfl

theorem lexemesOf_nil : lexemesOf [] = [] := by
  rw [lexemesOf, (Blank.nil []).tokensFrom_eq_nil]
  rfl

theorem lexemesOf_space (cs : List Char) : lexemesOf (' ' :: cs) = lexemesOf cs := by
  obtain ⟨gap, after, rfl, hgap, hafter⟩ := exists_blank cs
  have hgap' : Blank (' ' :: gap) after := .blank (.inl rfl) hgap
  rw [lexemesOf, lexemesOf, ← List.cons_append, hgap'.tokensFrom_append hafter,
    hgap.tokensFrom_append hafter, map_lexeme_tokensFrom, map_lexeme_tokensFrom]

theorem solid_cons (hblank : ¬ (c = ' ' ∨ c = '\t' ∨ c = '\r'))
    (hslash : c = '/' → cs.head? ≠ some '/') : Solid (c :: cs) := by
  constructor
  · rintro c' rest ⟨⟩
    exact hblank
  · rintro rest ⟨⟩
    exact hslash rfl rfl

theorem lexemesOf_of_scan (hsolid : Solid (text ++ rest))
    (hscan : scan (text ++ rest) = some ⟨lexeme, text, rest⟩) (hne : lexeme ≠ .newline) :
    lexemesOf (text ++ rest) = lexeme :: lexemesOf rest := by
  rw [lexemesOf, tokensFrom_of_solid hsolid hscan, joinNewline_of_ne hne, List.map_cons,
    map_lexeme_tokensFrom]

/-- A sign of one character is a lexeme if it is not the first character of a longer one, and starts
no comment. -/
theorem lexemesOf_sign {sign : Symbol} (hsign : Symbol.ofChar? c = some sign)
    (hpair : ∀ d ∈ cs.head?, Symbol.ofPair? c d = none) (hslash : c ≠ '/') :
    lexemesOf (c :: cs) = .symbol sign :: lexemesOf cs := by
  have hword : ¬ (c = ' ' ∨ c = '\t' ∨ c = '\r') ∧ c.isDigit = false ∧ startsWord c = false := by
    unfold Symbol.ofChar? at hsign
    split at hsign
    all_goals first | cases hsign; done | decide
  have hscan : scanPair? c cs = none := by
    cases cs with
    | nil => rfl
    | cons d cs => rw [scanPair?, hpair d rfl, Option.map_none]
  refine @lexemesOf_of_scan [c] cs _ (solid_cons hword.1 fun h => absurd h hslash) ?_
    Lexeme.noConfusion
  simp [scan, hword, hscan, scanChar, hsign]

/-- An opening parenthesis is a lexeme whatever follows it. -/
theorem lexemesOf_leftParen (cs : List Char) :
    lexemesOf ('(' :: cs) = .symbol .leftParen :: lexemesOf cs :=
  lexemesOf_sign rfl (fun d _ => by simp [Symbol.ofPair?]) (by decide)

/-- A minus is a lexeme if it does not go on as an assignment. -/
theorem lexemesOf_minus (hc : c ≠ '=') :
    lexemesOf ('-' :: c :: cs) = .symbol .minus :: lexemesOf (c :: cs) := by
  refine lexemesOf_sign rfl (fun d hd => ?_) (by decide)
  obtain rfl := Option.some.inj hd
  simp [Symbol.ofPair?, hc]

end First

/-! ### Single lexemes -/

section Single

variable {text rest : List Char}

theorem Closes.cases {P : List Char → Prop} (h : Closes rest) (hnil : P [])
    (hspace : ∀ cs, P (' ' :: cs)) (hleft : ∀ cs, P ('(' :: cs)) (hright : ∀ cs, P (')' :: cs))
    (hsemicolon : ∀ cs, P (';' :: cs)) : P rest := by
  cases rest with
  | nil => exact hnil
  | cons c cs =>
    have hc := h c rfl
    simp only [List.mem_cons, List.not_mem_nil, or_false] at hc
    rcases hc with rfl | rfl | rfl | rfl
    · exact hspace cs
    · exact hleft cs
    · exact hright cs
    · exact hsemicolon cs

theorem Closes.takeWhile_append {p : Char → Bool} (h : Closes rest)
    (hp : [' ', '(', ')', ';'].any p = false) (htext : ∀ c ∈ text, p c = true) :
    (text ++ rest).takeWhile p = text ∧ (text ++ rest).dropWhile p = rest := by
  have hrest : rest.takeWhile p = [] ∧ rest.dropWhile p = rest := by
    cases rest with
    | nil => exact ⟨rfl, rfl⟩
    | cons c cs =>
      have hc : ¬ p c = true := List.any_eq_false.1 hp c (h c rfl)
      exact ⟨List.takeWhile_cons_of_neg hc, List.dropWhile_cons_of_neg hc⟩
  rw [List.takeWhile_append_of_pos htext, List.dropWhile_append_of_pos htext, hrest.1, hrest.2,
    List.append_nil]
  exact ⟨rfl, rfl⟩

theorem solid_of_isDigit {c : Char} {cs : List Char} (h : c.isDigit = true) : Solid (c :: cs) := by
  refine solid_cons ?_ ?_
  · rintro (rfl | rfl | rfl) <;> exact absurd h (by decide)
  · rintro rfl
    exact absurd h (by decide)

theorem scan_of_isDigit {c : Char} {cs : List Char} (h : c.isDigit = true) :
    scan (c :: cs) = some (scanNumber (c :: cs)) := by
  rw [scan, if_pos h]

theorem Numeral.exists_cons {value : Float} (h : Numeral text value) :
    ∃ c cs, text = c :: cs ∧ c.isDigit = true := by
  cases h with
  | whole hne hdigits =>
    obtain ⟨c, cs, rfl⟩ := List.exists_cons_of_ne_nil hne
    exact ⟨c, cs, rfl, hdigits c List.mem_cons_self⟩
  | point hne hdigits =>
    obtain ⟨c, cs, rfl⟩ := List.exists_cons_of_ne_nil hne
    exact ⟨c, _, rfl, hdigits c List.mem_cons_self⟩

theorem Numeral.prints {value : Float} (h : Numeral text value) : Prints text [.number value] := by
  intro rest hrest
  obtain ⟨c, cs, hfirst, hc⟩ := h.exists_cons
  have hscan : scanNumber (text ++ rest) = ⟨.number value, text, rest⟩ := by
    cases h with
    | whole hne hdigits =>
      obtain ⟨htake, hdrop⟩ := hrest.takeWhile_append (p := Char.isDigit) (by decide) hdigits
      rw [scanNumber_of_whole, htake, hdrop]
      intro d rest' hpoint
      rw [hdrop] at hpoint
      have hclosing := hrest '.' (by rw [hpoint]; rfl)
      exact absurd hclosing (by decide)
    | @point digits fraction hne hdigits hne' hfraction =>
      obtain ⟨d, ds, rfl⟩ := List.exists_cons_of_ne_nil hne'
      obtain ⟨htake, hdrop⟩ := hrest.takeWhile_append (p := Char.isDigit) (by decide) hfraction
      have hpoint : ¬ '.'.isDigit = true := by decide
      have htext : (digits ++ '.' :: d :: ds) ++ rest =
          digits ++ '.' :: d :: (ds ++ rest) := by simp
      have hwhole : (digits ++ '.' :: d :: (ds ++ rest)).takeWhile Char.isDigit = digits := by
        rw [List.takeWhile_append_of_pos hdigits, List.takeWhile_cons_of_neg hpoint,
          List.append_nil]
      have hbehind : (digits ++ '.' :: d :: (ds ++ rest)).dropWhile Char.isDigit =
          '.' :: d :: (ds ++ rest) := by
        rw [List.dropWhile_append_of_pos hdigits, List.dropWhile_cons_of_neg hpoint]
      rw [List.cons_append] at htake hdrop
      rw [htext, scanNumber_of_fraction (hfraction d List.mem_cons_self) hbehind, hwhole, htake,
        hdrop]
  subst hfirst
  exact lexemesOf_of_scan (solid_of_isDigit hc) ((scan_of_isDigit hc).trans (congrArg some hscan))
    nofun

theorem isAlpha_iff_toNat {c : Char} :
    c.isAlpha = true ↔ (65 ≤ c.toNat ∧ c.toNat ≤ 90) ∨ (97 ≤ c.toNat ∧ c.toNat ≤ 122) :=
  (Bool.or_eq_true _ _).to_iff.trans <| or_congr decide_eq_true_iff <|
    (Bool.and_eq_true _ _).to_iff.trans (and_congr decide_eq_true_iff decide_eq_true_iff)

theorem not_isDigit_of_startsWord {c : Char} (h : startsWord c = true) : ¬ c.isDigit = true := by
  have hzero : '0'.toNat = 48 := rfl
  have hnine : '9'.toNat = 57 := rfl
  rw [Char.isDigit_iff_toNat, hzero, hnine]
  rw [startsWord, Bool.or_eq_true, isAlpha_iff_toNat, beq_iff_eq] at h
  rcases h with h | rfl
  · omega
  · decide

theorem wordLexeme_ne_newline (word : String) : wordLexeme word ≠ .newline := by
  rcases wordLexeme_cases word with ⟨keyword, heq⟩ | heq <;> rw [heq] <;> exact nofun

theorem IsWord.exists_cons (h : IsWord text) : ∃ c cs, text = c :: cs ∧ startsWord c = true := by
  cases h with
  | mk hc => exact ⟨_, _, rfl, hc⟩

theorem IsWord.prints (h : IsWord text) : Prints text [wordLexeme (String.ofList text)] := by
  intro rest hrest
  obtain ⟨htake, hdrop⟩ :=
    hrest.takeWhile_append (p := Kestrel.continuesWord) (by decide) fun c => h.continuesWord
  cases h with
  | @mk c cs hc hcs =>
    refine lexemesOf_of_scan (solid_cons ?_ ?_) ?_ (wordLexeme_ne_newline _)
    · rintro (rfl | rfl | rfl) <;> exact absurd hc (by decide)
    · rintro rfl
      exact absurd hc (by decide)
    · rw [List.cons_append] at *
      rw [scan, if_neg (not_isDigit_of_startsWord hc), if_pos hc, scanWord, htake, hdrop]

theorem Keyword.isWord_text (keyword : Keyword) : IsWord keyword.text.toList := by
  cases keyword <;> exact .mk (by decide) (List.all_eq_true.1 (by decide))

theorem Keyword.wordLexeme_text (keyword : Keyword) :
    wordLexeme keyword.text = .keyword keyword := by
  cases keyword <;> rfl

theorem Keyword.prints (keyword : Keyword) : Prints keyword.text.toList [.keyword keyword] := by
  have hprints := keyword.isWord_text.prints
  rwa [String.ofList_toList, keyword.wordLexeme_text] at hprints

theorem Symbol.prints (sign : Symbol) : Prints sign.text.toList [.symbol sign] := by
  intro rest hrest
  have hsolid : Solid (sign.text.toList ++ rest) := by
    obtain ⟨c, cs, htext, hblank, hslash⟩ : ∃ c cs, sign.text.toList = c :: cs ∧
        ¬ (c = ' ' ∨ c = '\t' ∨ c = '\r') ∧ (c = '/' → cs.head? ≠ some '/') := by
      cases sign <;> exact ⟨_, _, rfl, by decide, by decide⟩
    rw [htext]
    refine solid_cons hblank fun hc => ?_
    cases cs with
    | nil =>
      intro hhead
      exact absurd (hrest '/' hhead) (by decide)
    | cons d cs => exact hslash hc
  refine lexemesOf_of_scan hsolid ?_ nofun
  refine hrest.cases (P := fun rest => scan (sign.text.toList ++ rest) =
    some ⟨.symbol sign, sign.text.toList, rest⟩) ?_ ?_ ?_ ?_ ?_ <;> cases sign <;> intros <;> rfl

end Single

/-! ### Lexemes that some text has -/

/-- Some characters are found as this lexeme. -/
def Lexeme.IsScannable (u : Lexeme) : Prop := ∃ text, u.IsScanned text

theorem Lexeme.IsScannable.symbol (sign : Symbol) : (Lexeme.symbol sign).IsScannable :=
  ⟨_, .symbol sign⟩

theorem Lexeme.IsScannable.word {word : String} (h : IsWord word.toList) :
    (wordLexeme word).IsScannable := by
  have hword := Lexeme.IsScanned.word h
  rw [String.ofList_toList] at hword
  exact ⟨_, hword⟩

theorem Lexeme.IsScannable.name {word : String} (h : IsWord word.toList)
    (hname : wordLexeme word = .name word) : (Lexeme.name word).IsScannable := by
  rw [← hname]
  exact .word h

theorem Lexeme.IsScannable.keyword (keyword : Keyword) : (Lexeme.keyword keyword).IsScannable := by
  rw [← keyword.wordLexeme_text]
  exact .word keyword.isWord_text

theorem lexeme_of_mem_joinNewline {t t' : Token} {ts : List Token} (h : t' ∈ joinNewline t ts) :
    t'.lexeme = t.lexeme ∨ t' ∈ ts := by
  cases ts with
  | nil => exact .inl (congrArg _ (List.mem_singleton.1 h))
  | cons next rest =>
    by_cases hboth : t.lexeme = .newline ∧ next.lexeme = .newline
    · rw [joinNewline_newline hboth.1 hboth.2] at h
      rcases List.mem_cons.1 h with rfl | h
      · exact .inl hboth.1.symm
      · exact .inr (List.mem_cons_of_mem _ h)
    · rw [joinNewline, if_neg hboth] at h
      exact (List.mem_cons.1 h).imp_left (congrArg _)

theorem isScannable_of_mem_tokensFrom {offset : Nat} {cs : List Char} {t : Token}
    (h : t ∈ tokensFrom offset cs) : t.lexeme.IsScannable := by
  fun_induction tokensFrom offset cs with
  | case1 => cases h
  | case2 offset cs s hscan hlt start stop ih =>
    rcases lexeme_of_mem_joinNewline h with heq | h
    · rw [heq]
      exact ⟨s.text, scan_isScanned hscan⟩
    · exact ih h

theorem Lexeme.IsScannable.exists_numeral {value : Float} (h : (Lexeme.number value).IsScannable) :
    ∃ text, Numeral text value := by
  obtain ⟨text, h⟩ := h
  obtain ⟨u, hu⟩ : ∃ u, Lexeme.number value = u := ⟨_, rfl⟩
  rw [hu] at h
  cases h with
  | number h =>
    cases hu
    exact ⟨text, h⟩
  | word h =>
    rcases wordLexeme_cases (String.ofList text) with ⟨keyword, heq⟩ | heq <;> rw [heq] at hu <;>
      cases hu
  | symbol | newline | unknown => cases hu

theorem Lexeme.IsScannable.isWord {word : String} (h : (Lexeme.name word).IsScannable) :
    IsWord word.toList ∧ wordLexeme word = .name word := by
  obtain ⟨text, h⟩ := h
  obtain ⟨u, hu⟩ : ∃ u, Lexeme.name word = u := ⟨_, rfl⟩
  rw [hu] at h
  cases h with
  | word h =>
    have hname : wordLexeme (String.ofList text) = .name (String.ofList text) := by
      rcases wordLexeme_cases (String.ofList text) with ⟨keyword, heq⟩ | heq
      · rw [heq] at hu
        cases hu
      · exact heq
    obtain rfl := Lexeme.name.inj (hu.trans hname)
    rw [String.toList_ofList]
    exact ⟨h, hname⟩
  | number | symbol | newline | unknown => cases hu

theorem Lexeme.IsScannable.prints_name {word : String} (h : (Lexeme.name word).IsScannable) :
    Prints word.toList [.name word] := by
  obtain ⟨hword, hname⟩ := h.isWord
  have hprints := hword.prints
  rwa [String.ofList_toList, hname] at hprints

/-! ### Texts put together -/

section Together

variable {cs ds : List Char} {us vs : List Lexeme}

theorem Prints.lexemesOf_eq (h : Prints cs us) : lexemesOf cs = us := by
  have hnil := h [] nofun
  rwa [List.append_nil, lexemesOf_nil, List.append_nil] at hnil

/-- Texts of which the second one ends the lexemes of the first one. -/
theorem Prints.append (h : Prints cs us) (h' : Prints ds vs) (hne : ds ≠ []) (hcloses : Closes ds) :
    Prints (cs ++ ds) (us ++ vs) := by
  intro rest hrest
  have hbehind : Closes (ds ++ rest) := by
    obtain ⟨d, ds, rfl⟩ := List.exists_cons_of_ne_nil hne
    exact hcloses
  rw [List.append_assoc, h _ hbehind, h' rest hrest, List.append_assoc]

theorem Prints.space (h : Prints cs us) : Prints (' ' :: cs) us := by
  intro rest hrest
  rw [List.cons_append, lexemesOf_space, h rest hrest]

/-- Texts with a blank between them. -/
theorem Prints.spaced (h : Prints cs us) (h' : Prints ds vs) :
    Prints (cs ++ ' ' :: ds) (us ++ vs) :=
  h.append h'.space (List.cons_ne_nil _ _) (by rintro c ⟨⟩; decide)

/-- A text in parentheses. -/
theorem Prints.parens (h : Prints cs us) :
    Prints ('(' :: (cs ++ [')'])) (.symbol .leftParen :: (us ++ [.symbol .rightParen])) := by
  intro rest hrest
  have hinner := h.append (Symbol.prints .rightParen) (List.cons_ne_nil _ _)
    (by rintro c ⟨⟩; decide)
  rw [List.cons_append, lexemesOf_leftParen, List.cons_append]
  exact congrArg _ (hinner rest hrest)

/-- A minus right in front of a text. -/
theorem Prints.minus {c : Char} (h : Prints (c :: cs) us) (hc : c ≠ '=') :
    Prints ('-' :: c :: cs) (.symbol .minus :: us) := by
  intro rest hrest
  have hrest' := h rest hrest
  rw [List.cons_append] at hrest'
  rw [List.cons_append, List.cons_append, lexemesOf_minus hc, hrest', List.cons_append]

end Together

end Kestrel
