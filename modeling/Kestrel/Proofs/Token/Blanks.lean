import Kestrel.Token.Scan

/-!
# Blanks and single lexemes

What is passed over in front of a token depends on the text behind it only as far as a comment has
to end at a newline or with the text. A lexeme does not change if the text behind it is cut off
somewhere.

## Main definitions

- `Blank` — blanks and comments, in front of some text
- `Solid` — texts that start with neither

## Main statements

- `exists_blank` — every text is blank up to a solid rest
- `scan_cut` — a lexeme is found again when the text behind it is cut off
-/

namespace Kestrel

open Text

/-- A text in front of another one that consists of spaces, tabs, carriage returns and comments.
A comment reaches to the next newline or to the end. -/
inductive Blank : (gap after : List Char) → Prop
  | nil (after : List Char) : Blank [] after
  | blank {c : Char} {gap after : List Char} (hc : c = ' ' ∨ c = '\t' ∨ c = '\r')
      (h : Blank gap after) : Blank (c :: gap) after
  | comment {line after : List Char} (hline : ∀ c ∈ line, c ≠ '\n')
      (hafter : after = [] ∨ ∃ rest, after = '\n' :: rest) :
      Blank ('/' :: '/' :: line) after

/-- A text that starts neither with a blank nor with a comment. -/
structure Solid (cs : List Char) : Prop where
  not_blank : ∀ c rest, cs = c :: rest → ¬ (c = ' ' ∨ c = '\t' ∨ c = '\r')
  not_comment : ∀ rest, cs ≠ '/' :: '/' :: rest

theorem solid_nil : Solid [] := ⟨nofun, nofun⟩

theorem solid_newline (cs : List Char) : Solid ('\n' :: cs) := by
  constructor
  · rintro c rest ⟨⟩
    decide
  · exact nofun

theorem Solid.of_append {us vs : List Char} (h : Solid (us ++ vs)) : Solid us := by
  constructor
  · rintro c rest rfl
    exact h.not_blank c (rest ++ vs) rfl
  · rintro rest rfl
    exact h.not_comment (rest ++ vs) rfl

theorem skipLine_append {line after : List Char} (hline : ∀ c ∈ line, c ≠ '\n')
    (hafter : after = [] ∨ ∃ rest, after = '\n' :: rest) (offset : Nat) :
    skipLine offset (line ++ after) = (offset + byteLength line, after) := by
  induction line generalizing offset with
  | nil =>
    rcases hafter with rfl | ⟨rest, rfl⟩
    · rfl
    · rfl
  | cons c line ih =>
    have hc : c ≠ '\n' := hline c List.mem_cons_self
    rw [List.cons_append, skipLine, if_neg hc, ih fun d hd => hline d (List.mem_cons_of_mem c hd),
      byteLength_cons, Nat.add_assoc]

theorem exists_skipLine (offset : Nat) (cs : List Char) :
    ∃ line after, cs = line ++ after ∧ (∀ c ∈ line, c ≠ '\n') ∧
      (after = [] ∨ ∃ rest, after = '\n' :: rest) := by
  fun_induction skipLine offset cs with
  | case1 => exact ⟨[], [], rfl, List.forall_mem_nil _, .inl rfl⟩
  | case2 offset cs => exact ⟨[], _, rfl, List.forall_mem_nil _, .inr ⟨cs, rfl⟩⟩
  | case3 offset c cs hc ih =>
    obtain ⟨line, after, rfl, hline, hafter⟩ := ih
    exact ⟨c :: line, after, rfl, List.forall_mem_cons.2 ⟨hc, hline⟩, hafter⟩

theorem skipBlanks_blank {c : Char} (h : c = ' ' ∨ c = '\t' ∨ c = '\r') (offset : Nat)
    (cs : List Char) : skipBlanks offset (c :: cs) = skipBlanks (offset + 1) cs := by
  rcases h with rfl | rfl | rfl <;> rfl

/-- Nothing is passed over at the front of a solid text. -/
theorem Solid.skipBlanks_eq {cs : List Char} (h : Solid cs) (offset : Nat) :
    skipBlanks offset cs = (offset, cs) := by
  unfold skipBlanks
  split
  · next rest => exact absurd rfl (h.not_comment rest)
  · next c rest _ =>
    have hc := h.not_blank c rest rfl
    rw [if_neg (by simpa [or_assoc] using hc)]
  · rfl

/-- Blanks are passed over up to a solid text. -/
theorem Blank.skipBlanks_append {gap after : List Char} (h : Blank gap after) (hafter : Solid after)
    (offset : Nat) : skipBlanks offset (gap ++ after) = (offset + byteLength gap, after) := by
  induction h generalizing offset with
  | nil after => exact hafter.skipBlanks_eq offset
  | @blank c gap after hc h ih =>
    have hsize : c.utf8Size = 1 := by
      rcases hc with rfl | rfl | rfl <;> rfl
    rw [List.cons_append, skipBlanks_blank hc, ih hafter, byteLength_cons, hsize, Nat.add_assoc]
  | @comment line after hline hend =>
    have hslash : '/'.utf8Size = 1 := rfl
    show skipLine (offset + 2) (line ++ after) = _
    rw [skipLine_append hline hend, byteLength_cons, byteLength_cons, hslash]
    simp only [Prod.mk.injEq, and_true]
    omega

/-- Every text is blank up to a solid rest. -/
theorem exists_blank (cs : List Char) :
    ∃ gap after, cs = gap ++ after ∧ Blank gap after ∧ Solid after := by
  induction cs with
  | nil => exact ⟨[], [], rfl, .nil [], solid_nil⟩
  | cons c cs ih =>
    by_cases hblank : c = ' ' ∨ c = '\t' ∨ c = '\r'
    · obtain ⟨gap, after, rfl, hgap, hafter⟩ := ih
      exact ⟨c :: gap, after, rfl, .blank hblank hgap, hafter⟩
    · by_cases hcomment : ∃ rest, c :: cs = '/' :: '/' :: rest
      · obtain ⟨rest, heq⟩ := hcomment
        obtain ⟨line, after, rfl, hline, hend⟩ := exists_skipLine 0 rest
        refine ⟨'/' :: '/' :: line, after, heq, .comment hline hend, ?_⟩
        rcases hend with rfl | ⟨rest', rfl⟩
        · exact solid_nil
        · exact solid_newline rest'
      · refine ⟨[], c :: cs, rfl, .nil _, ?_, fun rest heq => hcomment ⟨rest, heq⟩⟩
        rintro c' rest ⟨⟩
        exact hblank

/-- In front of a text that is not empty it does not matter what follows this text. -/
theorem Blank.cut {gap text rest : List Char} (h : Blank gap (text ++ rest)) (hne : text ≠ [])
    (rest' : List Char) : Blank gap (text ++ rest') := by
  obtain ⟨c, text, rfl⟩ := List.exists_cons_of_ne_nil hne
  generalize hafter : (c :: text) ++ rest = after at h
  induction h with
  | nil => exact .nil _
  | blank hc h ih => exact .blank hc (ih hafter)
  | comment hline hend =>
    rcases hend with rfl | ⟨rest'', rfl⟩
    · cases hafter
    · obtain ⟨rfl, -⟩ := List.cons.inj hafter
      exact .comment hline (.inr ⟨_, rfl⟩)

/-- In front of a newline it does not matter what follows it. -/
theorem Blank.newline_congr {gap rest : List Char} (h : Blank gap ('\n' :: rest))
    (rest' : List Char) : Blank gap ('\n' :: rest') :=
  @Blank.cut gap ['\n'] rest h (List.cons_ne_nil _ _) rest'

/-! ### Single lexemes -/

/-- Cutting the text off behind the characters that are taken does not change what is taken. -/
theorem takeWhile_cut {p : Char → Bool} {cs more rest : List Char}
    (h : cs.dropWhile p = more ++ rest) :
    (cs.takeWhile p ++ more).takeWhile p = cs.takeWhile p ∧
      (cs.takeWhile p ++ more).dropWhile p = more := by
  induction cs with
  | nil =>
    obtain ⟨rfl, -⟩ := List.append_eq_nil_iff.1 h.symm
    exact ⟨rfl, rfl⟩
  | cons c cs ih =>
    by_cases hc : p c = true
    · rw [List.dropWhile_cons_of_pos hc] at h
      obtain ⟨htake, hdrop⟩ := ih h
      rw [List.takeWhile_cons_of_pos hc, List.cons_append, List.takeWhile_cons_of_pos hc,
        List.dropWhile_cons_of_pos hc, htake, hdrop]
      exact ⟨rfl, rfl⟩
    · rw [List.dropWhile_cons_of_neg hc] at h
      rw [List.takeWhile_cons_of_neg hc, List.nil_append]
      cases more with
      | nil => exact ⟨rfl, rfl⟩
      | cons d more =>
        obtain ⟨rfl, -⟩ := List.cons.inj h
        exact ⟨List.takeWhile_cons_of_neg hc, List.dropWhile_cons_of_neg hc⟩

theorem scanNumber_of_fraction {cs rest : List Char} {d : Char} (hd : d.isDigit = true)
    (h : cs.dropWhile Char.isDigit = '.' :: d :: rest) :
    scanNumber cs =
      ⟨.number (Number.Decimal.ofNumeral (cs.takeWhile Char.isDigit)
          ((d :: rest).takeWhile Char.isDigit)).toFloat,
        cs.takeWhile Char.isDigit ++ '.' :: (d :: rest).takeWhile Char.isDigit,
        (d :: rest).dropWhile Char.isDigit⟩ := by
  simp only [scanNumber, h, hd, if_true]

theorem scanNumber_of_whole {cs : List Char}
    (h : ∀ d rest, cs.dropWhile Char.isDigit = '.' :: d :: rest → ¬ d.isDigit = true) :
    scanNumber cs =
      ⟨.number (Number.Decimal.ofNumeral (cs.takeWhile Char.isDigit) []).toFloat,
        cs.takeWhile Char.isDigit, cs.dropWhile Char.isDigit⟩ := by
  unfold scanNumber
  split
  · next d rest heq =>
    rw [if_neg (h d rest heq), heq]
  · rfl

theorem scanNumber_cut {cs more rest : List Char} (h : (scanNumber cs).rest = more ++ rest) :
    scanNumber ((scanNumber cs).text ++ more) =
      ⟨(scanNumber cs).lexeme, (scanNumber cs).text, more⟩ := by
  -- a point belongs to the numeral if and only if a digit follows it, and then both are kept
  by_cases hfraction : ∃ d rest', cs.dropWhile Char.isDigit = '.' :: d :: rest' ∧ d.isDigit = true
  · obtain ⟨d, rest', hdrop, hd⟩ := hfraction
    rw [scanNumber_of_fraction hd hdrop] at h ⊢
    dsimp only at h ⊢
    obtain ⟨htake₂, hdrop₂⟩ := takeWhile_cut h
    have hwhole : cs.dropWhile Char.isDigit =
        ('.' :: ((d :: rest').takeWhile Char.isDigit ++ more)) ++ rest := by
      have hsplit := List.takeWhile_append_dropWhile (p := Char.isDigit) (l := d :: rest')
      rw [h] at hsplit
      rw [hdrop, List.cons_append, List.append_assoc, hsplit]
    obtain ⟨htake₁, hdrop₁⟩ := takeWhile_cut hwhole
    rw [List.takeWhile_cons_of_pos hd] at htake₁ hdrop₁ htake₂ hdrop₂ ⊢
    rw [List.cons_append] at htake₁ hdrop₁ htake₂ hdrop₂
    rw [List.append_assoc, List.cons_append, List.cons_append, scanNumber_of_fraction hd hdrop₁,
      htake₁, htake₂, hdrop₂]
  · have hwhole : ∀ d rest', cs.dropWhile Char.isDigit = '.' :: d :: rest' →
        ¬ d.isDigit = true := fun d rest' hdrop hd => hfraction ⟨d, rest', hdrop, hd⟩
    rw [scanNumber_of_whole hwhole] at h ⊢
    obtain ⟨htake, hdrop⟩ := takeWhile_cut h
    rw [scanNumber_of_whole, htake, hdrop]
    intro d rest' heq hd
    rw [hdrop] at heq
    subst heq
    exact hwhole d (rest' ++ rest) h hd

theorem scanWord_cut {cs more rest : List Char} (h : (scanWord cs).rest = more ++ rest) :
    scanWord ((scanWord cs).text ++ more) =
      ⟨(scanWord cs).lexeme, (scanWord cs).text, more⟩ := by
  obtain ⟨htake, hdrop⟩ := takeWhile_cut h
  simp only [scanWord] at htake hdrop ⊢
  rw [htake, hdrop]

/-- The text of a symbol or a single character, cut off anywhere behind it. -/
theorem scanPair?_cut {c : Char} {cs more rest : List Char} {s : Scanned}
    (hs : (scanPair? c cs).getD (scanChar c cs) = s) (h : s.rest = more ++ rest) :
    ∃ tail, s.text = c :: tail ∧
      (scanPair? c (tail ++ more)).getD (scanChar c (tail ++ more)) = ⟨s.lexeme, s.text, more⟩ := by
  cases hpair : scanPair? c cs with
  | some pair =>
    rw [hpair] at hs
    obtain rfl : pair = s := hs
    unfold scanPair? at hpair
    split at hpair
    · next d rest' =>
      obtain ⟨sign, hsign, rfl⟩ := Option.map_eq_some_iff.1 hpair
      exact ⟨[d], rfl, by simp [scanPair?, hsign]⟩
    · cases hpair
  | none =>
    rw [hpair] at hs
    obtain rfl : scanChar c cs = s := hs
    refine ⟨[], scanChar_text c cs, ?_⟩
    rw [scanChar_rest] at h
    subst h
    have hnone : scanPair? c more = none := by
      cases more with
      | nil => rfl
      | cons d more =>
        simp only [scanPair?, List.cons_append, Option.map_eq_none_iff] at hpair
        simp only [scanPair?, hpair, Option.map_none]
    rw [List.nil_append, hnone]
    simp only [Option.getD_none, scanChar]
    split <;> rfl

/-- A lexeme is found again when the text behind it is cut off anywhere. -/
theorem scan_cut {cs more rest : List Char} {s : Scanned} (hs : scan cs = some s)
    (h : s.rest = more ++ rest) : scan (s.text ++ more) = some ⟨s.lexeme, s.text, more⟩ := by
  cases cs with
  | nil => cases hs
  | cons c cs =>
    rw [scan] at hs
    by_cases hdigit : c.isDigit = true
    · rw [if_pos hdigit] at hs
      obtain rfl := Option.some.inj hs
      obtain ⟨tail, htail⟩ : ∃ tail, (scanNumber (c :: cs)).text = c :: tail := by
        have hne : (scanNumber (c :: cs)).text ≠ [] := scanNumber_text_ne_nil hdigit
        obtain ⟨d, tail, htext⟩ := List.exists_cons_of_ne_nil hne
        have hcs := scanNumber_text_append_rest (c :: cs)
        rw [htext, List.cons_append] at hcs
        obtain ⟨rfl, -⟩ := List.cons.inj hcs
        exact ⟨tail, htext⟩
      rw [← scanNumber_cut h, htail, List.cons_append, scan, if_pos hdigit]
    · rw [if_neg hdigit] at hs
      by_cases hword : startsWord c = true
      · rw [if_pos hword] at hs
        obtain rfl := Option.some.inj hs
        have htail : (scanWord (c :: cs)).text = c :: cs.takeWhile continuesWord :=
          List.takeWhile_cons_of_pos (continuesWord_of_startsWord hword)
        rw [← scanWord_cut h, htail, List.cons_append, scan, if_neg hdigit, if_pos hword]
      · rw [if_neg hword] at hs
        obtain ⟨tail, htail, hcut⟩ := scanPair?_cut (Option.some.inj hs) h
        rw [← hcut, htail, List.cons_append, scan, if_neg hdigit, if_neg hword]

theorem scan_newline (cs : List Char) : scan ('\n' :: cs) = some ⟨.newline, ['\n'], cs⟩ := by
  have hpair : scanPair? '\n' cs = none := by
    cases cs with
    | nil => rfl
    | cons d cs => rfl
  rw [scan, if_neg (by decide), if_neg (by decide), hpair]
  rfl

theorem exists_scan {cs : List Char} (h : cs ≠ []) : ∃ s, scan cs = some s := by
  cases cs with
  | nil => exact absurd rfl h
  | cons c cs =>
    rw [scan]
    split
    · exact ⟨_, rfl⟩
    · split <;> exact ⟨_, rfl⟩

/-- The ways in which a lexeme may be found. -/
theorem scan_cases {c : Char} {cs : List Char} {s : Scanned} (hs : scan (c :: cs) = some s) :
    (∃ value, s.lexeme = .number value) ∨ (∃ word, s.lexeme = wordLexeme word) ∨
      (∃ d sign, Symbol.ofPair? c d = some sign ∧ s.lexeme = .symbol sign) ∨ s = scanChar c cs := by
  rw [scan] at hs
  split at hs
  · obtain rfl := Option.some.inj hs
    left
    unfold scanNumber
    split
    · split <;> exact ⟨_, rfl⟩
    · exact ⟨_, rfl⟩
  · split at hs
    · obtain rfl := Option.some.inj hs
      exact .inr (.inl ⟨_, rfl⟩)
    · obtain rfl := Option.some.inj hs
      cases hpair : scanPair? c cs with
      | some pair =>
        unfold scanPair? at hpair
        split at hpair
        · next d rest =>
          obtain ⟨sign, hsign, rfl⟩ := Option.map_eq_some_iff.1 hpair
          exact .inr (.inr (.inl ⟨d, sign, hsign, rfl⟩))
        · cases hpair
      | none => exact .inr (.inr (.inr rfl))

theorem wordLexeme_cases (word : String) :
    (∃ keyword, wordLexeme word = .keyword keyword) ∨ wordLexeme word = .name word := by
  unfold wordLexeme
  split
  · next keyword _ => exact .inl ⟨keyword, rfl⟩
  · exact .inr rfl

theorem Symbol.ofPair?_ne_slash (c d : Char) : Symbol.ofPair? c d ≠ some .slash := by
  unfold Symbol.ofPair?
  split <;> simp

/-- A slash and a newline are single characters. -/
theorem exists_scanChar_of_scan {cs : List Char} {s : Scanned} (hs : scan cs = some s)
    (h : s.lexeme = .symbol .slash ∨ s.lexeme = .newline) : ∃ c rest, s = scanChar c rest := by
  cases cs with
  | nil => cases hs
  | cons c cs =>
    rcases scan_cases hs with ⟨value, hnumber⟩ | ⟨word, hword⟩ | ⟨d, sign, hsign, hpair⟩ | hchar
    · rw [hnumber] at h
      rcases h with h | h <;> cases h
    · rw [hword] at h
      rcases wordLexeme_cases word with ⟨keyword, heq⟩ | heq <;> rw [heq] at h <;>
        rcases h with h | h <;> cases h
    · rw [hpair] at h
      rcases h with h | h
      · cases h
        exact absurd hsign (Symbol.ofPair?_ne_slash c d)
      · cases h
    · exact ⟨c, cs, hchar⟩

theorem text_of_scan_slash {cs : List Char} {s : Scanned} (hs : scan cs = some s)
    (h : s.lexeme = .symbol .slash) : s.text = ['/'] := by
  obtain ⟨c, rest, rfl⟩ := exists_scanChar_of_scan hs (.inl h)
  rw [scanChar_text]
  unfold scanChar at h
  split at h
  · next sign hsign =>
    cases h
    unfold Symbol.ofChar? at hsign
    split at hsign <;> cases hsign
    rfl
  · dsimp only at h
    split at h <;> cases h

theorem text_of_scan_newline {cs : List Char} {s : Scanned} (hs : scan cs = some s)
    (h : s.lexeme = .newline) : s.text = ['\n'] := by
  obtain ⟨c, rest, rfl⟩ := exists_scanChar_of_scan hs (.inr h)
  rw [scanChar_text]
  unfold scanChar at h
  split at h
  · cases h
  · dsimp only at h
    split at h
    · next hc => rw [hc]
    · cases h

end Kestrel
