import Kestrel.Proofs.Text.Slices
import Kestrel.Proofs.Token.Blanks

/-!
# The longest token

Tokens are found from the left, and each one is as long as it can be. This file describes the tokens
of a text by a recursion of its own, which joins newlines at once, and shows what every token has to
do with the text around it.

## Main definitions

- `tokensFrom` — the tokens of a text, joined newlines included
- `Munched` — a token that stands by itself and could not have been longer
- `Lossless` — tokens that leave nothing out but blanks

## Main statements

- `tokenize_ofList` — `tokenize` finds these tokens
- `exists_munched` — the first token of a text is munched
- `Munched.unique`, `Lossless.eq_tokensFrom` — no other tokens are lossless
-/

namespace Kestrel

open Text

/-- The tokens of a text that stands at `offset`. -/
def tokensFrom (offset : Nat) (cs : List Char) : List Token :=
  match h : scan (skipBlanks offset cs).2 with
  | none => []
  | some s =>
    have := length_rest_lt_of_scan h
    let start := (skipBlanks offset cs).1
    let stop := start + byteLength s.text
    joinNewline ⟨s.lexeme, ⟨start, stop⟩⟩ (tokensFrom stop s.rest)
termination_by cs.length
decreasing_by
  have := length_skipBlanks_le offset cs
  omega

theorem tokensFrom_of_none {offset : Nat} {cs : List Char}
    (h : scan (skipBlanks offset cs).2 = none) : tokensFrom offset cs = [] := by
  rw [tokensFrom]
  split
  · rfl
  · next s hs => simp [h] at hs

theorem tokensFrom_of_some {offset : Nat} {cs : List Char} {s : Scanned}
    (h : scan (skipBlanks offset cs).2 = some s) :
    tokensFrom offset cs =
      joinNewline
        ⟨s.lexeme, ⟨(skipBlanks offset cs).1, (skipBlanks offset cs).1 + byteLength s.text⟩⟩
        (tokensFrom ((skipBlanks offset cs).1 + byteLength s.text) s.rest) := by
  rw [tokensFrom]
  split
  · next hnone => simp [h] at hnone
  · next s' hs =>
    obtain rfl := Option.some.inj (h.symm.trans hs)
    rfl

theorem foldl_tokensOnto (found : List Token) (offset : Nat) (cs : List Char) :
    (tokensOnto found offset cs).foldl (fun after t => joinNewline t after) [] =
      found.foldl (fun after t => joinNewline t after) (tokensFrom offset cs) := by
  fun_induction tokensOnto found offset cs with
  | case1 found offset cs h => rw [tokensFrom_of_none h]
  | case2 found offset cs s h hlt start stop ih => rw [ih, List.foldl_cons, tokensFrom_of_some h]

/-- The tokens of a text are found by `tokensFrom`. -/
theorem tokenize_ofList (cs : List Char) : tokenize (String.ofList cs) = tokensFrom 0 cs := by
  rw [tokenize, foldl_tokensOnto, String.toList_ofList]
  rfl

theorem Blank.tokensFrom_eq_nil {cs : List Char} (h : Blank cs []) (offset : Nat) :
    tokensFrom offset cs = [] := by
  have hskip := h.skipBlanks_append solid_nil offset
  rw [List.append_nil] at hskip
  exact tokensFrom_of_none (by rw [hskip]; rfl)

theorem Blank.tokensFrom_append {gap after : List Char} (h : Blank gap after) (hafter : Solid after)
    (offset : Nat) :
    tokensFrom offset (gap ++ after) = tokensFrom (offset + byteLength gap) after := by
  have hskip := h.skipBlanks_append hafter offset
  have hskip' := hafter.skipBlanks_eq (offset + byteLength gap)
  cases hscan : scan after with
  | none =>
    rw [tokensFrom_of_none (by rw [hskip]; exact hscan),
      tokensFrom_of_none (by rw [hskip']; exact hscan)]
  | some s =>
    have hfound : scan (skipBlanks offset (gap ++ after)).2 = some s := by
      rw [hskip]
      exact hscan
    have hfound' : scan (skipBlanks (offset + byteLength gap) after).2 = some s := by
      rw [hskip']
      exact hscan
    rw [tokensFrom_of_some hfound, tokensFrom_of_some hfound', hskip, hskip']

theorem tokensFrom_of_solid {cs : List Char} (h : Solid cs) {s : Scanned} (hscan : scan cs = some s)
    (offset : Nat) :
    tokensFrom offset cs = joinNewline ⟨s.lexeme, ⟨offset, offset + byteLength s.text⟩⟩
      (tokensFrom (offset + byteLength s.text) s.rest) := by
  have hskip := h.skipBlanks_eq offset
  have hfound : scan (skipBlanks offset cs).2 = some s := by
    rw [hskip]
    exact hscan
  rw [tokensFrom_of_some hfound, hskip]

/-! ### Moving a text -/

/-- A token moved to the right. -/
def Token.shift (k : Nat) (t : Token) : Token :=
  ⟨t.lexeme, ⟨t.span.start + k, t.span.stop + k⟩⟩

theorem map_shift_joinNewline (k : Nat) (t : Token) (ts : List Token) :
    (joinNewline t ts).map (Token.shift k) = joinNewline (t.shift k) (ts.map (Token.shift k)) := by
  cases ts with
  | nil => rfl
  | cons next rest =>
    simp only [joinNewline, List.map_cons]
    by_cases hboth : t.lexeme = .newline ∧ next.lexeme = .newline
    · rw [if_pos hboth, if_pos (show (t.shift k).lexeme = .newline ∧
        (next.shift k).lexeme = .newline from hboth)]
      simp [Token.shift, Span.merge, Nat.add_min_add_right, Nat.add_max_add_right]
    · rw [if_neg hboth, if_neg (show ¬ ((t.shift k).lexeme = .newline ∧
        (next.shift k).lexeme = .newline) from hboth)]
      rfl

/-- The tokens of a text depend on its place only in their spans. -/
theorem tokensFrom_add (offset k : Nat) (cs : List Char) :
    tokensFrom (offset + k) cs = (tokensFrom offset cs).map (Token.shift k) := by
  obtain ⟨gap, after, rfl, hgap, hafter⟩ := exists_blank cs
  rw [hgap.tokensFrom_append hafter, hgap.tokensFrom_append hafter]
  by_cases hnil : after = []
  · subst hnil
    rw [(Blank.nil []).tokensFrom_eq_nil, (Blank.nil []).tokensFrom_eq_nil]
    rfl
  · obtain ⟨s, hscan⟩ := exists_scan hnil
    have hlt : s.rest.length < (gap ++ after).length := by
      have := length_rest_lt_of_scan hscan
      rw [List.length_append]
      omega
    have ih := tokensFrom_add (offset + byteLength gap + byteLength s.text) k s.rest
    rw [tokensFrom_of_solid hafter hscan, tokensFrom_of_solid hafter hscan, map_shift_joinNewline,
      ← ih]
    simp only [Token.shift, Nat.add_right_comm _ k]
termination_by cs.length

theorem le_start_of_mem {offset : Nat} {cs : List Char} {t : Token}
    (h : t ∈ tokensFrom offset cs) : offset ≤ t.span.start := by
  rw [← Nat.zero_add offset, tokensFrom_add, List.mem_map] at h
  obtain ⟨t', -, rfl⟩ := h
  exact Nat.le_add_left _ _

/-! ### Joined newlines -/

theorem joinNewline_of_ne {t : Token} (h : t.lexeme ≠ .newline) (ts : List Token) :
    joinNewline t ts = t :: ts := by
  cases ts with
  | nil => rfl
  | cons next rest => rw [joinNewline, if_neg fun hboth => h hboth.1]

theorem joinNewline_of_head {t : Token} {ts : List Token}
    (h : ∀ next rest, ts = next :: rest → next.lexeme ≠ .newline) : joinNewline t ts = t :: ts := by
  cases ts with
  | nil => rfl
  | cons next rest => rw [joinNewline, if_neg fun hboth => h next rest rfl hboth.2]

theorem joinNewline_newline {t next : Token} (ht : t.lexeme = .newline)
    (hnext : next.lexeme = .newline) (rest : List Token) :
    joinNewline t (next :: rest) = ⟨.newline, t.span.merge next.span⟩ :: rest := by
  rw [joinNewline, if_pos ⟨ht, hnext⟩]

theorem exists_joinNewline (t : Token) (ts : List Token) :
    ∃ span ts', joinNewline t ts = ⟨t.lexeme, span⟩ :: ts' := by
  cases ts with
  | nil => exact ⟨t.span, [], rfl⟩
  | cons next rest =>
    by_cases h : t.lexeme = .newline ∧ next.lexeme = .newline
    · rw [joinNewline_newline h.1 h.2, h.1]
      exact ⟨_, _, rfl⟩
    · rw [joinNewline, if_neg h]
      exact ⟨t.span, _, rfl⟩

/-- No two newlines stand next to each other. -/
def NewlinesApart (tokens : List Token) : Prop :=
  ∀ before t t' after, tokens = before ++ t :: t' :: after →
    t.lexeme = .newline → t'.lexeme ≠ .newline

theorem NewlinesApart.joinNewline {ts : List Token} (h : NewlinesApart ts) (t : Token) :
    NewlinesApart (joinNewline t ts) := by
  intro before t₁ t₂ after heq
  cases ts with
  | nil =>
    have hlength := congrArg List.length heq
    simp only [Kestrel.joinNewline, List.length_append, List.length_cons,
      List.length_nil] at hlength
    omega
  | cons next rest =>
    by_cases hboth : t.lexeme = .newline ∧ next.lexeme = .newline
    · rw [joinNewline_newline hboth.1 hboth.2] at heq
      cases before with
      | nil =>
        obtain ⟨-, rfl⟩ := List.cons.inj heq
        exact fun _ => h [] next t₂ after rfl hboth.2
      | cons b before =>
        obtain ⟨-, rfl⟩ := List.cons.inj heq
        exact h (next :: before) t₁ t₂ after rfl
    · rw [Kestrel.joinNewline, if_neg hboth] at heq
      cases before with
      | nil =>
        cases heq
        exact fun ht hnext => hboth ⟨ht, hnext⟩
      | cons b before =>
        obtain ⟨-, hrest⟩ := List.cons.inj heq
        exact h before t₁ t₂ after hrest

theorem newlinesApart_tokensFrom (offset : Nat) (cs : List Char) :
    NewlinesApart (tokensFrom offset cs) := by
  fun_induction tokensFrom offset cs with
  | case1 =>
    intro before t t' after heq
    simp at heq
  | case2 offset cs s _ _ start stop ih => exact ih.joinNewline _

theorem tokensFrom_newline (offset : Nat) (cs : List Char) :
    tokensFrom offset ('\n' :: cs) =
      joinNewline ⟨.newline, ⟨offset, offset + 1⟩⟩ (tokensFrom (offset + 1) cs) :=
  tokensFrom_of_solid (solid_newline cs) (scan_newline cs) offset

/-- The text goes on with a newline, perhaps behind blanks. -/
def NewlineAhead (cs : List Char) : Prop :=
  ∃ gap rest, cs = gap ++ '\n' :: rest ∧ Blank gap ('\n' :: rest)

theorem newlineAhead_of_tokensFrom {offset : Nat} {cs : List Char} {t : Token} {ts : List Token}
    (h : tokensFrom offset cs = t :: ts) (ht : t.lexeme = .newline) : NewlineAhead cs := by
  obtain ⟨gap, after, rfl, hgap, hafter⟩ := exists_blank cs
  rw [hgap.tokensFrom_append hafter] at h
  by_cases hnil : after = []
  · subst hnil
    rw [(Blank.nil []).tokensFrom_eq_nil] at h
    cases h
  · obtain ⟨s, hscan⟩ := exists_scan hnil
    rw [tokensFrom_of_solid hafter hscan] at h
    obtain ⟨span, ts', heq⟩ := exists_joinNewline ⟨s.lexeme, ⟨offset + byteLength gap,
      offset + byteLength gap + byteLength s.text⟩⟩
      (tokensFrom (offset + byteLength gap + byteLength s.text) s.rest)
    rw [heq] at h
    obtain ⟨rfl, -⟩ := List.cons.inj h
    have htext := text_of_scan_newline hscan ht
    have happend := scan_text_append_rest hscan
    rw [htext] at happend
    subst happend
    exact ⟨gap, s.rest, rfl, hgap⟩

theorem NewlineAhead.append {cs : List Char} (h : NewlineAhead cs) (more : List Char) :
    NewlineAhead (cs ++ more) := by
  obtain ⟨gap, rest, rfl, hgap⟩ := h
  exact ⟨gap, rest ++ more, by simp, hgap.newline_congr _⟩

/-! ### Single tokens -/

/-- A text is one token by itself. -/
def IsToken (lexeme : Lexeme) (text : List Char) : Prop :=
  tokensFrom 0 text = [⟨lexeme, ⟨0, byteLength text⟩⟩]

/-- A token in front of some text: by itself it is the same token, no longer text is a token, and
it starts no comment. A newline goes from one newline character to another one. -/
structure Munched (lexeme : Lexeme) (text rest : List Char) : Prop where
  text_ne_nil : text ≠ []
  alone : IsToken lexeme text
  longest : ∀ more rest', rest = more ++ rest' → more ≠ [] → ∀ other, ¬ IsToken other (text ++ more)
  slash : lexeme = .symbol .slash → ∀ rest', rest ≠ '/' :: rest'
  newline : lexeme = .newline → text.head? = some '\n' ∧ text.getLast? = some '\n'

theorem IsToken.tokensFrom {lexeme : Lexeme} {text : List Char} (h : IsToken lexeme text)
    (offset : Nat) : tokensFrom offset text = [⟨lexeme, ⟨offset, offset + byteLength text⟩⟩] := by
  rw [← Nat.zero_add offset, tokensFrom_add, h]
  simp [Token.shift, Nat.add_comm]

theorem IsToken.of_tokensFrom {lexeme : Lexeme} {text : List Char} (offset : Nat)
    (h : Kestrel.tokensFrom offset text = [⟨lexeme, ⟨offset, offset + byteLength text⟩⟩]) :
    IsToken lexeme text := by
  rw [← Nat.zero_add offset, tokensFrom_add] at h
  obtain ⟨⟨_, ⟨start, stop⟩⟩, htokens, hshift⟩ := List.map_eq_singleton_iff.1 h
  simp only [Token.shift, Token.mk.injEq, Span.mk.injEq] at hshift
  obtain ⟨rfl, hstart, hstop⟩ := hshift
  obtain rfl : start = 0 := by omega
  obtain rfl : stop = byteLength text := by omega
  exact htokens

theorem munched_of_scan {cs : List Char} (hsolid : Solid cs) {s : Scanned}
    (hscan : scan cs = some s) (hne : s.lexeme ≠ .newline) : Munched s.lexeme s.text s.rest := by
  have happend := scan_text_append_rest hscan
  -- wherever the text behind it is cut off, the lexeme is the first token of what is left
  have hcut : ∀ more rest, s.rest = more ++ rest → tokensFrom 0 (s.text ++ more) =
      ⟨s.lexeme, ⟨0, byteLength s.text⟩⟩ :: tokensFrom (byteLength s.text) more := by
    intro more rest hrest
    have hsolid' : Solid (s.text ++ more) := by
      rw [← happend, hrest, ← List.append_assoc] at hsolid
      exact hsolid.of_append
    rw [tokensFrom_of_solid hsolid' (scan_cut hscan hrest), joinNewline_of_ne hne, Nat.zero_add]
  constructor
  · intro hnil
    have hlt := length_rest_lt_of_scan hscan
    rw [hnil, List.nil_append] at happend
    rw [happend] at hlt
    exact Nat.lt_irrefl _ hlt
  · have h := hcut [] s.rest rfl
    rwa [List.append_nil, (Blank.nil []).tokensFrom_eq_nil] at h
  · intro more rest hrest hmore other hother
    have hpos := byteLength_pos hmore
    rw [IsToken, hcut more rest hrest, byteLength_append] at hother
    obtain ⟨hfirst, -⟩ := List.cons.inj hother
    have hstop : byteLength s.text = byteLength s.text + byteLength more :=
      congrArg (fun t => t.span.stop) hfirst
    omega
  · intro hslash rest hrest
    rw [text_of_scan_slash hscan hslash, hrest] at happend
    exact hsolid.not_comment rest happend.symm
  · intro hnewline
    exact absurd hnewline hne

/-- A newline that is followed by no other one is munched. -/
theorem munched_newline {rest : List Char} (h : ¬ NewlineAhead rest) :
    Munched .newline ['\n'] rest := by
  constructor
  · exact List.cons_ne_nil _ _
  · rw [IsToken, tokensFrom_newline, (Blank.nil []).tokensFrom_eq_nil]
    rfl
  · rintro more rest' rfl hmore other hother
    have hpos := byteLength_pos hmore
    have hahead : ¬ NewlineAhead more := fun hmore => h (hmore.append rest')
    have hjoin : tokensFrom 0 ('\n' :: more) = ⟨.newline, ⟨0, 1⟩⟩ :: tokensFrom 1 more := by
      rw [tokensFrom_newline, joinNewline_of_head]
      intro next ts hts hnext
      exact hahead (newlineAhead_of_tokensFrom hts hnext)
    rw [IsToken, List.singleton_append, hjoin, byteLength_cons] at hother
    obtain ⟨hfirst, -⟩ := List.cons.inj hother
    have hstop : 1 = '\n'.utf8Size + byteLength more := congrArg (fun t => t.span.stop) hfirst
    have hsize : '\n'.utf8Size = 1 := rfl
    omega
  · exact nofun
  · exact fun _ => ⟨rfl, rfl⟩

theorem start_of_solid {offset : Nat} {cs : List Char} (h : Solid cs) {t : Token} {ts : List Token}
    (htokens : tokensFrom offset cs = t :: ts) : t.span.start = offset := by
  by_cases hnil : cs = []
  · subst hnil
    rw [(Blank.nil []).tokensFrom_eq_nil] at htokens
    cases htokens
  · obtain ⟨s, hscan⟩ := exists_scan hnil
    rw [tokensFrom_of_solid h hscan] at htokens
    cases hrest : tokensFrom (offset + byteLength s.text) s.rest with
    | nil =>
      rw [hrest] at htokens
      cases htokens
      rfl
    | cons next rest =>
      have hle := le_start_of_mem (hrest ▸ List.mem_cons_self)
      rw [hrest, joinNewline] at htokens
      split at htokens
      · cases htokens
        show min offset next.span.start = offset
        omega
      · cases htokens
        rfl

/-- A newline is joined with a munched one behind it. -/
theorem munched_join {gap text rest : List Char} (hgap : Blank gap (text ++ rest))
    (h : Munched .newline text rest) : Munched .newline ('\n' :: (gap ++ text)) rest := by
  obtain ⟨u, rfl⟩ : ∃ u, text = '\n' :: u := by
    cases text with
    | nil => exact absurd rfl h.text_ne_nil
    | cons c u =>
      have hhead := (h.newline rfl).1
      rw [List.head?_cons, Option.some.injEq] at hhead
      exact ⟨u, by rw [hhead]⟩
  have hsize : '\n'.utf8Size = 1 := rfl
  have htokens : ∀ more, tokensFrom 0 ('\n' :: (gap ++ ('\n' :: u) ++ more)) =
      joinNewline ⟨.newline, ⟨0, 1⟩⟩ (tokensFrom (1 + byteLength gap) ('\n' :: (u ++ more))) := by
    intro more
    rw [tokensFrom_newline, List.append_assoc, List.cons_append,
      (hgap.newline_congr (u ++ more)).tokensFrom_append (solid_newline _), Nat.zero_add]
  constructor
  · exact List.cons_ne_nil _ _
  · have htext := htokens []
    rw [List.append_nil, List.append_nil, h.alone.tokensFrom, joinNewline_newline rfl rfl] at htext
    rw [IsToken, htext]
    simp only [Span.merge, byteLength_cons, byteLength_append, hsize, List.cons.injEq,
      Token.mk.injEq, Span.mk.injEq, true_and, and_true]
    omega
  · -- one token that goes on further would end with a newline that goes on further
    intro more rest' hrest hmore other hother
    refine h.longest more rest' hrest hmore .newline (IsToken.of_tokensFrom (1 + byteLength gap) ?_)
    rw [IsToken, List.cons_append, htokens] at hother
    obtain ⟨span, ts, hts⟩ : ∃ span ts, tokensFrom (1 + byteLength gap) ('\n' :: (u ++ more)) =
        ⟨.newline, span⟩ :: ts := by
      rw [tokensFrom_newline]
      exact exists_joinNewline _ _
    have hstart : span.start = 1 + byteLength gap := start_of_solid (solid_newline _) hts
    rw [hts, joinNewline_newline rfl rfl, List.cons.injEq, Token.mk.injEq] at hother
    obtain ⟨⟨-, hspan⟩, rfl⟩ := hother
    have hstop : max 1 span.stop = _ := congrArg Span.stop hspan
    have hmorePos := byteLength_pos hmore
    simp only [byteLength_append, byteLength_cons, hsize] at hstop
    have hlength : byteLength ('\n' :: u ++ more) = 1 + byteLength u + byteLength more := by
      rw [byteLength_append, byteLength_cons, hsize]
    obtain ⟨start, stop⟩ := span
    dsimp only at hstart hstop
    rw [List.cons_append, hts, ← List.cons_append, hlength, hstart]
    simp only [List.cons.injEq, Token.mk.injEq, Span.mk.injEq, true_and, and_true]
    omega
  · exact nofun
  · refine fun _ => ⟨rfl, ?_⟩
    rw [← List.cons_append, List.getLast?_append, (h.newline rfl).2]
    rfl

/-- The first token of a solid text is munched, and the others are those of the text behind it. -/
theorem exists_munched {cs : List Char} (hsolid : Solid cs) (hne : cs ≠ []) (offset : Nat) :
    ∃ text rest lexeme, cs = text ++ rest ∧ Munched lexeme text rest ∧
      tokensFrom offset cs = ⟨lexeme, ⟨offset, offset + byteLength text⟩⟩ ::
        tokensFrom (offset + byteLength text) rest := by
  obtain ⟨s, hscan⟩ := exists_scan hne
  have happend := scan_text_append_rest hscan
  have htokens := tokensFrom_of_solid hsolid hscan offset
  by_cases hnewline : s.lexeme = .newline
  · have htext := text_of_scan_newline hscan hnewline
    rw [htext] at happend htokens
    rw [hnewline] at htokens
    have hone : byteLength ['\n'] = 1 := rfl
    by_cases hahead : NewlineAhead s.rest
    · -- the newlines ahead are one token, which this one is joined with
      obtain ⟨gap, rest, hrest, hgap⟩ := hahead
      have hlt : ('\n' :: rest).length < cs.length := by
        rw [← happend, hrest]
        simp only [List.length_append, List.length_cons]
        omega
      obtain ⟨text', rest', lexeme, hcs, hmunched, htokens'⟩ :=
        exists_munched (solid_newline rest) (List.cons_ne_nil _ _)
          (offset + 1 + byteLength gap)
      have hlexeme : lexeme = .newline := by
        rw [tokensFrom_newline] at htokens'
        obtain ⟨span, ts, heq⟩ := exists_joinNewline ⟨.newline, ⟨offset + 1 + byteLength gap,
          offset + 1 + byteLength gap + 1⟩⟩ (tokensFrom (offset + 1 + byteLength gap + 1) rest)
        rw [heq] at htokens'
        exact (congrArg Token.lexeme (List.cons.inj htokens').1).symm
      subst hlexeme
      refine ⟨'\n' :: (gap ++ text'), rest', .newline, ?_, munched_join (hcs ▸ hgap) hmunched, ?_⟩
      · rw [← happend, hrest, hcs]
        simp
      · rw [htokens, hrest, hone, hgap.tokensFrom_append (solid_newline rest), htokens',
          joinNewline_newline rfl rfl]
        have hsize : '\n'.utf8Size = 1 := rfl
        have hstop : offset + 1 + byteLength gap + byteLength text' =
            offset + byteLength ('\n' :: (gap ++ text')) := by
          rw [byteLength_cons, byteLength_append, hsize]
          omega
        rw [← hstop]
        simp only [Span.merge, List.cons.injEq, Token.mk.injEq, Span.mk.injEq, true_and, and_true]
        omega
    · refine ⟨['\n'], s.rest, .newline, happend.symm, munched_newline hahead, ?_⟩
      rw [htokens, joinNewline_of_head]
      intro next ts hts hnext
      exact hahead (newlineAhead_of_tokensFrom hts hnext)
  · refine ⟨s.text, s.rest, s.lexeme, happend.symm, munched_of_scan hsolid hscan hnewline, ?_⟩
    rw [htokens, joinNewline_of_ne hnewline]
termination_by cs.length

/-! ### Whole texts -/

/-- A text that is one token has no blanks in front. -/
theorem IsToken.solid {lexeme : Lexeme} {text : List Char} (h : IsToken lexeme text) :
    Solid text := by
  obtain ⟨gap, after, rfl, hgap, hafter⟩ := exists_blank text
  rw [IsToken, hgap.tokensFrom_append hafter] at h
  have hle : 0 + byteLength gap ≤ 0 := le_start_of_mem (h ▸ List.mem_cons_self)
  by_cases hnil : gap = []
  · rwa [hnil]
  · have hpos := byteLength_pos hnil
    omega

/-- No blanks and no comment start where a munched token does. -/
theorem Munched.solid {lexeme : Lexeme} {text rest : List Char} (h : Munched lexeme text rest) :
    Solid (text ++ rest) := by
  obtain ⟨c, u, rfl⟩ := List.exists_cons_of_ne_nil h.text_ne_nil
  constructor
  · rintro c' rest' ⟨⟩
    exact h.alone.solid.not_blank c u rfl
  · intro rest' heq
    obtain ⟨rfl, htail⟩ := List.cons.inj heq
    cases u with
    | nil =>
      have hscan : scan ['/'] = some ⟨.symbol .slash, ['/'], []⟩ := rfl
      have hslash : IsToken (.symbol .slash) ['/'] := by
        rw [IsToken, tokensFrom_of_solid h.alone.solid hscan, (Blank.nil []).tokensFrom_eq_nil]
        rfl
      have hlexeme := h.alone.symm.trans hslash
      simp only [List.cons.injEq, Token.mk.injEq, and_true] at hlexeme
      exact h.slash hlexeme rest' htail
    | cons d u =>
      obtain ⟨rfl, -⟩ := List.cons.inj htail
      exact h.alone.solid.not_comment u rfl

theorem Munched.not_shorter {lexeme lexeme' : Lexeme} {text more rest : List Char}
    (h : Munched lexeme text (more ++ rest)) (h' : Munched lexeme' (text ++ more) rest) :
    more = [] := by
  by_cases hmore : more = []
  · exact hmore
  · exact absurd h'.alone (h.longest more rest rfl hmore lexeme')

/-- Only one token is munched off the front of a text. -/
theorem Munched.unique {lexeme lexeme' : Lexeme} {text text' rest rest' : List Char}
    (h : Munched lexeme text rest) (h' : Munched lexeme' text' rest')
    (heq : text ++ rest = text' ++ rest') : lexeme = lexeme' ∧ text = text' ∧ rest = rest' := by
  obtain ⟨rfl, rfl⟩ : text = text' ∧ rest = rest' := by
    rcases List.append_eq_append_iff.1 heq with ⟨more, rfl, rfl⟩ | ⟨more, rfl, rfl⟩
    · obtain rfl := h.not_shorter h'
      exact ⟨(List.append_nil _).symm, rfl⟩
    · obtain rfl := h'.not_shorter h
      exact ⟨List.append_nil _, rfl⟩
  have halone := h.alone.symm.trans h'.alone
  simp only [List.cons.injEq, Token.mk.injEq, and_true] at halone
  exact ⟨halone, rfl, rfl⟩

/-- Tokens of a text at `offset` that leave out nothing but blanks, each of them munched. -/
inductive Lossless : (offset : Nat) → List Char → List Token → Prop
  | nil {offset : Nat} {gap : List Char} (hgap : Blank gap []) : Lossless offset gap []
  | cons {offset : Nat} {gap text rest : List Char} {lexeme : Lexeme} {ts : List Token}
      (hgap : Blank gap (text ++ rest)) (htoken : Munched lexeme text rest)
      (h : Lossless (offset + byteLength gap + byteLength text) rest ts) :
      Lossless offset (gap ++ (text ++ rest))
        (⟨lexeme, ⟨offset + byteLength gap, offset + byteLength gap + byteLength text⟩⟩ :: ts)

/-- The tokens of a text are lossless. -/
theorem lossless_tokensFrom (offset : Nat) (cs : List Char) :
    Lossless offset cs (tokensFrom offset cs) := by
  obtain ⟨gap, after, rfl, hgap, hafter⟩ := exists_blank cs
  by_cases hnil : after = []
  · subst hnil
    rw [List.append_nil, hgap.tokensFrom_eq_nil]
    exact .nil hgap
  · obtain ⟨text, rest, lexeme, rfl, htoken, htokens⟩ :=
      exists_munched hafter hnil (offset + byteLength gap)
    have hlt : rest.length < (gap ++ (text ++ rest)).length := by
      have := List.length_pos_iff.2 htoken.text_ne_nil
      simp only [List.length_append]
      omega
    rw [hgap.tokensFrom_append hafter, htokens]
    exact .cons hgap htoken (lossless_tokensFrom _ rest)
termination_by cs.length

/-- No other tokens are lossless. -/
theorem Lossless.eq_tokensFrom {offset : Nat} {cs : List Char} {tokens : List Token}
    (h : Lossless offset cs tokens) : tokens = tokensFrom offset cs := by
  induction h with
  | nil hgap => exact (hgap.tokensFrom_eq_nil _).symm
  | @cons offset gap text rest lexeme ts hgap htoken _ ih =>
    have hne : text ++ rest ≠ [] := List.append_ne_nil_of_left_ne_nil htoken.text_ne_nil rest
    obtain ⟨text', rest', lexeme', heq, htoken', htokens⟩ :=
      exists_munched htoken.solid hne (offset + byteLength gap)
    obtain ⟨rfl, rfl, rfl⟩ := htoken.unique htoken' heq
    rw [hgap.tokensFrom_append htoken.solid, htokens, ih]

end Kestrel
