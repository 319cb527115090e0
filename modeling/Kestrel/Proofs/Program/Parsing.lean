import Kestrel.Proofs.Program.Statements

/-!
# Programs are read by their grammar

Some tokens are accepted if and only if their lexemes derive a program, and what is read is this
program.

## Main statements

- `Program.derives_of_ofTokens`, `Program.ofTokens_of_derives` — both directions
- `Program.ofTokens_iff_derives` — the parser and the grammar agree on all lists of tokens
-/

namespace Kestrel

/-! ### Characters without use -/

/-- The lexeme is no character that the language has no use for. -/
def Lexeme.IsKnown (u : Lexeme) : Prop := ∀ char, u ≠ .unknown char

theorem Lexeme.isKnown_of_expression {u : Lexeme} (h : u.isOfExpression = true) : u.IsKnown := by
  rintro char rfl
  cases h

theorem Expr.Derives.isKnown {n : Nat} {r : Rank} {us : List Lexeme} {e : Expr}
    (h : Expr.Derives n r us e) : ∀ u ∈ us, u.IsKnown :=
  fun u hu => Lexeme.isKnown_of_expression (h.isOfExpression u hu)

theorem Lexeme.isKnown_of_separator {u : Lexeme} (h : u.isSeparator = true) : u.IsKnown := by
  rintro char rfl
  cases h

mutual

/-- The grammar has no place for characters without use. -/
theorem Stmt.Derives.isKnown {n : Nat} {us : List Lexeme} {s : Stmt} (h : Stmt.Derives n us s) :
    ∀ u ∈ us, u.IsKnown := by
  match h with
  | .expression he => exact he.isKnown
  | .assign name op he =>
    simp only [List.forall_mem_cons]
    exact ⟨nofun, by cases op <;> exact nofun, he.isKnown⟩
  | .print he =>
    simp only [List.forall_mem_cons, List.forall_mem_append]
    exact ⟨nofun, nofun, he.isKnown, nofun, nofun⟩
  | .conditional hif =>
    simp only [List.forall_mem_cons]
    exact ⟨nofun, hif.isKnown⟩
  | .whileDo hc hbody =>
    simp only [List.forall_mem_cons, List.forall_mem_append]
    exact ⟨nofun, hc.isKnown, hbody.isKnown⟩
  | .breakLoop | .continueLoop =>
    simp only [List.forall_mem_cons]
    exact ⟨nofun, nofun⟩
termination_by structural h

theorem Stmt.DerivesIf.isKnown {n : Nat} {us : List Lexeme} {s : Stmt}
    (h : Stmt.DerivesIf n us s) : ∀ u ∈ us, u.IsKnown := by
  match h with
  | .ifThen hc hbody =>
    simp only [List.forall_mem_append]
    exact ⟨hc.isKnown, hbody.isKnown⟩
  | .ifElse k hc hbody helse =>
    simp only [List.forall_mem_append, List.forall_mem_cons]
    refine ⟨hc.isKnown, hbody.isKnown, ?_, nofun, helse.isKnown⟩
    intro u hu
    rw [List.eq_of_mem_replicate hu]
    exact nofun
termination_by structural h

theorem Stmt.DerivesElse.isKnown {n : Nat} {us : List Lexeme} {ss : List Stmt}
    (h : Stmt.DerivesElse n us ss) : ∀ u ∈ us, u.IsKnown := by
  match h with
  | .elseIf hif =>
    simp only [List.forall_mem_cons]
    exact ⟨nofun, hif.isKnown⟩
  | .block hblock => exact hblock.isKnown
termination_by structural h

theorem Stmt.DerivesBlock.isKnown {n : Nat} {us : List Lexeme} {ss : List Stmt}
    (h : Stmt.DerivesBlock n us ss) : ∀ u ∈ us, u.IsKnown := by
  match h with
  | .braces hall =>
    simp only [List.forall_mem_cons, List.forall_mem_append]
    exact ⟨nofun, hall.isKnown, nofun, nofun⟩
termination_by structural h

theorem Stmt.DerivesAll.isKnown {n : Nat} {us : List Lexeme} {ss : List Stmt}
    (h : Stmt.DerivesAll n us ss) : ∀ u ∈ us, u.IsKnown := by
  match h with
  | .nil => exact nofun
  | .skip hsep hall =>
    simp only [List.forall_mem_cons]
    exact ⟨Lexeme.isKnown_of_separator hsep, hall.isKnown⟩
  | .last hs => exact hs.isKnown
  | .cons hs hsep hall =>
    simp only [List.forall_mem_append, List.forall_mem_cons]
    exact ⟨hs.isKnown, Lexeme.isKnown_of_separator hsep, hall.isKnown⟩
termination_by structural h

end

/-! ### Whole programs -/

/-- What is read is written by the tokens. -/
theorem Program.written_of_ofTokens {ts : List Token} {program : Program}
    (h : Program.ofTokens ts = .ok program) : Stmt.WrittenAll maxDepth ts program := by
  unfold Program.ofTokens at h
  simp only at h
  split at h
  · next program' hrun =>
    cases h
    obtain ⟨seps, hseps, hallSeps⟩ := exists_separators ts
    obtain ⟨ss, rfl, hall⟩ := written_of_statementsFrom (Stmt.sound maxDepth).1 hrun
    rw [hseps]
    exact hall.of_separators hallSeps
  · cases h

/-- What tokens write is read. -/
theorem Program.ofTokens_of_written {ts : List Token} {program : Program}
    (h : Stmt.WrittenAll maxDepth ts program) : Program.ofTokens ts = .ok program := by
  simp only [Program.ofTokens, h.read_program []]
  rfl

/-- What is read is derived. -/
theorem Program.derives_of_ofTokens {ts : List Token} {program : Program}
    (h : Program.ofTokens ts = .ok program) : Program.Derives (lexemes ts) program.bare :=
  (Program.written_of_ofTokens h).derives

/-- What the grammar derives is read. -/
theorem Program.ofTokens_of_derives {ts : List Token} {program : Program}
    (h : Program.Derives (lexemes ts) program) :
    ∃ read, Program.ofTokens ts = .ok read ∧ Program.bare read = program := by
  obtain ⟨read, hread, hwritten⟩ := h.exists_written rfl
  exact ⟨read, Program.ofTokens_of_written hwritten, hread⟩

/-- The parser accepts the tokens that the grammar derives and reads the program that they derive.
There is only one, and no accepted token is a character without use. -/
theorem Program.ofTokens_iff_derives (ts : List Token) :
    (∀ program : Program,
      (∃ read, Program.ofTokens ts = .ok read ∧ Program.bare read = program.bare) ↔
        Program.Derives (lexemes ts) program.bare) ∧
    (∀ program program' : Program, Program.Derives (lexemes ts) program →
      Program.Derives (lexemes ts) program' → program = program') ∧
    (∀ read, Program.ofTokens ts = .ok read → ∀ t ∈ ts, ∀ char, t.lexeme ≠ .unknown char) := by
  refine ⟨fun program => ⟨?_, Program.ofTokens_of_derives⟩, ?_, ?_⟩
  · rintro ⟨read, hread, hbare⟩
    rw [← hbare]
    exact Program.derives_of_ofTokens hread
  · intro program program' h h'
    obtain ⟨read, hread, rfl⟩ := Program.ofTokens_of_derives h
    obtain ⟨read', hread', rfl⟩ := Program.ofTokens_of_derives h'
    rw [hread] at hread'
    cases hread'
    rfl
  · intro read hread t ht
    exact (Program.derives_of_ofTokens hread).isKnown t.lexeme (List.mem_map_of_mem ht)

end Kestrel
