import Kestrel.Proofs.Program.Summaries

/-!
# Summaries are unambiguous

The lexemes of a summary tell what it shows, and they tell it as far as they have been read: where
a summary ends is known without looking at what follows it, but for an `else`. So two programs
with the same summaries show the same. They are the same, up to spans and to infinite numbers, which
are written like the name `inf`.

## Main statements

- `Expr.printed_append_inj`, `Stmt.printed_append_inj` — summaries end where they have to
- `Program.summaries_eq_iff` — the same summaries show the same programs
- `not_summaries_injective` — an infinite number and the name `inf` have the same summary
-/

namespace Kestrel

/-! ### Expressions -/

theorem UnaryOp.lexeme_injective {op op' : UnaryOp} (h : op.lexeme = op'.lexeme) : op = op' := by
  cases op <;> cases op' <;> first | rfl | cases h

theorem AssignOp.lexeme_injective {op op' : AssignOp} (h : op.lexeme = op'.lexeme) : op = op' := by
  cases op <;> cases op' <;> first | rfl | cases h

theorem inParens_append (us more : List Lexeme) :
    inParens us ++ more = .symbol .leftParen :: (us ++ .symbol .rightParen :: more) := by
  simp [inParens]

/-- An operand does not start with a sign in front of one. -/
theorem Expr.printed_append_ne {e : Expr} {op : UnaryOp} {us vs : List Lexeme} :
    e.printed ++ us ≠ op.lexeme :: vs := by
  intro h
  cases e with
  | number | name => cases op <;> cases h
  | boolean value => cases op <;> cases value <;> cases h
  | unary | binary => cases op <;> cases h

/-- The summary of an expression ends where it has to, and tells the expression. -/
theorem Expr.printed_append_inj {e e' : Expr} {us us' : List Lexeme}
    (h : e.printed ++ us = e'.printed ++ us') : e.bare = e'.bare ∧ us = us' := by
  induction e generalizing e' us us' with
  | number value span =>
    cases e' with
    | number =>
      obtain ⟨⟨⟩, rfl⟩ := List.cons.inj h
      exact ⟨rfl, rfl⟩
    | _ => cases h
  | boolean value span =>
    cases e' with
    | boolean value' span' =>
      obtain ⟨hvalue, rfl⟩ := List.cons.inj h
      cases value <;> cases value' <;> first | exact ⟨rfl, rfl⟩ | cases hvalue
    | _ => cases h
  | name text span =>
    cases e' with
    | name =>
      obtain ⟨⟨⟩, rfl⟩ := List.cons.inj h
      exact ⟨rfl, rfl⟩
    | _ => cases h
  | unary op operand span ih =>
    cases e' with
    | unary op' operand' span' =>
      simp only [Expr.printed, inParens_append, List.cons_append, List.cons.injEq, true_and] at h
      obtain ⟨hop, h⟩ := h
      obtain ⟨hoperand, h⟩ := ih h
      obtain rfl := UnaryOp.lexeme_injective hop
      exact ⟨by rw [Expr.bare, Expr.bare, hoperand], (List.cons.inj h).2⟩
    | binary left' op' right' span' =>
      simp only [Expr.printed, inParens_append, List.cons_append, List.append_assoc,
        List.cons.injEq, true_and] at h
      exact absurd h.symm Expr.printed_append_ne
    | _ => cases h
  | binary left op right span ihl ihr =>
    cases e' with
    | unary op' operand' span' =>
      simp only [Expr.printed, inParens_append, List.cons_append, List.append_assoc,
        List.cons.injEq, true_and] at h
      exact absurd h Expr.printed_append_ne
    | binary left' op' right' span' =>
      simp only [Expr.printed, inParens_append, List.cons_append, List.append_assoc,
        List.cons.injEq, true_and] at h
      obtain ⟨hleft, h⟩ := ihl h
      obtain ⟨hop, hrest⟩ := List.cons.inj h
      obtain rfl := BinaryOp.lexeme_injective hop
      obtain ⟨hright, h⟩ := ihr hrest
      exact ⟨by rw [Expr.bare, Expr.bare, hleft, hright], (List.cons.inj h).2⟩
    | _ => cases h

theorem Expr.inParens_printed_append_inj {e e' : Expr} {us us' : List Lexeme}
    (h : inParens e.printed ++ us = inParens e'.printed ++ us') : e.bare = e'.bare ∧ us = us' := by
  rw [inParens_append, inParens_append] at h
  obtain ⟨he, h⟩ := Expr.printed_append_inj (List.cons.inj h).2
  exact ⟨he, (List.cons.inj h).2⟩

/-! ### Statements -/

/-- What follows does not go on with an `else`. -/
def NoElse (us : List Lexeme) : Prop := us.head? ≠ some (.keyword .elseKw)

theorem Stmt.exists_printed_cons (s : Stmt) : ∃ label us, s.printed = .name label :: us := by
  cases s <;> exact ⟨_, _, rfl⟩

/-- Where a block ends depends on its statements only. -/
theorem inBraces_append_inj {parts parts' : List (List Lexeme)} {us us' : List Lexeme}
    (h : inBraces parts ++ us = inBraces parts' ++ us') :
    List.intercalate [.symbol .semicolon] parts ++ .symbol .rightBrace :: us =
      List.intercalate [.symbol .semicolon] parts' ++ .symbol .rightBrace :: us' := by
  simpa [inBraces] using h

/-- The statements of a block are told by their lexemes up to the closing brace, and what follows is
not looked at. -/
def Stmt.ToldByBlock (ss : List Stmt) : Prop := ∀ ⦃ss' : List Stmt⦄ ⦃us us' : List Lexeme⦄,
  List.intercalate [.symbol .semicolon] (Stmt.allPrinted ss) ++ .symbol .rightBrace :: us =
    List.intercalate [.symbol .semicolon] (Stmt.allPrinted ss') ++ .symbol .rightBrace :: us' →
  Stmt.allBare ss = Stmt.allBare ss' ∧ us = us'

theorem Stmt.ToldByBlock.conditional {condition condition' : Expr} {body body' : List Stmt}
    {us us' : List Lexeme} (hbody : ToldByBlock body)
    (h : inParens condition.printed ++ (inBraces (Stmt.allPrinted body) ++ us) =
      inParens condition'.printed ++ (inBraces (Stmt.allPrinted body') ++ us')) :
    condition.bare = condition'.bare ∧ Stmt.allBare body = Stmt.allBare body' ∧ us = us' := by
  obtain ⟨hcondition, h⟩ := Expr.inParens_printed_append_inj h
  exact ⟨hcondition, hbody (inBraces_append_inj h)⟩

/-- What stands behind the first statement of a block: the other ones and the closing brace. -/
def behindFirst (parts : List (List Lexeme)) (more : List Lexeme) : List Lexeme :=
  match parts with
  | [] => .symbol .rightBrace :: more
  | _ :: _ => .symbol .semicolon ::
      (List.intercalate [.symbol .semicolon] parts ++ .symbol .rightBrace :: more)

theorem intercalate_cons_append (part : List Lexeme) (parts : List (List Lexeme))
    (more : List Lexeme) :
    List.intercalate [.symbol .semicolon] (part :: parts) ++ .symbol .rightBrace :: more =
      part ++ behindFirst parts more := by
  cases parts with
  | nil => rw [List.intercalate_singleton, behindFirst]
  | cons => simp [List.intercalate_cons_cons, behindFirst]

theorem noElse_behindFirst (parts : List (List Lexeme)) (more : List Lexeme) :
    NoElse (behindFirst parts more) := by
  cases parts <;> exact nofun

mutual

/-- The summary of a statement ends where it has to, if no `else` follows, and tells the
statement. -/
theorem Stmt.printed_append_inj {s s' : Stmt} {us us' : List Lexeme}
    (h : s.printed ++ us = s'.printed ++ us') (hus : NoElse us) (hus' : NoElse us') :
    s.bare = s'.bare ∧ us = us' := by
  match s with
  | .expression value _ =>
    cases s' with
    | expression value' =>
      obtain ⟨hvalue, h⟩ := Expr.inParens_printed_append_inj (List.cons.inj h).2
      exact ⟨by rw [Stmt.bare, Stmt.bare, hvalue], h⟩
    | _ => simp [Stmt.printed] at h
  | .assign name op value _ =>
    cases s' with
    | assign name' op' value' =>
      simp only [Stmt.printed, inParens_append, List.cons_append, List.cons.injEq, true_and,
        Lexeme.name.injEq] at h
      obtain ⟨rfl, hop, h⟩ := h
      obtain rfl := AssignOp.lexeme_injective hop
      obtain ⟨hvalue, h⟩ := Expr.printed_append_inj h
      exact ⟨by rw [Stmt.bare, Stmt.bare, hvalue], (List.cons.inj h).2⟩
    | _ => simp [Stmt.printed] at h
  | .print value _ =>
    cases s' with
    | print value' =>
      obtain ⟨hvalue, h⟩ := Expr.inParens_printed_append_inj (List.cons.inj h).2
      exact ⟨by rw [Stmt.bare, Stmt.bare, hvalue], h⟩
    | _ => simp [Stmt.printed] at h
  | .ifThen condition body _ =>
    cases s' with
    | ifThen condition' body' =>
      simp only [Stmt.printed, List.cons_append, List.append_assoc, List.cons.injEq, true_and] at h
      obtain ⟨hcondition, hbody, h⟩ := (Stmt.toldByBlock body).conditional h
      exact ⟨by rw [Stmt.bare, Stmt.bare, hcondition, hbody], h⟩
    | ifElse condition' body' otherwise' =>
      simp only [Stmt.printed, List.cons_append, List.append_assoc, List.cons.injEq, true_and] at h
      obtain ⟨-, -, rfl⟩ := (Stmt.toldByBlock body).conditional h
      exact absurd rfl hus
    | _ => simp [Stmt.printed] at h
  | .ifElse condition body otherwise _ =>
    cases s' with
    | ifThen condition' body' =>
      simp only [Stmt.printed, List.cons_append, List.append_assoc, List.cons.injEq, true_and] at h
      obtain ⟨-, -, rfl⟩ := (Stmt.toldByBlock body).conditional h
      exact absurd rfl hus'
    | ifElse condition' body' otherwise' =>
      simp only [Stmt.printed, List.cons_append, List.append_assoc, List.cons.injEq, true_and] at h
      obtain ⟨hcondition, hbody, h⟩ := (Stmt.toldByBlock body).conditional h
      obtain ⟨hotherwise, h⟩ := Stmt.toldByBlock otherwise (inBraces_append_inj (List.cons.inj h).2)
      exact ⟨by rw [Stmt.bare, Stmt.bare, hcondition, hbody, hotherwise], h⟩
    | _ => simp [Stmt.printed] at h
  | .whileDo condition body _ =>
    cases s' with
    | whileDo condition' body' =>
      simp only [Stmt.printed, List.cons_append, List.append_assoc, List.cons.injEq, true_and] at h
      obtain ⟨hcondition, hbody, h⟩ := (Stmt.toldByBlock body).conditional h
      exact ⟨by rw [Stmt.bare, Stmt.bare, hcondition, hbody], h⟩
    | _ => simp [Stmt.printed] at h
  | .breakLoop _ =>
    cases s' with
    | breakLoop => exact ⟨rfl, (List.cons.inj h).2⟩
    | _ => simp [Stmt.printed] at h
  | .continueLoop _ =>
    cases s' with
    | continueLoop => exact ⟨rfl, (List.cons.inj h).2⟩
    | _ => simp [Stmt.printed] at h
termination_by structural s

theorem Stmt.toldByBlock (ss : List Stmt) : Stmt.ToldByBlock ss := by
  intro ss' us us' h
  match ss, ss' with
  | [], [] => exact ⟨rfl, (List.cons.inj h).2⟩
  | [], s' :: ss' =>
    obtain ⟨label, rest, hs'⟩ := s'.exists_printed_cons
    rw [Stmt.allPrinted, Stmt.allPrinted, intercalate_cons_append, hs'] at h
    cases h
  | s :: ss, [] =>
    obtain ⟨label, rest, hs⟩ := s.exists_printed_cons
    rw [Stmt.allPrinted, Stmt.allPrinted, intercalate_cons_append, hs] at h
    cases h
  | s :: ss, s' :: ss' =>
    rw [Stmt.allPrinted, Stmt.allPrinted, intercalate_cons_append, intercalate_cons_append] at h
    obtain ⟨hs, h⟩ :=
      Stmt.printed_append_inj h (noElse_behindFirst _ _) (noElse_behindFirst _ _)
    match ss, ss' with
    | [], [] => exact ⟨congrArg (· :: []) hs, (List.cons.inj h).2⟩
    | [], _ :: _ | _ :: _, [] => cases h
    | t :: ss, t' :: ss' =>
      obtain ⟨hss, h⟩ := Stmt.toldByBlock (t :: ss) (List.cons.inj h).2
      exact ⟨congrArg₂ List.cons hs hss, h⟩
termination_by structural ss

end

/-! ### Programs -/

/-- What is shown without spans has the same summary. -/
theorem Expr.summary_bare_shown {e : Expr} (h : (Node.expr e).IsPrintable) :
    e.shown.bare.summary = e.summary := by
  induction e with
  | number value span =>
    obtain ⟨text, htext⟩ := (h _ (List.mem_singleton_self _)).exists_numeral
    rcases Number.text_of_numeral htext with ⟨hinf, -⟩ | ⟨hinf, hinfinity⟩
    · rw [Expr.shown, hinf]
      rfl
    · rw [Expr.shown, hinf]
      exact hinfinity.symm
  | boolean | name => rfl
  | unary op operand span ih =>
    have hoperand := ih (h.child List.mem_cons_self)
    cases op <;> simp only [Expr.shown, Expr.bare, Expr.summary, hoperand]
  | binary left op right span ihl ihr =>
    have hleft := ihl (h.child List.mem_cons_self)
    have hright := ihr (h.child (List.mem_cons_of_mem _ List.mem_cons_self))
    simp only [Expr.shown, Expr.bare, Expr.summary, hleft, hright]

mutual

theorem Stmt.summary_bare_shown {s : Stmt} (h : (Node.stmt s).IsPrintable) :
    s.shown.bare.summary = s.summary := by
  match s with
  | .expression value _ =>
    have hvalue := Expr.summary_bare_shown (h.child List.mem_cons_self)
    exact congrArg (fun text => "Expression(" ++ text ++ ")") hvalue
  | .assign name op value _ =>
    have hvalue := Expr.summary_bare_shown (h.child List.mem_cons_self)
    exact congrArg (fun text => "Assignment(" ++ name ++ " " ++ op.sign ++ " " ++ text ++ ")")
      hvalue
  | .print value _ =>
    have hvalue := Expr.summary_bare_shown (h.child List.mem_cons_self)
    exact congrArg (fun text => "Print(" ++ text ++ ")") hvalue
  | .ifThen condition body _ =>
    have hcondition := Expr.summary_bare_shown (h.child List.mem_cons_self)
    have hbody := Stmt.summaries_bare_shown fun s hs => h.child (Node.mem_children_of_body hs)
    exact congrArg₂ (fun text items => "If(" ++ text ++ ") " ++ blockSummary items)
      hcondition hbody
  | .ifElse condition body otherwise _ =>
    have hcondition := Expr.summary_bare_shown (h.child List.mem_cons_self)
    have hbody := Stmt.summaries_bare_shown fun s hs => h.child (Node.mem_children_of_thenBody hs)
    have hotherwise := Stmt.summaries_bare_shown fun s hs =>
      h.child (Node.mem_children_of_elseBody hs)
    show "If(" ++ condition.shown.bare.summary ++ ") " ++
      blockSummary (Stmt.summaries (Stmt.allBare (Stmt.allShown body))) ++ " else " ++
      blockSummary (Stmt.summaries (Stmt.allBare (Stmt.allShown otherwise))) = _
    rw [hcondition, hbody, hotherwise]
    rfl
  | .whileDo condition body _ =>
    have hcondition := Expr.summary_bare_shown (h.child List.mem_cons_self)
    have hbody := Stmt.summaries_bare_shown fun s hs => h.child (Node.mem_children_of_body hs)
    exact congrArg₂ (fun text items => "While(" ++ text ++ ") " ++ blockSummary items)
      hcondition hbody
  | .breakLoop _ | .continueLoop _ => rfl
termination_by structural s

theorem Stmt.summaries_bare_shown {ss : List Stmt} (h : ∀ s ∈ ss, (Node.stmt s).IsPrintable) :
    Stmt.summaries (Stmt.allBare (Stmt.allShown ss)) = Stmt.summaries ss := by
  match ss with
  | [] => rfl
  | s :: ss =>
    obtain ⟨hs, hss⟩ := List.forall_mem_cons.1 h
    exact congrArg₂ List.cons (Stmt.summary_bare_shown hs) (Stmt.summaries_bare_shown hss)
termination_by structural ss

end

/-- Statements that can be printed have the same summary if and only if they show the same, spans
aside. -/
theorem Stmt.summary_eq_iff {s s' : Stmt} (h : (Node.stmt s).IsPrintable)
    (h' : (Node.stmt s').IsPrintable) : s.summary = s'.summary ↔ s.shown.bare = s'.shown.bare := by
  constructor
  · intro hsummary
    have hprinted : s.shown.printed = s'.shown.printed := by
      rw [← (Stmt.prints h).lexemesOf_eq, ← (Stmt.prints h').lexemesOf_eq, hsummary]
    have happend := congrArg (· ++ []) hprinted
    exact (Stmt.printed_append_inj happend nofun nofun).1
  · intro hshown
    rw [← Stmt.summary_bare_shown h, ← Stmt.summary_bare_shown h', hshown]

theorem Stmt.map_summary_eq_iff {ss ss' : List Stmt} (h : ∀ s ∈ ss, (Node.stmt s).IsPrintable)
    (h' : ∀ s ∈ ss', (Node.stmt s).IsPrintable) :
    ss.map Stmt.summary = ss'.map Stmt.summary ↔
      Stmt.allBare (Stmt.allShown ss) = Stmt.allBare (Stmt.allShown ss') := by
  induction ss generalizing ss' with
  | nil => cases ss' <;> simp [Stmt.allShown, Stmt.allBare]
  | cons s ss ih =>
    cases ss' with
    | nil => simp [Stmt.allShown, Stmt.allBare]
    | cons s' ss' =>
      obtain ⟨hs, hss⟩ := List.forall_mem_cons.1 h
      obtain ⟨hs', hss'⟩ := List.forall_mem_cons.1 h'
      simp only [List.map_cons, Stmt.allShown, Stmt.allBare, List.cons.injEq,
        Stmt.summary_eq_iff hs hs', ih hss hss']

/-- Two programs that were read from sources have the same summaries if and only if they are the
same, up to spans and to infinite numbers in the place of names `inf`. -/
theorem Program.summaries_eq_iff {source source' : String} {program program' : Program}
    (h : Program.ofTokens (tokenize source) = .ok program)
    (h' : Program.ofTokens (tokenize source') = .ok program') :
    (program.map Stmt.summary = program'.map Stmt.summary ↔
      Program.bare (Stmt.allShown program) = Program.bare (Stmt.allShown program')) ∧
    ((∀ s ∈ program, (Node.stmt s).IsFinite) → (∀ s ∈ program', (Node.stmt s).IsFinite) →
      (program.map Stmt.summary = program'.map Stmt.summary ↔ program.bare = program'.bare)) := by
  have hprintable : ∀ s ∈ program, (Node.stmt s).IsPrintable :=
    fun s hs => Program.isPrintable_of_ofTokens h ⟨s, hs, .self _⟩
  have hprintable' : ∀ s ∈ program', (Node.stmt s).IsPrintable :=
    fun s hs => Program.isPrintable_of_ofTokens h' ⟨s, hs, .self _⟩
  have hiff := Stmt.map_summary_eq_iff hprintable hprintable'
  refine ⟨hiff, fun hfinite hfinite' => ?_⟩
  rw [hiff, Stmt.allShown_eq_self hprintable hfinite, Stmt.allShown_eq_self hprintable' hfinite']

/-- The parentheses of a source are not shown, but those that a summary has. -/
theorem summaries_eq_sum : ∃ program program',
    Program.ofTokens (tokenize "a + b") = .ok program ∧
      Program.ofTokens (tokenize "(a+b)") = .ok program' ∧
      program.map Stmt.summary = ["Expression((a + b))"] ∧
      program'.map Stmt.summary = ["Expression((a + b))"] ∧ program.bare = program'.bare := by
  have htokens : tokenize "a + b" =
      [⟨.name "a", ⟨0, 1⟩⟩, ⟨.symbol .plus, ⟨2, 3⟩⟩, ⟨.name "b", ⟨4, 5⟩⟩] := by decide +kernel
  have htokens' : tokenize "(a+b)" =
      [⟨.symbol .leftParen, ⟨0, 1⟩⟩, ⟨.name "a", ⟨1, 2⟩⟩, ⟨.symbol .plus, ⟨2, 3⟩⟩,
        ⟨.name "b", ⟨3, 4⟩⟩, ⟨.symbol .rightParen, ⟨4, 5⟩⟩] := by decide +kernel
  have hparse : Program.ofTokens (tokenize "a + b") =
      .ok [.expression (.binary (.name "a" ⟨0, 1⟩) .add (.name "b" ⟨4, 5⟩) ⟨0, 5⟩) ⟨0, 5⟩] := by
    rw [htokens]
    with_unfolding_all rfl
  have hparse' : Program.ofTokens (tokenize "(a+b)") =
      .ok [.expression (.binary (.name "a" ⟨1, 2⟩) .add (.name "b" ⟨3, 4⟩) ⟨1, 4⟩) ⟨1, 4⟩] := by
    rw [htokens']
    with_unfolding_all rfl
  have hfinite (a b c d : Span) : ∀ s ∈ [Stmt.expression
      (.binary (.name "a" a) .add (.name "b" b) c) d], (Node.stmt s).IsFinite := by
    refine List.forall_mem_singleton.2 (.of_children nofun (List.forall_mem_singleton.2 ?_))
    refine .of_children nofun (List.forall_mem_cons.2 ⟨.of_children nofun nofun, ?_⟩)
    exact List.forall_mem_singleton.2 (.of_children nofun nofun)
  refine ⟨_, _, hparse, hparse', by decide +kernel, by decide +kernel, ?_⟩
  exact ((Program.summaries_eq_iff hparse hparse').2 (hfinite _ _ _ _) (hfinite _ _ _ _)).1
    (by decide +kernel)

/-- A number that is too large for a finite one has the same summary as the name `inf`. -/
theorem not_summaries_injective : ∃ program program',
    Program.ofTokens (tokenize "inf") = .ok program ∧
      Program.ofTokens (tokenize (String.ofList ('1' :: List.replicate 309 '0'))) =
        .ok program' ∧
      program.map Stmt.summary = program'.map Stmt.summary ∧ program.bare ≠ program'.bare := by
  have htokens : tokenize "inf" = [⟨.name "inf", ⟨0, 3⟩⟩] := by decide +kernel
  have htokens' : tokenize (String.ofList ('1' :: List.replicate 309 '0')) =
      [⟨.number (Number.ofMagnitudeBits false Number.infinityBits), ⟨0, 310⟩⟩] := by
    rw [tokenize_ofList]
    decide +kernel
  have hparse : Program.ofTokens (tokenize "inf") =
      .ok [.expression (.name "inf" ⟨0, 3⟩) ⟨0, 3⟩] := by
    rw [htokens]
    with_unfolding_all rfl
  have hparse' : Program.ofTokens (tokenize (String.ofList ('1' :: List.replicate 309 '0'))) =
      .ok [.expression (.number (Number.ofMagnitudeBits false Number.infinityBits) ⟨0, 310⟩)
        ⟨0, 310⟩] := by
    rw [htokens']
    with_unfolding_all rfl
  refine ⟨_, _, hparse, hparse', ?_, by simp [Stmt.allBare, Stmt.bare, Expr.bare]⟩
  show ["Expression(" ++ "inf" ++ ")"] =
    ["Expression(" ++ Number.text (Number.ofMagnitudeBits false Number.infinityBits) ++ ")"]
  rw [Number.text_infinity]

end Kestrel
