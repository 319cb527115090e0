import Kestrel.Program.Summary
import Kestrel.Proofs.Number.Shortest
import Kestrel.Proofs.Program.Nodes
import Kestrel.Proofs.Program.Parsing
import Kestrel.Proofs.Token.Printing

/-!
# The lexemes of summaries

The summary of an expression or a statement is a text like any other, and has lexemes. What a
program is read from makes its summaries easy to take apart: every number is written by a numeral,
every name is a word and no keyword. Only an infinite number is written as what it is not, the name
`inf`.

## Main definitions

- `Expr.printed`, `Stmt.printed` — the lexemes that a summary is put together from
- `Expr.shown`, `Stmt.shown` — what a summary shows of an expression or a statement

## Main statements

- `Expr.prints`, `Stmt.prints` — these are the lexemes of the summary
- `Program.isPrintable_of_ofTokens` — what is read from a source can be printed
-/

namespace Kestrel

open Number

/-! ### Lexemes in parentheses and in braces -/

/-- Lexemes in parentheses. -/
def inParens (us : List Lexeme) : List Lexeme :=
  .symbol .leftParen :: (us ++ [.symbol .rightParen])

/-- Lexemes of statements in braces, with semicolons between them. -/
def inBraces (parts : List (List Lexeme)) : List Lexeme :=
  .symbol .leftBrace :: (List.intercalate [.symbol .semicolon] parts ++ [.symbol .rightBrace])

/-- The lexemes of the summary of an expression without infinite numbers. -/
def Expr.printed : Expr → List Lexeme
  | .number value _ => [.number value]
  | .boolean value _ => [.keyword (if value then .trueKw else .falseKw)]
  | .name text _ => [.name text]
  | .unary op operand _ => inParens (op.lexeme :: operand.printed)
  | .binary left op right _ => inParens (left.printed ++ op.lexeme :: right.printed)

mutual

/-- The lexemes of the summary of a statement without infinite numbers. -/
def Stmt.printed : Stmt → List Lexeme
  | .expression value _ => .name "Expression" :: inParens value.printed
  | .assign name op value _ =>
    .name "Assignment" :: inParens (.name name :: op.lexeme :: value.printed)
  | .print value _ => .name "Print" :: inParens value.printed
  | .ifThen condition body _ =>
    .name "If" :: (inParens condition.printed ++ inBraces (Stmt.allPrinted body))
  | .ifElse condition body otherwise _ =>
    .name "If" :: (inParens condition.printed ++ (inBraces (Stmt.allPrinted body) ++
      .keyword .elseKw :: inBraces (Stmt.allPrinted otherwise)))
  | .whileDo condition body _ =>
    .name "While" :: (inParens condition.printed ++ inBraces (Stmt.allPrinted body))
  | .breakLoop _ => [.name "Break"]
  | .continueLoop _ => [.name "Continue"]

/-- The lexemes of the summaries of some statements. -/
def Stmt.allPrinted : List Stmt → List (List Lexeme)
  | [] => []
  | s :: rest => s.printed :: Stmt.allPrinted rest

end

/-! ### What summaries show -/

/-- What the summary of an expression shows: the name `inf` for a number that is infinite. -/
def Expr.shown : Expr → Expr
  | .number value span => if value.isInf then .name "inf" span else .number value span
  | .boolean value span => .boolean value span
  | .name text span => .name text span
  | .unary op operand span => .unary op operand.shown span
  | .binary left op right span => .binary left.shown op right.shown span

mutual

/-- What the summary of a statement shows. -/
def Stmt.shown : Stmt → Stmt
  | .expression value span => .expression value.shown span
  | .assign name op value span => .assign name op value.shown span
  | .print value span => .print value.shown span
  | .ifThen condition body span => .ifThen condition.shown (Stmt.allShown body) span
  | .ifElse condition body otherwise span =>
    .ifElse condition.shown (Stmt.allShown body) (Stmt.allShown otherwise) span
  | .whileDo condition body span => .whileDo condition.shown (Stmt.allShown body) span
  | .breakLoop span => .breakLoop span
  | .continueLoop span => .continueLoop span

/-- What the summaries of some statements show. -/
def Stmt.allShown : List Stmt → List Stmt
  | [] => []
  | s :: rest => s.shown :: Stmt.allShown rest

end

/-! ### What can be printed -/

/-- The lexemes of the summary of a node. -/
def Node.printed : Node → List Lexeme
  | .expr e => e.printed
  | .stmt s => s.printed

/-- Everything in the summary of a node is a lexeme of some text. -/
def Node.IsPrintable (n : Node) : Prop := ∀ u ∈ n.printed, u.IsScannable

theorem mem_inParens {u : Lexeme} {us : List Lexeme} (h : u ∈ us) : u ∈ inParens us :=
  List.mem_cons_of_mem _ (List.mem_append_left _ h)

theorem mem_inBraces {u : Lexeme} {ss : List Stmt} {s : Stmt} (hs : s ∈ ss) (h : u ∈ s.printed) :
    u ∈ inBraces (Stmt.allPrinted ss) := by
  refine List.mem_cons_of_mem _ (List.mem_append_left _ ?_)
  induction ss with
  | nil => cases hs
  | cons s' ss ih =>
    rw [Stmt.allPrinted]
    rcases List.mem_cons.1 hs with rfl | hs
    · cases ss with
      | nil => simpa [Stmt.allPrinted] using h
      | cons => simp [Stmt.allPrinted, h]
    · cases ss with
      | nil => cases hs
      | cons s'' ss =>
        rw [List.intercalate_cons_of_ne_nil (by simp [Stmt.allPrinted])]
        exact List.mem_append_right _ (ih hs)

/-- What a node is put together from is part of its summary. -/
theorem Node.printed_subset {n child : Node} (h : child ∈ n.children) :
    child.printed ⊆ n.printed := by
  intro u hu
  match n with
  | .expr (.number _ _) | .expr (.boolean _ _) | .expr (.name _ _) => cases h
  | .expr (.unary _ operand _) =>
    obtain rfl := List.mem_singleton.1 h
    exact mem_inParens (List.mem_cons_of_mem _ hu)
  | .expr (.binary left _ right _) =>
    simp only [children, List.mem_cons, List.not_mem_nil, or_false] at h
    rcases h with rfl | rfl
    · exact mem_inParens (List.mem_append_left _ hu)
    · exact mem_inParens (List.mem_append_right _ (List.mem_cons_of_mem _ hu))
  | .stmt (.expression value _) | .stmt (.print value _) =>
    obtain rfl := List.mem_singleton.1 h
    exact List.mem_cons_of_mem _ (mem_inParens hu)
  | .stmt (.assign _ _ value _) =>
    obtain rfl := List.mem_singleton.1 h
    exact List.mem_cons_of_mem _
      (mem_inParens (List.mem_cons_of_mem _ (List.mem_cons_of_mem _ hu)))
  | .stmt (.ifThen condition body _) | .stmt (.whileDo condition body _) =>
    simp only [children, List.mem_cons, List.mem_map] at h
    refine List.mem_cons_of_mem _ (List.mem_append.2 ?_)
    rcases h with rfl | ⟨s, hs, rfl⟩
    · exact .inl (mem_inParens hu)
    · exact .inr (mem_inBraces hs hu)
  | .stmt (.ifElse condition body otherwise _) =>
    simp only [children, List.mem_cons, List.mem_append, List.mem_map] at h
    simp only [printed, Stmt.printed, List.mem_cons, List.mem_append]
    rcases h with rfl | ⟨s, hs, rfl⟩ | ⟨s, hs, rfl⟩
    · exact .inr (.inl (mem_inParens hu))
    · exact .inr (.inr (.inl (mem_inBraces hs hu)))
    · exact .inr (.inr (.inr (.inr (mem_inBraces hs hu))))
  | .stmt (.breakLoop _) | .stmt (.continueLoop _) => cases h

theorem Node.IsPrintable.child {n child : Node} (h : n.IsPrintable) (hchild : child ∈ n.children) :
    child.IsPrintable :=
  fun u hu => h u (Node.printed_subset hchild hu)

/-! ### Summaries of expressions -/

theorem BinaryOp.prints_sign (op : BinaryOp) : Prints op.sign.toList [op.lexeme] := by
  have hsign : (∃ sign : Symbol, op.sign = sign.text ∧ op.lexeme = .symbol sign) ∨
      ∃ keyword : Keyword, op.sign = keyword.text ∧ op.lexeme = .keyword keyword := by
    cases op with
    | and => exact .inr ⟨.andKw, rfl, rfl⟩
    | or => exact .inr ⟨.orKw, rfl, rfl⟩
    | add | sub | mul | div | mod | pow | eq | ne | lt | le | gt | ge =>
      exact .inl ⟨_, by rfl, rfl⟩
  rcases hsign with ⟨sign, hsign, hlexeme⟩ | ⟨keyword, hsign, hlexeme⟩
  · rw [hsign, hlexeme]
    exact sign.prints
  · rw [hsign, hlexeme]
    exact keyword.prints

theorem AssignOp.prints_sign (op : AssignOp) : Prints op.sign.toList [op.lexeme] := by
  obtain ⟨sign, hsign, hlexeme⟩ :
      ∃ sign : Symbol, op.sign = sign.text ∧ op.lexeme = .symbol sign := by
    cases op <;> exact ⟨_, by rfl, rfl⟩
  rw [hsign, hlexeme]
  exact sign.prints

/-- No summary starts with what a sign could go on with. -/
theorem Expr.exists_summary_cons {e : Expr} (h : (Node.expr e).IsPrintable) :
    ∃ c cs, e.summary.toList = c :: cs ∧ c ≠ '=' := by
  cases e with
  | number value span =>
    obtain ⟨text, htext⟩ := (h _ (List.mem_singleton_self _)).exists_numeral
    rcases text_of_numeral htext with ⟨-, hnumeral⟩ | ⟨-, hinfinity⟩
    · obtain ⟨c, cs, heq, hc⟩ := hnumeral.exists_cons
      refine ⟨c, cs, heq, ?_⟩
      rintro rfl
      exact absurd hc (by decide)
    · rw [Expr.summary, hinfinity]
      exact ⟨'i', ['n', 'f'], rfl, by decide⟩
  | boolean value span =>
    cases value with
    | false => exact ⟨'f', _, by simp [Expr.summary]; rfl, by decide⟩
    | true => exact ⟨'t', _, by simp [Expr.summary]; rfl, by decide⟩
  | name text span =>
    obtain ⟨c, cs, heq, hc⟩ := (h _ (List.mem_singleton_self _)).isWord.1.exists_cons
    refine ⟨c, cs, heq, ?_⟩
    rintro rfl
    exact absurd hc (by decide)
  | unary op operand span =>
    cases op <;> exact ⟨'(', _, by simp [Expr.summary]; rfl, by decide⟩
  | binary left op right span => exact ⟨'(', _, by simp [Expr.summary]; rfl, by decide⟩

/-- A summary has the lexemes of what it shows. -/
theorem Expr.prints {e : Expr} (h : (Node.expr e).IsPrintable) :
    Prints e.summary.toList e.shown.printed := by
  induction e with
  | number value span =>
    obtain ⟨text, htext⟩ := (h _ (List.mem_singleton_self _)).exists_numeral
    rcases text_of_numeral htext with ⟨hinf, hnumeral⟩ | ⟨hinf, hinfinity⟩
    · rw [Expr.shown, hinf]
      exact hnumeral.prints
    · rw [Expr.shown, hinf, Expr.summary, hinfinity]
      exact IsWord.prints (.mk (by decide) (List.all_eq_true.1 (by decide)))
  | boolean value span =>
    cases value with
    | false => exact Keyword.prints .falseKw
    | true => exact Keyword.prints .trueKw
  | name text span => exact (h _ (List.mem_singleton_self _)).prints_name
  | unary op operand span ih =>
    have hoperand : (Node.expr operand).IsPrintable := h.child List.mem_cons_self
    cases op with
    | neg =>
      obtain ⟨c, cs, hcons, hc⟩ := Expr.exists_summary_cons hoperand
      have hprints := ih hoperand
      rw [hcons] at hprints
      have hparens := (hprints.minus hc).parens
      simpa [Expr.summary, Expr.shown, Expr.printed, inParens, UnaryOp.lexeme, hcons] using hparens
    | not =>
      have hprints := ((Keyword.prints .notKw).spaced (ih hoperand)).parens
      simpa [Expr.summary, Expr.shown, Expr.printed, inParens, UnaryOp.lexeme, Keyword.text]
        using hprints
  | binary left op right span ihl ihr =>
    have hleft : (Node.expr left).IsPrintable := h.child List.mem_cons_self
    have hright : (Node.expr right).IsPrintable :=
      h.child (List.mem_cons_of_mem _ List.mem_cons_self)
    have hprints := ((ihl hleft).spaced (op.prints_sign.spaced (ihr hright))).parens
    simpa [Expr.summary, Expr.shown, Expr.printed, inParens] using hprints

/-! ### Summaries of statements -/

/-- The words that the summaries of statements start with. -/
def labels : List String :=
  ["Expression", "Assignment", "Print", "If", "While", "Break", "Continue"]

theorem isScannable_label {label : String} (h : label ∈ labels) :
    (Lexeme.name label).IsScannable := by
  simp only [labels, List.mem_cons, List.not_mem_nil, or_false] at h
  rcases h with rfl | rfl | rfl | rfl | rfl | rfl | rfl <;>
    exact Lexeme.IsScannable.name (.mk (by decide) (List.all_eq_true.1 (by decide))) (by decide)

/-- A label in front of a text in parentheses. -/
theorem Prints.labelled {l : String} (hl : l ∈ labels) {cs : List Char}
    {us : List Lexeme} (h : Prints cs us) :
    Prints (l.toList ++ '(' :: (cs ++ [')'])) (.name l :: inParens us) :=
  (isScannable_label hl).prints_name.append h.parens (List.cons_ne_nil _ _)
    (by rintro c ⟨⟩; decide)

theorem prints_intercalate {ss : List Stmt} (hne : ss ≠ [])
    (h : ∀ s ∈ ss, Prints s.summary.toList s.shown.printed) :
    Prints (String.intercalate "; " (Stmt.summaries ss)).toList
      (List.intercalate [.symbol .semicolon] (Stmt.allPrinted (Stmt.allShown ss))) := by
  induction ss with
  | nil => exact absurd rfl hne
  | cons s ss ih =>
    obtain ⟨hs, hss⟩ := List.forall_mem_cons.1 h
    cases ss with
    | nil => simpa [Stmt.summaries, Stmt.allShown, Stmt.allPrinted] using hs
    | cons s' ss =>
      have hfirst := hs.append (Symbol.prints .semicolon) (List.cons_ne_nil _ _)
        (by rintro c ⟨⟩; decide)
      have hall := hfirst.spaced (ih (List.cons_ne_nil _ _) hss)
      simpa [Stmt.summaries, Stmt.allShown, Stmt.allPrinted, Symbol.text,
        String.intercalate_cons_cons, List.intercalate_cons_cons] using hall

/-- The summary of a block has the lexemes of its statements, in braces. -/
theorem prints_block {ss : List Stmt} (h : ∀ s ∈ ss, Prints s.summary.toList s.shown.printed) :
    Prints (blockSummary (Stmt.summaries ss)).toList
      (inBraces (Stmt.allPrinted (Stmt.allShown ss))) := by
  cases ss with
  | nil => exact (Symbol.prints .leftBrace).spaced (Symbol.prints .rightBrace)
  | cons s ss =>
    have hall := (Symbol.prints .leftBrace).spaced
      ((prints_intercalate (List.cons_ne_nil s ss) h).spaced (Symbol.prints .rightBrace))
    simpa [blockSummary, Stmt.summaries, Symbol.text, inBraces] using hall

mutual

/-- A summary has the lexemes of what it shows. -/
theorem Stmt.prints {s : Stmt} (h : (Node.stmt s).IsPrintable) :
    Prints s.summary.toList s.shown.printed := by
  match s with
  | .expression value _ =>
    have hvalue := Expr.prints (h.child List.mem_cons_self)
    have hall := hvalue.labelled (l := "Expression") (by decide)
    show Prints ("Expression(" ++ value.summary ++ ")").toList _
    simpa [Stmt.shown, Stmt.printed] using hall
  | .assign name op value _ =>
    have hname : (Lexeme.name name).IsScannable :=
      h _ (List.mem_cons_of_mem _ (mem_inParens List.mem_cons_self))
    have hvalue := Expr.prints (h.child List.mem_cons_self)
    have hall := (hname.prints_name.spaced (op.prints_sign.spaced hvalue)).labelled
      (l := "Assignment") (by decide)
    show Prints ("Assignment(" ++ name ++ " " ++ op.sign ++ " " ++ value.summary ++ ")").toList _
    simpa [Stmt.shown, Stmt.printed] using hall
  | .print value _ =>
    have hvalue := Expr.prints (h.child List.mem_cons_self)
    have hall := hvalue.labelled (l := "Print") (by decide)
    show Prints ("Print(" ++ value.summary ++ ")").toList _
    simpa [Stmt.shown, Stmt.printed] using hall
  | .ifThen condition body _ =>
    have hcondition := Expr.prints (h.child List.mem_cons_self)
    have hbody := prints_block (Stmt.allPrints fun s hs => h.child (Node.mem_children_of_body hs))
    have hall := (hcondition.labelled (l := "If") (by decide)).spaced hbody
    show Prints ("If(" ++ condition.summary ++ ") " ++
      blockSummary (Stmt.summaries body)).toList _
    simpa [Stmt.shown, Stmt.printed] using hall
  | .ifElse condition body otherwise _ =>
    have hcondition := Expr.prints (h.child List.mem_cons_self)
    have hbody := prints_block (Stmt.allPrints fun s hs =>
      h.child (Node.mem_children_of_thenBody hs))
    have hotherwise := prints_block (Stmt.allPrints fun s hs =>
      h.child (Node.mem_children_of_elseBody hs))
    have hall := (hcondition.labelled (l := "If") (by decide)).spaced
      (hbody.spaced ((Keyword.prints .elseKw).spaced hotherwise))
    show Prints ("If(" ++ condition.summary ++ ") " ++ blockSummary (Stmt.summaries body) ++
      " else " ++ blockSummary (Stmt.summaries otherwise)).toList _
    simpa [Stmt.shown, Stmt.printed, Keyword.text] using hall
  | .whileDo condition body _ =>
    have hcondition := Expr.prints (h.child List.mem_cons_self)
    have hbody := prints_block (Stmt.allPrints fun s hs => h.child (Node.mem_children_of_body hs))
    have hall := (hcondition.labelled (l := "While") (by decide)).spaced hbody
    show Prints ("While(" ++ condition.summary ++ ") " ++
      blockSummary (Stmt.summaries body)).toList _
    simpa [Stmt.shown, Stmt.printed] using hall
  | .breakLoop _ => exact (isScannable_label (show "Break" ∈ labels by decide)).prints_name
  | .continueLoop _ => exact (isScannable_label (show "Continue" ∈ labels by decide)).prints_name
termination_by structural s

theorem Stmt.allPrints {ss : List Stmt} (h : ∀ s ∈ ss, (Node.stmt s).IsPrintable) :
    ∀ s ∈ ss, Prints s.summary.toList s.shown.printed := by
  match ss with
  | [] => exact nofun
  | s :: ss =>
    obtain ⟨hs, hss⟩ := List.forall_mem_cons.1 h
    exact List.forall_mem_cons.2 ⟨Stmt.prints hs, Stmt.allPrints hss⟩
termination_by structural ss

end

/-! ### What is read can be printed -/

theorem isScannable_inParens {us : List Lexeme} (h : ∀ u ∈ us, u.IsScannable) :
    ∀ u ∈ inParens us, u.IsScannable := by
  simp only [inParens, List.forall_mem_cons, List.forall_mem_append]
  exact ⟨.symbol _, h, .symbol _, List.forall_mem_nil _⟩

theorem isScannable_inBraces {ss : List Stmt} (h : ∀ s ∈ ss, (Node.stmt s).IsPrintable) :
    ∀ u ∈ inBraces (Stmt.allPrinted ss), u.IsScannable := by
  have hitems : ∀ u ∈ List.intercalate [.symbol .semicolon] (Stmt.allPrinted ss),
      u.IsScannable := by
    induction ss with
    | nil => exact List.forall_mem_nil _
    | cons s ss ih =>
      obtain ⟨hs, hss⟩ := List.forall_mem_cons.1 h
      cases ss with
      | nil =>
        rw [Stmt.allPrinted, Stmt.allPrinted, List.intercalate_singleton]
        exact hs
      | cons s' ss =>
        rw [Stmt.allPrinted, List.intercalate_cons_of_ne_nil (by simp [Stmt.allPrinted])]
        simp only [List.forall_mem_append, List.forall_mem_singleton]
        exact ⟨⟨hs, .symbol _⟩, ih hss⟩
  simp only [inBraces, List.forall_mem_cons, List.forall_mem_append]
  exact ⟨.symbol _, hitems, .symbol _, List.forall_mem_nil _⟩

/-- What is derived from lexemes of some text can be printed. -/
theorem Expr.Derives.isPrintable {n : Nat} {r : Rank} {us : List Lexeme} {e : Expr}
    (h : Expr.Derives n r us e) (hus : ∀ u ∈ us, u.IsScannable) : (Node.expr e).IsPrintable := by
  induction h with
  | number | trueWord | falseWord | name => exact hus
  | parens h ih =>
    simp only [List.forall_mem_cons, List.forall_mem_append] at hus
    exact ih hus.2.1
  | base h ih | plain h ih | operand h ih | tighter h ih | whole h ih => exact ih hus
  | sign op h ih =>
    obtain ⟨hop, hus⟩ := List.forall_mem_cons.1 hus
    exact isScannable_inParens (List.forall_mem_cons.2 ⟨hop, ih hus⟩)
  | power _ _ ihl ihr | binary _ _ _ ihl ihr =>
    simp only [List.forall_mem_append, List.forall_mem_cons] at hus
    refine isScannable_inParens ?_
    simp only [List.forall_mem_append, List.forall_mem_cons]
    exact ⟨ihl hus.1, hus.2.1, ihr hus.2.2⟩

theorem isScannable_labelled {label : String} (hlabel : label ∈ labels) {us : List Lexeme}
    (h : ∀ u ∈ us, u.IsScannable) : ∀ u ∈ Lexeme.name label :: us, u.IsScannable :=
  List.forall_mem_cons.2 ⟨isScannable_label hlabel, h⟩

mutual

theorem Stmt.Derives.isPrintable {n : Nat} {us : List Lexeme} {s : Stmt}
    (h : Stmt.Derives n us s) (hus : ∀ u ∈ us, u.IsScannable) : (Node.stmt s).IsPrintable := by
  match h with
  | .expression he =>
    exact isScannable_labelled (by decide) (isScannable_inParens (he.isPrintable hus))
  | .assign name op he =>
    simp only [List.forall_mem_cons] at hus
    refine isScannable_labelled (by decide) (isScannable_inParens ?_)
    simp only [List.forall_mem_cons]
    exact ⟨hus.1, hus.2.1, he.isPrintable hus.2.2⟩
  | .print he =>
    simp only [List.forall_mem_cons, List.forall_mem_append] at hus
    exact isScannable_labelled (by decide) (isScannable_inParens (he.isPrintable hus.2.2.1))
  | .conditional hif => exact hif.isPrintable (List.forall_mem_cons.1 hus).2
  | .whileDo hc hbody =>
    simp only [List.forall_mem_cons, List.forall_mem_append] at hus
    refine isScannable_labelled (by decide) (List.forall_mem_append.2 ⟨?_, ?_⟩)
    · exact isScannable_inParens (hc.isPrintable hus.2.1)
    · exact isScannable_inBraces (hbody.isPrintable hus.2.2)
  | .breakLoop | .continueLoop => exact isScannable_labelled (by decide) nofun
termination_by structural h

theorem Stmt.DerivesIf.isPrintable {n : Nat} {us : List Lexeme} {s : Stmt}
    (h : Stmt.DerivesIf n us s) (hus : ∀ u ∈ us, u.IsScannable) : (Node.stmt s).IsPrintable := by
  match h with
  | .ifThen hc hbody =>
    simp only [List.forall_mem_append] at hus
    refine isScannable_labelled (by decide) (List.forall_mem_append.2 ⟨?_, ?_⟩)
    · exact isScannable_inParens (hc.isPrintable hus.1)
    · exact isScannable_inBraces (hbody.isPrintable hus.2)
  | .ifElse newlines hc hbody helse =>
    simp only [List.forall_mem_append, List.forall_mem_cons] at hus
    refine isScannable_labelled (by decide) ?_
    simp only [List.forall_mem_append, List.forall_mem_cons]
    exact ⟨isScannable_inParens (hc.isPrintable hus.1),
      isScannable_inBraces (hbody.isPrintable hus.2.1), .keyword _,
      isScannable_inBraces (helse.isPrintable hus.2.2.2.2)⟩
termination_by structural h

theorem Stmt.DerivesElse.isPrintable {n : Nat} {us : List Lexeme} {ss : List Stmt}
    (h : Stmt.DerivesElse n us ss) (hus : ∀ u ∈ us, u.IsScannable) :
    ∀ s ∈ ss, (Node.stmt s).IsPrintable := by
  match h with
  | .elseIf hif =>
    exact List.forall_mem_singleton.2 (hif.isPrintable (List.forall_mem_cons.1 hus).2)
  | .block hblock => exact hblock.isPrintable hus
termination_by structural h

theorem Stmt.DerivesBlock.isPrintable {n : Nat} {us : List Lexeme} {ss : List Stmt}
    (h : Stmt.DerivesBlock n us ss) (hus : ∀ u ∈ us, u.IsScannable) :
    ∀ s ∈ ss, (Node.stmt s).IsPrintable := by
  match h with
  | .braces hall =>
    simp only [List.forall_mem_cons, List.forall_mem_append] at hus
    exact hall.isPrintable hus.2.1
termination_by structural h

theorem Stmt.DerivesAll.isPrintable {n : Nat} {us : List Lexeme} {ss : List Stmt}
    (h : Stmt.DerivesAll n us ss) (hus : ∀ u ∈ us, u.IsScannable) :
    ∀ s ∈ ss, (Node.stmt s).IsPrintable := by
  match h with
  | .nil => exact nofun
  | .skip hsep hall => exact hall.isPrintable (List.forall_mem_cons.1 hus).2
  | .last hs => exact List.forall_mem_singleton.2 (hs.isPrintable hus)
  | .cons hs hsep hall =>
    simp only [List.forall_mem_append, List.forall_mem_cons] at hus
    exact List.forall_mem_cons.2 ⟨hs.isPrintable hus.1, hall.isPrintable hus.2.2⟩
termination_by structural h

end

theorem Stmt.allBare_eq_map (ss : List Stmt) : Stmt.allBare ss = ss.map Stmt.bare := by
  induction ss with
  | nil => rfl
  | cons s ss ih => rw [Stmt.allBare, ih, List.map_cons]

theorem Expr.printed_bare (e : Expr) : e.bare.printed = e.printed := by
  induction e with
  | number | boolean | name => rfl
  | unary op operand span ih => rw [Expr.bare, Expr.printed, Expr.printed, ih]
  | binary left op right span ihl ihr =>
    rw [Expr.bare, Expr.printed, Expr.printed, ihl, ihr]

mutual

/-- A summary does not depend on spans. -/
theorem Stmt.printed_bare (s : Stmt) : s.bare.printed = s.printed := by
  match s with
  | .expression value _ | .print value _ | .assign _ _ value _ =>
    simp only [Stmt.bare, Stmt.printed, Expr.printed_bare]
  | .ifThen condition body _ | .whileDo condition body _ =>
    simp only [Stmt.bare, Stmt.printed, Expr.printed_bare, Stmt.allPrinted_allBare body]
  | .ifElse condition body otherwise _ =>
    simp only [Stmt.bare, Stmt.printed, Expr.printed_bare, Stmt.allPrinted_allBare body,
      Stmt.allPrinted_allBare otherwise]
  | .breakLoop _ | .continueLoop _ => rfl
termination_by structural s

theorem Stmt.allPrinted_allBare (ss : List Stmt) :
    Stmt.allPrinted (Stmt.allBare ss) = Stmt.allPrinted ss := by
  match ss with
  | [] => rfl
  | s :: ss =>
    rw [Stmt.allBare, Stmt.allPrinted, Stmt.allPrinted, Stmt.printed_bare s,
      Stmt.allPrinted_allBare ss]
termination_by structural ss

end

theorem Node.IsPrintable.of_isIn {n root : Node} (hroot : root.IsPrintable) (h : n.IsIn root) :
    n.IsPrintable := by
  induction h with
  | self => exact hroot
  | under hchild _ ih => exact ih (hroot.child hchild)

/-- All numbers in a node are finite. -/
def Node.IsFinite (n : Node) : Prop :=
  ∀ value span, (Node.expr (.number value span)).IsIn n → value.isFinite = true

theorem Node.IsFinite.child {n child : Node} (h : n.IsFinite) (hchild : child ∈ n.children) :
    child.IsFinite :=
  fun value span hn => h value span (.under hchild hn)

theorem Node.IsFinite.of_children {n : Node}
    (h : ∀ value span, n = .expr (.number value span) → value.isFinite = true)
    (hchildren : ∀ child ∈ n.children, child.IsFinite) : n.IsFinite := by
  intro value span hin
  cases hin with
  | self => exact h value span rfl
  | under hchild hin => exact hchildren _ hchild value span hin

/-- Finite numbers are shown as what they are. -/
theorem Expr.shown_eq_self {e : Expr} (h : (Node.expr e).IsPrintable)
    (hfinite : (Node.expr e).IsFinite) : e.shown = e := by
  induction e with
  | number value span =>
    obtain ⟨text, htext⟩ := (h _ (List.mem_singleton_self _)).exists_numeral
    have hinf := isInf_of_numeral htext
    rw [hfinite value span (.self _), Bool.not_true] at hinf
    rw [Expr.shown, hinf, if_neg Bool.false_ne_true]
  | boolean | name => rfl
  | unary op operand span ih =>
    rw [Expr.shown, ih (h.child List.mem_cons_self) (hfinite.child List.mem_cons_self)]
  | binary left op right span ihl ihr =>
    have hright : Node.expr right ∈ (Node.expr (.binary left op right span)).children :=
      List.mem_cons_of_mem _ List.mem_cons_self
    rw [Expr.shown, ihl (h.child List.mem_cons_self) (hfinite.child List.mem_cons_self),
      ihr (h.child hright) (hfinite.child hright)]

mutual

theorem Stmt.shown_eq_self {s : Stmt} (h : (Node.stmt s).IsPrintable)
    (hfinite : (Node.stmt s).IsFinite) : s.shown = s := by
  match s with
  | .expression value _ | .assign _ _ value _ | .print value _ =>
    have hchild := @List.mem_cons_self _ (Node.expr value) []
    rw [Stmt.shown, Expr.shown_eq_self (h.child hchild) (hfinite.child hchild)]
  | .ifThen condition body _ | .whileDo condition body _ =>
    have hchild := @List.mem_cons_self _ (Node.expr condition) (body.map .stmt)
    have hbody := Stmt.allShown_eq_self (fun s hs => h.child (Node.mem_children_of_body hs))
      fun s hs => hfinite.child (Node.mem_children_of_body hs)
    rw [Stmt.shown, Expr.shown_eq_self (h.child hchild) (hfinite.child hchild), hbody]
  | .ifElse condition body otherwise _ =>
    have hchild := @List.mem_cons_self _ (Node.expr condition)
      (body.map .stmt ++ otherwise.map .stmt)
    have hbody := Stmt.allShown_eq_self (fun s hs => h.child (Node.mem_children_of_thenBody hs))
      fun s hs => hfinite.child (Node.mem_children_of_thenBody hs)
    have hotherwise := Stmt.allShown_eq_self
      (fun s hs => h.child (Node.mem_children_of_elseBody hs))
      fun s hs => hfinite.child (Node.mem_children_of_elseBody hs)
    rw [Stmt.shown, Expr.shown_eq_self (h.child hchild) (hfinite.child hchild), hbody, hotherwise]
  | .breakLoop _ | .continueLoop _ => rfl
termination_by structural s

theorem Stmt.allShown_eq_self {ss : List Stmt} (h : ∀ s ∈ ss, (Node.stmt s).IsPrintable)
    (hfinite : ∀ s ∈ ss, (Node.stmt s).IsFinite) : Stmt.allShown ss = ss := by
  match ss with
  | [] => rfl
  | s :: ss =>
    obtain ⟨hs, hss⟩ := List.forall_mem_cons.1 h
    obtain ⟨hs', hss'⟩ := List.forall_mem_cons.1 hfinite
    rw [Stmt.allShown, Stmt.shown_eq_self hs hs', Stmt.allShown_eq_self hss hss']
termination_by structural ss

end

/-- What is read from a source can be printed. -/
theorem Program.isPrintable_of_ofTokens {source : String} {program : Program}
    (h : Program.ofTokens (tokenize source) = .ok program) {n : Node} (hn : program.Contains n) :
    n.IsPrintable := by
  have hscannable : ∀ u ∈ lexemes (tokenize source), u.IsScannable := by
    rw [← @String.ofList_toList source, tokenize_ofList, List.forall_mem_map]
    exact fun t ht => isScannable_of_mem_tokensFrom ht
  have hbare := (Program.derives_of_ofTokens h).isPrintable hscannable
  obtain ⟨s, hs, hn⟩ := hn
  have hs' : s.bare ∈ program.bare := by
    rw [Program.bare, Stmt.allBare_eq_map]
    exact List.mem_map_of_mem hs
  refine Node.IsPrintable.of_isIn (fun u hu => hbare s.bare hs' u ?_) hn
  show u ∈ s.bare.printed
  rwa [Stmt.printed_bare]

end Kestrel
