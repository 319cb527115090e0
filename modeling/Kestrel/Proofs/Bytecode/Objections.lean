import Mathlib.Data.Finset.Card
import Mathlib.Data.Finset.Dedup
import Kestrel.Proofs.Bytecode.Layout
import Kestrel.Proofs.Bytecode.Names
import Kestrel.Proofs.Program.Walk

/-!
# What compilation objects to

A program has no code if and only if there is something to object to on the walk over it, and then
the first objection is the one that is reported. Objections are described by the sites before them
alone: a name is read that none of them assigns, a loop is left or restarted outside of every loop,
or a name is assigned for which no register is left.

## Main definitions

- `Site.Objection` — what is objected to at a site
- `FirstObjection`, `Unobjected` — the first objection on a walk, and a walk without one
- `Scope.visit` — what a site does to the scope
- `Scope.Knows` — the scope knows the names that are assigned at some sites

## Main statements

- `Stmt.declare_eq_visitAll` — a scope is found by a visit of all sites
- `Scope.visit_cases` — what a visit of one site can come to
- `Program.compile_error_iff_firstObjection` — compilation reports the first objection
-/

namespace Kestrel

/-! ### Objections -/

/-- What is objected to at a site behind the sites in `before`, with the span that is named. -/
inductive Site.Objection (before : List Site) : Site → (message : String) → Span → Prop
  | undefinedVariable {block : BlockPath} {name : String} {span : Span}
      (hnew : name ∉ assignedNames before) :
      Objection before ⟨block, .read name span⟩ ("undefined variable '" ++ name ++ "'") span
  | tooManyVariables {block : BlockPath} {name : String} {span : Span}
      (hnew : name ∉ assignedNames before)
      (hfull : (assignedNames before).toFinset.card = 65536) :
      Objection before ⟨block, .assign name span⟩
        ("too many variables; cannot allocate a register for '" ++ name ++ "'") span
  | breakOutsideLoop {block : BlockPath} {span : Span} (hblock : block.inLoop = false) :
      Objection before ⟨block, .breakLoop span⟩ "'break' outside of a loop" span
  | continueOutsideLoop {block : BlockPath} {span : Span} (hblock : block.inLoop = false) :
      Objection before ⟨block, .continueLoop span⟩ "'continue' outside of a loop" span

/-- There is nothing to object to at any of the sites. -/
def Unobjected (sites : List Site) : Prop :=
  ∀ before site after, sites = before ++ site :: after →
    ∀ message span, ¬ site.Objection before message span

/-- The first objection on a walk. -/
def FirstObjection (sites : List Site) (message : String) (span : Span) : Prop :=
  ∃ before site after, sites = before ++ site :: after ∧ site.Objection before message span ∧
    Unobjected before

theorem Site.Objection.span_eq {before : List Site} {site : Site} {message : String} {span : Span}
    (h : site.Objection before message span) : span = site.act.span := by
  cases h <;> rfl

theorem Site.Objection.unique {before : List Site} {site : Site} {message message' : String}
    {span span' : Span} (h : site.Objection before message span)
    (h' : site.Objection before message' span') : message = message' ∧ span = span' := by
  cases h <;> cases h' <;> exact ⟨rfl, rfl⟩

theorem unobjected_nil : Unobjected [] := by
  intro before site after h
  simp at h

theorem unobjected_concat {sites : List Site} {site : Site} (h : Unobjected sites)
    (hsite : ∀ message span, ¬ site.Objection sites message span) :
    Unobjected (sites ++ [site]) := by
  intro before site' after heq
  rcases List.eq_nil_or_concat after with rfl | ⟨after, last, rfl⟩
  · obtain ⟨rfl, ⟨⟩⟩ := List.append_inj' heq rfl
    exact hsite
  · have hfront : sites ++ [site] = (before ++ site' :: after) ++ [last] := by
      rw [heq]
      simp
    obtain ⟨hsites, -⟩ := List.append_inj' hfront rfl
    exact h before site' after hsites

namespace FirstObjection

variable {sites : List Site} {message message' : String} {span span' : Span}

theorem not_unobjected (h : FirstObjection sites message span) : ¬ Unobjected sites := by
  obtain ⟨before, site, after, heq, hobjection, -⟩ := h
  intro hall
  exact hall before site after heq message span hobjection

/-- There is only one first objection: of two, neither lies before the other one. -/
theorem unique (h : FirstObjection sites message span) (h' : FirstObjection sites message' span') :
    message = message' ∧ span = span' := by
  obtain ⟨before, site, after, rfl, hobjection, hbefore⟩ := h
  obtain ⟨before', site', after', heq, hobjection', hbefore'⟩ := h'
  rcases List.append_eq_append_iff.1 heq with ⟨more, rfl, hmore⟩ | ⟨more, rfl, hmore⟩
  · cases more with
    | nil =>
      obtain ⟨rfl, -⟩ := List.cons.inj hmore
      rw [List.append_nil] at hobjection'
      exact hobjection.unique hobjection'
    | cons first more =>
      obtain ⟨rfl, -⟩ := List.cons.inj hmore
      exact absurd hobjection (hbefore' before site more rfl message span)
  · cases more with
    | nil =>
      obtain ⟨rfl, -⟩ := List.cons.inj hmore
      rw [List.append_nil] at hobjection
      exact hobjection.unique hobjection'
    | cons first more =>
      obtain ⟨rfl, -⟩ := List.cons.inj hmore
      exact absurd hobjection' (hbefore before' site' more rfl message' span')

end FirstObjection

/-! ### The scope on the walk -/

/-- What a site does to the scope. -/
def Scope.visit (scope : Scope) (site : Site) : Except CompileError Scope :=
  match site.act with
  | .read name span => (scope.read name span).map fun _ => scope
  | .assign name span => scope.assign name span
  | .breakLoop span => if site.block.inLoop then .ok scope else .error (.breakOutsideLoop span)
  | .continueLoop span =>
    if site.block.inLoop then .ok scope else .error (.continueOutsideLoop span)

/-- What some sites do to the scope, up to the first error. -/
def Scope.visitAll (scope : Scope) (sites : List Site) : Except CompileError Scope :=
  sites.foldlM Scope.visit scope

theorem Scope.visitAll_append (scope : Scope) (sites sites' : List Site) :
    scope.visitAll (sites ++ sites') =
      (scope.visitAll sites).bind fun scope' => scope'.visitAll sites' :=
  List.foldlM_append

theorem Scope.visitAll_cons (scope : Scope) (site : Site) (sites : List Site) :
    scope.visitAll (site :: sites) =
      (scope.visit site).bind fun scope' => scope'.visitAll sites := rfl

@[simp] theorem Scope.visitAll_nil (scope : Scope) : scope.visitAll [] = .ok scope := rfl

@[simp] theorem Scope.visitAll_singleton (scope : Scope) (site : Site) :
    scope.visitAll [site] = scope.visit site := by
  rw [Scope.visitAll_cons]
  cases scope.visit site <;> rfl

theorem Expr.visitAll_walk (e : Expr) (block : BlockPath) (scope : Scope) :
    scope.visitAll (e.walk block) = (e.check scope).map fun _ => scope := by
  induction e with
  | number | boolean => rfl
  | name text span => exact Scope.visitAll_singleton scope _
  | unary op operand span ih => exact ih
  | binary left op right span ihl ihr =>
    rw [Expr.walk, Scope.visitAll_append, ihl, Expr.check]
    cases left.check scope with
    | error e => rfl
    | ok u => exact ihr

theorem checkAssignment_eq_visitAll (scope : Scope) (block : BlockPath) (name : String)
    (op : AssignOp) (value : Expr) (span : Span) :
    checkAssignment scope name op value span =
      scope.visitAll (assignmentWalk block name op value span) := by
  have hvalue : scope.visitAll (value.walk block ++ [⟨block, .assign name span⟩]) =
      (value.check scope).bind fun _ => scope.assign name span := by
    rw [Scope.visitAll_append, Expr.visitAll_walk]
    cases value.check scope with
    | error e => rfl
    | ok u => exact Scope.visitAll_singleton scope _
  unfold checkAssignment assignmentWalk
  simp only [bind]
  split
  · rw [List.singleton_append, Scope.visitAll_cons]
    simp only [Scope.visit]
    cases scope.read name span with
    | error e => rfl
    | ok u => exact hvalue.symm
  · exact hvalue.symm

mutual

/-- The scope after a statement is found by a visit of its sites. -/
theorem Stmt.declare_eq_visitAll (s : Stmt) (block : BlockPath) (index : Nat) (scope : Scope) :
    s.declare block.inLoop scope = scope.visitAll (s.walk block index) := by
  cases s with
  | expression e span | print e span =>
    rw [Stmt.walk, Expr.visitAll_walk, Stmt.declare]
    cases e.check scope <;> rfl
  | assign name op e span => exact checkAssignment_eq_visitAll scope block name op e span
  | ifThen c body span =>
    rw [Stmt.walk, Scope.visitAll_append, Expr.visitAll_walk, Stmt.declare]
    cases c.check scope with
    | error e => rfl
    | ok u =>
      have hbody := Stmt.declareAll_eq_visitAll body (block ++ [(index, .thenBlock)]) 0 scope
      rwa [BlockPath.inLoop_thenBlock] at hbody
  | ifElse c body otherwise span =>
    rw [Stmt.walk, Scope.visitAll_append, Expr.visitAll_walk, Stmt.declare]
    cases c.check scope with
    | error e => rfl
    | ok u =>
      have hbody := Stmt.declareAll_eq_visitAll body (block ++ [(index, .thenBlock)]) 0 scope
      have hotherwise := Stmt.declareAll_eq_visitAll otherwise (block ++ [(index, .elseBlock)]) 0
      rw [BlockPath.inLoop_thenBlock] at hbody
      simp only [BlockPath.inLoop_elseBlock] at hotherwise
      simp only [bind, Except.bind, Except.map, Scope.visitAll_append, ← hbody, ← hotherwise]
  | whileDo c body span =>
    rw [Stmt.walk, Scope.visitAll_append, Expr.visitAll_walk, Stmt.declare]
    cases c.check scope with
    | error e => rfl
    | ok u =>
      have hbody := Stmt.declareAll_eq_visitAll body (block ++ [(index, .loopBody)]) 0 scope
      rwa [BlockPath.inLoop_loopBody] at hbody
  | breakLoop span | continueLoop span =>
    rw [Stmt.walk, Scope.visitAll_singleton, Stmt.declare, Scope.visit]

theorem Stmt.declareAll_eq_visitAll (ss : List Stmt) (block : BlockPath) (index : Nat)
    (scope : Scope) :
    Stmt.declareAll block.inLoop ss scope = scope.visitAll (Stmt.walkAll block index ss) := by
  cases ss with
  | nil => rfl
  | cons s rest =>
    rw [Stmt.walkAll, Scope.visitAll_append, ← Stmt.declare_eq_visitAll s, Stmt.declareAll]
    cases s.declare block.inLoop scope with
    | error e => rfl
    | ok scope' => exact Stmt.declareAll_eq_visitAll rest block (index + 1) scope'

end

/-! ### The names that the scope knows -/

/-- The scope knows the names that are assigned at some sites, each with a register of its own. -/
structure Scope.Knows (scope : Scope) (sites : List Site) : Prop where
  isSome_iff : ∀ name, (scope.register? name).isSome ↔ name ∈ assignedNames sites
  size_eq : scope.registers.size = (assignedNames sites).toFinset.card
  size_le : scope.registers.size ≤ 65536

theorem Scope.knows_empty : Scope.empty.Knows [] where
  isSome_iff name := by simp [Scope.register?, Scope.empty]
  size_eq := rfl
  size_le := Nat.zero_le _

theorem assignedNames_concat (sites : List Site) (site : Site) :
    assignedNames (sites ++ [site]) = assignedNames sites ++ site.act.assigned?.toList := by
  rw [assignedNames_append]
  cases h : site.act.assigned? <;> simp [assignedNames, h]

theorem card_toFinset_concat_of_mem {names : List String} {name : String} (h : name ∈ names) :
    (names ++ [name]).toFinset.card = names.toFinset.card := by
  have hinsert : (names ++ [name]).toFinset = insert name names.toFinset := by
    ext other
    simp
  rw [hinsert, Finset.insert_eq_of_mem (List.mem_toFinset.2 h)]

theorem card_toFinset_concat_of_notMem {names : List String} {name : String} (h : name ∉ names) :
    (names ++ [name]).toFinset.card = names.toFinset.card + 1 := by
  have hinsert : (names ++ [name]).toFinset = insert name names.toFinset := by
    ext other
    simp
  rw [hinsert, Finset.card_insert_of_notMem (by simpa using h)]

namespace Scope.Knows

variable {scope scope' : Scope} {before : List Site} {name : String}

theorem register?_eq_none (h : scope.Knows before) (hnew : name ∉ assignedNames before) :
    scope.register? name = none := by
  have hsome := mt (h.isSome_iff name).1 hnew
  simpa using hsome

/-- An act that assigns nothing adds nothing to what is known. -/
theorem concat (h : scope.Knows before) {site : Site} (hsite : site.act.assigned? = none) :
    scope.Knows (before ++ [site]) := by
  have hnames : assignedNames (before ++ [site]) = assignedNames before := by
    rw [assignedNames_concat, hsite, Option.toList_none, List.append_nil]
  constructor
  · rw [hnames]
    exact h.isSome_iff
  · rw [hnames]
    exact h.size_eq
  · exact h.size_le

/-- A name that is assigned is known from then on. -/
theorem assign? (h : scope.Knows before) (hassign : scope.assign? name = some scope')
    {site : Site} (hsite : site.act.assigned? = some name) : scope'.Knows (before ++ [site]) := by
  have hnames : assignedNames (before ++ [site]) = assignedNames before ++ [name] := by
    rw [assignedNames_concat, hsite, Option.toList_some]
  rcases Scope.assign?_cases hassign with ⟨r, hr, rfl⟩ | ⟨hnone, r, hindex, hsize, hall⟩
  · -- the name was known, so the scope stays as it is
    have hmem : name ∈ assignedNames before := (h.isSome_iff name).1 (by simp [hr])
    constructor
    · intro other
      rw [h.isSome_iff, hnames, List.mem_append, List.mem_singleton]
      constructor
      · exact Or.inl
      · rintro (hother | rfl)
        · exact hother
        · exact hmem
    · rw [hnames, card_toFinset_concat_of_mem hmem, h.size_eq]
    · exact h.size_le
  · have hnew : name ∉ assignedNames before := by
      intro hmem
      have hsome := (h.isSome_iff name).2 hmem
      simp [hnone] at hsome
    constructor
    · intro other
      rw [hall other, hnames, List.mem_append, List.mem_singleton, ← h.isSome_iff]
      by_cases hother : name = other
      · simp [hother]
      · simp [hother, Ne.symm hother]
    · rw [hnames, card_toFinset_concat_of_notMem hnew, hsize, h.size_eq]
    · have hlt := r.index_lt
      simp only [registerCount] at hlt
      omega

end Scope.Knows

theorem Scope.assign?_eq_none_iff {scope : Scope} {name : String} :
    scope.assign? name = none ↔
      scope.register? name = none ∧ registerCount ≤ scope.registers.size := by
  unfold Scope.assign?
  cases scope.register? name with
  | some r => simp
  | none => simp

/-- What a visit of a site can come to: nothing is objected to and the scope knows the site, or what
is objected to is the error. -/
theorem Scope.visit_cases {scope : Scope} {before : List Site} (h : scope.Knows before)
    (site : Site) :
    (∃ scope', scope.visit site = .ok scope' ∧ scope'.Knows (before ++ [site]) ∧
      ∀ message span, ¬ site.Objection before message span) ∨
    (∃ e, scope.visit site = .error e ∧ site.Objection before e.message e.span) := by
  obtain ⟨block, act⟩ := site
  cases act with
  | read name span =>
    by_cases hmem : name ∈ assignedNames before
    · obtain ⟨r, hr⟩ := Option.isSome_iff_exists.1 ((h.isSome_iff name).2 hmem)
      refine .inl ⟨scope, by simp [Scope.visit, Scope.read, hr, Except.map], h.concat rfl, ?_⟩
      rintro message span (hnew | -)
      exact hnew hmem
    · have hnone := h.register?_eq_none hmem
      exact .inr ⟨.undefinedVariable name span,
        by simp [Scope.visit, Scope.read, hnone, Except.map], .undefinedVariable hmem⟩
  | assign name span =>
    cases hassign : scope.assign? name with
    | some scope' =>
      refine .inl ⟨scope', by simp [Scope.visit, Scope.assign, hassign], h.assign? hassign rfl, ?_⟩
      rintro message span (- | ⟨hnew, hfull⟩)
      have hnone := Scope.assign?_eq_none_iff.2
        ⟨h.register?_eq_none hnew, by rw [h.size_eq, hfull]; exact Nat.le_refl _⟩
      simp [hassign] at hnone
    | none =>
      obtain ⟨hnone, hfull⟩ := Scope.assign?_eq_none_iff.1 hassign
      have hnew : name ∉ assignedNames before := by
        intro hmem
        have hsome := (h.isSome_iff name).2 hmem
        simp [hnone] at hsome
      have hsize : (assignedNames before).toFinset.card = 65536 := by
        have hle := h.size_le
        rw [← h.size_eq]
        simp only [registerCount] at hfull
        omega
      exact .inr ⟨.tooManyVariables name span, by simp [Scope.visit, Scope.assign, hassign],
        .tooManyVariables hnew hsize⟩
  | breakLoop span =>
    cases hblock : block.inLoop with
    | true =>
      refine .inl ⟨scope, by simp [Scope.visit, hblock], h.concat rfl, ?_⟩
      rintro message span (- | - | hfalse)
      simp [hblock] at hfalse
    | false =>
      exact .inr ⟨.breakOutsideLoop span, by simp [Scope.visit, hblock], .breakOutsideLoop hblock⟩
  | continueLoop span =>
    cases hblock : block.inLoop with
    | true =>
      refine .inl ⟨scope, by simp [Scope.visit, hblock], h.concat rfl, ?_⟩
      rintro message span (- | - | - | hfalse)
      simp [hblock] at hfalse
    | false =>
      exact .inr ⟨.continueOutsideLoop span, by simp [Scope.visit, hblock],
        .continueOutsideLoop hblock⟩

/-- The same for the sites of a walk, behind sites without an objection. -/
theorem Scope.visitAll_cases {scope : Scope} {before : List Site} (h : scope.Knows before)
    (hbefore : Unobjected before) (sites : List Site) :
    (∃ scope', scope.visitAll sites = .ok scope' ∧ scope'.Knows (before ++ sites) ∧
      Unobjected (before ++ sites)) ∨
    (∃ e, scope.visitAll sites = .error e ∧
      FirstObjection (before ++ sites) e.message e.span) := by
  induction sites generalizing scope before with
  | nil => exact .inl ⟨scope, rfl, by simpa using h, by simpa using hbefore⟩
  | cons site rest ih =>
    rw [Scope.visitAll_cons]
    rcases Scope.visit_cases h site with ⟨scope₁, hvisit, hknows, hnone⟩ | ⟨e, hvisit, hobjection⟩
    · rw [hvisit, List.append_cons]
      exact ih hknows (unobjected_concat hbefore hnone)
    · exact .inr ⟨e, by rw [hvisit]; rfl, before, site, rest, rfl, hobjection, hbefore⟩

/-! ### Programs -/

/-- The scope of a program is found by the walk over it. -/
theorem Program.scope_eq_visitAll (program : Program) :
    program.scope = Scope.empty.visitAll program.walk :=
  Stmt.declareAll_eq_visitAll program [] 0 .empty

/-- A program is compiled with a scope that knows the names of its walk, or its first objection is
the error. -/
theorem Program.compile_cases (program : Program) :
    (∃ scope, program.scope = .ok scope ∧ program.compile = .ok (program.lower scope.register) ∧
      scope.Knows program.walk ∧ Unobjected program.walk) ∨
    (∃ e, program.compile = .error e ∧ FirstObjection program.walk e.message e.span) := by
  rw [Program.compile, program.scope_eq_visitAll]
  rcases Scope.visitAll_cases Scope.knows_empty unobjected_nil program.walk with
    ⟨scope, hvisit, hknows, hnone⟩ | ⟨e, hvisit, hfirst⟩
  · exact .inl ⟨scope, hvisit, by rw [hvisit]; rfl, hknows, hnone⟩
  · exact .inr ⟨e, by rw [hvisit]; rfl, hfirst⟩

/-- The scope of a program knows the names of its walk. -/
theorem Program.knows_of_scope {program : Program} {scope : Scope}
    (h : program.scope = .ok scope) : scope.Knows program.walk := by
  rcases program.compile_cases with ⟨scope', hscope', -, hknows, -⟩ | ⟨e, herror, -⟩
  · obtain rfl := Except.ok.inj (h.symm.trans hscope')
    exact hknows
  · rw [Program.compile, h] at herror
    cases herror

theorem Program.unobjected_iff_compile (program : Program) :
    (∃ code, program.compile = .ok code) ↔ Unobjected program.walk := by
  rcases program.compile_cases with ⟨scope, -, hcompile, -, hnone⟩ | ⟨e, hcompile, hfirst⟩
  · exact ⟨fun _ => hnone, fun _ => ⟨_, hcompile⟩⟩
  · constructor
    · rintro ⟨code, hcode⟩
      rw [hcompile] at hcode
      cases hcode
    · intro hnone
      exact absurd hnone hfirst.not_unobjected

/-- A walk on which nothing but assignments is objected to has no objection if and only if there are
registers for all the names. -/
theorem Program.compile_iff_card_le {program : Program}
    (h : ∀ before site after, program.walk = before ++ site :: after →
      ∀ message span, site.Objection before message span → site.act.assigned?.isSome) :
    (∃ code, program.compile = .ok code) ↔
      (assignedNames program.walk).toFinset.card ≤ 65536 := by
  rcases program.compile_cases with
    ⟨scope, -, hcompile, hknows, -⟩ | ⟨e, hcompile, before, site, after, hwalk, hobjection, -⟩
  · refine ⟨fun _ => ?_, fun _ => ⟨_, hcompile⟩⟩
    rw [← hknows.size_eq]
    exact hknows.size_le
  · have hassigns := h before site after hwalk e.message e.span hobjection
    constructor
    · rintro ⟨code, hcode⟩
      rw [hcompile] at hcode
      cases hcode
    · intro hle
      -- the name that is objected to is one more than the 65536 before it
      generalize e.message = message, e.span = span at hobjection
      cases hobjection with
      | @tooManyVariables block name span hnew hfull =>
        have hsub : (assignedNames before ++ [name]).toFinset ⊆
            (assignedNames program.walk).toFinset := by
          intro other hother
          rw [hwalk, List.append_cons, assignedNames_append, assignedNames_concat]
          simp only [List.mem_toFinset, List.mem_append] at hother ⊢
          exact .inl hother
        have hcard := Finset.card_le_card hsub
        rw [card_toFinset_concat_of_notMem hnew] at hcard
        omega
      | undefinedVariable | breakOutsideLoop | continueOutsideLoop =>
        simp [Act.assigned?] at hassigns

/-- A program has no code if and only if something on its walk is objected to, and its error is the
first objection. If only the names can be too many, then 65536 of them are not. -/
theorem Program.compile_error_iff_firstObjection (program : Program) :
    (∀ message span,
      (∃ e, program.compile = .error e ∧ e.message = message ∧ e.span = span) ↔
        FirstObjection program.walk message span) ∧
    ((∃ code, program.compile = .ok code) ↔ Unobjected program.walk) ∧
    ((∀ before site after, program.walk = before ++ site :: after →
        ∀ message span, site.Objection before message span → site.act.assigned?.isSome) →
      ((∃ code, program.compile = .ok code) ↔
        (assignedNames program.walk).toFinset.card ≤ 65536)) := by
  refine ⟨fun message span => ?_, program.unobjected_iff_compile, Program.compile_iff_card_le⟩
  rcases program.compile_cases with ⟨scope, -, hcompile, -, hnone⟩ | ⟨e, hcompile, hfirst⟩
  · constructor
    · rintro ⟨e, he, -⟩
      rw [hcompile] at he
      cases he
    · intro hfirst
      exact absurd hnone hfirst.not_unobjected
  · constructor
    · rintro ⟨e', he, rfl, rfl⟩
      rw [hcompile] at he
      cases he
      exact hfirst
    · intro hfirst'
      obtain ⟨hmessage, hspan⟩ := hfirst.unique hfirst'
      exact ⟨e, hcompile, hmessage, hspan⟩

end Kestrel
