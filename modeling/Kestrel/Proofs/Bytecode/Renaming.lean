import Mathlib.Logic.Equiv.Basic
import Kestrel.Proofs.Bytecode.Registers
import Kestrel.Proofs.Bytecode.Relocation
import Kestrel.Proofs.Program.Renaming

/-!
# Code does not depend on names

Registers are given in the order of the first assignments, whatever the names are. So a program with
other names becomes the same code, and if something is objected to, then the same is objected to in
the renamed program, with the new name. Different names have to stay different.

## Main definitions

- `CompileError.rename` — an error with its name replaced
- `Scope.Renamed` — a scope knows the new names as another one knows the old ones

## Main statements

- `Stmt.emit_rename` — renamed statements become the code of the old ones with other registers
- `Scope.Renamed.visitAll` — the walk over the renamed program gives the same registers
- `Program.compile_rename` — compilation commutes with renaming
- `Program.storesInOrder_and_compile_rename` — code depends on the order of first assignments only
-/

namespace Kestrel

/-! ### Lowering a renamed program -/

section Emit

variable (f : String → String) (register : String → Register)

theorem Expr.size_rename (e : Expr) : (e.rename f).size = e.size := by
  induction e with
  | number | boolean | name => rfl
  | unary op operand span ih => simp only [Expr.rename, Expr.size, ih]
  | binary left op right span ihl ihr => simp only [Expr.rename, Expr.size, ihl, ihr]

mutual

theorem Stmt.size_rename (s : Stmt) : (s.rename f).size = s.size := by
  cases s with
  | expression e span | print e span | assign name op e span =>
    simp only [Stmt.rename, Stmt.size, Expr.size_rename]
  | ifThen c body span | whileDo c body span =>
    simp only [Stmt.rename, Stmt.size, Expr.size_rename, Stmt.sizes_renameAll body]
  | ifElse c body otherwise span =>
    simp only [Stmt.rename, Stmt.size, Expr.size_rename, Stmt.sizes_renameAll body,
      Stmt.sizes_renameAll otherwise]
  | breakLoop | continueLoop => rfl

theorem Stmt.sizes_renameAll (ss : List Stmt) :
    Stmt.sizes (Stmt.renameAll f ss) = Stmt.sizes ss := by
  cases ss with
  | nil => rfl
  | cons s rest =>
    simp only [Stmt.renameAll, Stmt.sizes, Stmt.size_rename s, Stmt.sizes_renameAll rest]

end

theorem Expr.emit_rename (e : Expr) (code : Code) :
    (e.rename f).emit register code = e.emit (register ∘ f) code := by
  induction e generalizing code with
  | number | boolean | name => rfl
  | unary op operand span ih => simp only [Expr.rename, Expr.emit, ih]
  | binary left op right span ihl ihr => simp only [Expr.rename, Expr.emit, ihl, ihr]

theorem emitAssignment_rename (name : String) (op : AssignOp) (value : Expr) (code : Code) :
    emitAssignment register (f name) op (value.rename f) code =
      emitAssignment (register ∘ f) name op value code := by
  unfold emitAssignment
  simp only [Expr.emit_rename, Function.comp_apply]

mutual

/-- A renamed statement becomes the code of the old one, with the registers of the new names. -/
theorem Stmt.emit_rename (exits : LoopExits) (s : Stmt) (code : Code) :
    (s.rename f).emit register exits code = s.emit (register ∘ f) exits code := by
  cases s with
  | expression e span | print e span => simp only [Stmt.rename, Stmt.emit, Expr.emit_rename]
  | assign name op e span => exact emitAssignment_rename f register name op e code
  | ifThen c body span =>
    simp only [Stmt.rename, Stmt.emit, Expr.emit_rename, Stmt.sizes_renameAll]
    exact Stmt.emitAll_renameAll exits body _
  | ifElse c body otherwise span =>
    simp only [Stmt.rename, Stmt.emit, Expr.emit_rename, Stmt.sizes_renameAll]
    rw [Stmt.emitAll_renameAll exits body, Stmt.emitAll_renameAll exits otherwise]
  | whileDo c body span =>
    simp only [Stmt.rename, Stmt.emit, Expr.emit_rename, Stmt.sizes_renameAll]
    rw [Stmt.emitAll_renameAll _ body]
  | breakLoop | continueLoop => rfl

theorem Stmt.emitAll_renameAll (exits : LoopExits) (ss : List Stmt) (code : Code) :
    Stmt.emitAll register exits (Stmt.renameAll f ss) code =
      Stmt.emitAll (register ∘ f) exits ss code := by
  cases ss with
  | nil => rfl
  | cons s rest =>
    rw [Stmt.renameAll, Stmt.emitAll, Stmt.emitAll, Stmt.emit_rename exits s,
      Stmt.emitAll_renameAll exits rest]

end

theorem Stmt.emitTop_rename (s : Stmt) (code : Code) :
    (s.rename f).emitTop register code = s.emitTop (register ∘ f) code := by
  cases s with
  | expression e span => exact e.emit_rename f register code
  | _ => exact Stmt.emit_rename f register default _ code

theorem Program.emit_rename (program : Program) (code : Code) :
    (program.rename f).emit register code = program.emit (register ∘ f) code := by
  induction program generalizing code with
  | nil => rfl
  | cons s rest ih =>
    simp only [Program.rename, Stmt.renameAll, Program.emit, List.foldl_cons, Stmt.emitTop_rename]
    exact ih _

end Emit

/-! ### Errors and scopes -/

/-- The error with its name replaced. -/
def CompileError.rename (f : String → String) : CompileError → CompileError
  | .undefinedVariable name span => .undefinedVariable (f name) span
  | .tooManyVariables name span => .tooManyVariables (f name) span
  | .breakOutsideLoop span => .breakOutsideLoop span
  | .continueOutsideLoop span => .continueOutsideLoop span

/-- The name in an error. -/
def CompileError.name? : CompileError → Option String
  | .undefinedVariable name _ | .tooManyVariables name _ => some name
  | .breakOutsideLoop _ | .continueOutsideLoop _ => none

theorem CompileError.span_rename (f : String → String) (e : CompileError) :
    (e.rename f).span = e.span := by
  cases e <;> rfl

/-- The message of a renamed error is the old one with the name replaced. -/
theorem CompileError.message_rename (f : String → String) (e : CompileError) :
    ∃ front back, e.message = front ++ e.name?.getD "" ++ back ∧
      (e.rename f).message = front ++ (e.name?.map f).getD "" ++ back := by
  cases e with
  | undefinedVariable name span => exact ⟨"undefined variable '", "'", rfl, rfl⟩
  | tooManyVariables name span =>
    exact ⟨"too many variables; cannot allocate a register for '", "'", rfl, rfl⟩
  | breakOutsideLoop span => exact ⟨"'break' outside of a loop", "", rfl, rfl⟩
  | continueOutsideLoop span => exact ⟨"'continue' outside of a loop", "", rfl, rfl⟩

/-- A scope knows the new names as this one knows the old ones. -/
structure Scope.Renamed (f : String → String) (names : Set String) (scope scope' : Scope) :
    Prop where
  register?_eq : ∀ name ∈ names, scope'.register? (f name) = scope.register? name
  size_eq : scope'.registers.size = scope.registers.size

/-- What two walks have come to: scopes with the old and the new names, or one error with the old
and the new name. -/
inductive RenamedResult (f : String → String) (names : Set String) :
    Except CompileError Scope → Except CompileError Scope → Prop
  | ok {scope scope' : Scope} (h : scope.Renamed f names scope') :
      RenamedResult f names (.ok scope) (.ok scope')
  | error (e : CompileError) : RenamedResult f names (.error e) (.error (e.rename f))

section Walk

variable {f : String → String} {names : Set String} {scope scope' : Scope}

theorem Scope.renamed_empty : Scope.empty.Renamed f names .empty where
  register?_eq name _ := by simp [Scope.register?, Scope.empty]
  size_eq := rfl

theorem Scope.Renamed.assign?_eq_none_iff (h : scope.Renamed f names scope') {name : String}
    (hname : name ∈ names) : scope'.assign? (f name) = none ↔ scope.assign? name = none := by
  rw [Scope.assign?_eq_none_iff, Scope.assign?_eq_none_iff, h.register?_eq name hname, h.size_eq]

/-- A name that is assigned has the same register under its old and its new name. -/
theorem Scope.Renamed.assign? (h : scope.Renamed f names scope') (hf : names.InjOn f)
    {name : String} (hname : name ∈ names) {next next' : Scope}
    (hassign : scope.assign? name = some next) (hassign' : scope'.assign? (f name) = some next') :
    next.Renamed f names next' := by
  have hregister := h.register?_eq name hname
  rcases Scope.assign?_cases hassign with ⟨r, hr, rfl⟩ | ⟨hnone, r, hindex, hsize, hall⟩ <;>
    rcases Scope.assign?_cases hassign' with ⟨r', hr', rfl⟩ | ⟨hnone', r', hindex', hsize', hall'⟩
  · exact h
  · rw [hregister, hr] at hnone'
    cases hnone'
  · rw [hregister, hnone] at hr'
    cases hr'
  · -- both have the next register, and it has the same number
    obtain rfl : r' = r := Register.eq_of_index (by rw [hindex', h.size_eq, hindex])
    refine ⟨fun other hother => ?_, by rw [hsize', h.size_eq, hsize]⟩
    rw [hall' (f other), hall other, h.register?_eq other hother]
    simp only [hf.eq_iff hname hother]

theorem Scope.Renamed.assign (h : scope.Renamed f names scope') (hf : names.InjOn f)
    {name : String} (hname : name ∈ names) (span : Span) :
    RenamedResult f names (scope.assign name span) (scope'.assign (f name) span) := by
  unfold Scope.assign
  cases hassign : scope.assign? name with
  | none =>
    rw [(h.assign?_eq_none_iff hname).2 hassign]
    exact .error (.tooManyVariables name span)
  | some next =>
    cases hassign' : scope'.assign? (f name) with
    | none =>
      rw [(h.assign?_eq_none_iff hname).1 hassign'] at hassign
      cases hassign
    | some next' => exact .ok (h.assign? hf hname hassign hassign')

theorem Scope.Renamed.read (h : scope.Renamed f names scope') {name : String}
    (hname : name ∈ names) (span : Span) :
    RenamedResult f names ((scope.read name span).map fun _ => scope)
      ((scope'.read (f name) span).map fun _ => scope') := by
  unfold Scope.read
  rw [h.register?_eq name hname]
  cases scope.register? name with
  | none => exact .error (.undefinedVariable name span)
  | some r => exact .ok h

/-- A site does the same to both scopes. -/
theorem Scope.Renamed.visit (h : scope.Renamed f names scope') (hf : names.InjOn f) {site : Site}
    (hsite : ∀ name, site.act.name? = some name → name ∈ names) :
    RenamedResult f names (scope.visit site) (scope'.visit (site.rename f)) := by
  obtain ⟨block, act⟩ := site
  cases act with
  | read name span => exact h.read (hsite name rfl) span
  | assign name span => exact h.assign hf (hsite name rfl) span
  | breakLoop span =>
    show RenamedResult f names (if block.inLoop then .ok scope else .error (.breakOutsideLoop span))
      (if block.inLoop then .ok scope' else .error (.breakOutsideLoop span))
    split
    · exact .ok h
    · exact .error (.breakOutsideLoop span)
  | continueLoop span =>
    show RenamedResult f names
      (if block.inLoop then .ok scope else .error (.continueOutsideLoop span))
      (if block.inLoop then .ok scope' else .error (.continueOutsideLoop span))
    split
    · exact .ok h
    · exact .error (.continueOutsideLoop span)

/-- The walk over renamed sites does the same as the walk over the old ones. -/
theorem Scope.Renamed.visitAll (h : scope.Renamed f names scope') (hf : names.InjOn f)
    {sites : List Site}
    (hsites : ∀ site ∈ sites, ∀ name, site.act.name? = some name → name ∈ names) :
    RenamedResult f names (scope.visitAll sites) (scope'.visitAll (sites.map (Site.rename f))) := by
  induction sites generalizing scope scope' with
  | nil => exact .ok h
  | cons site rest ih =>
    rw [List.map_cons, Scope.visitAll_cons, Scope.visitAll_cons]
    have hvisit := h.visit hf (hsites site List.mem_cons_self)
    revert hvisit
    generalize scope.visit site = result, scope'.visit (site.rename f) = result'
    rintro (hnext | e)
    · exact ih hnext fun other hother => hsites other (List.mem_cons_of_mem site hother)
    · exact .error e

end Walk

/-! ### Compiling a renamed program -/

namespace Program

variable {program : Program} {f : String → String}

/-- The names of a renamed program have the registers of the old ones. -/
theorem scope_rename (hf : Set.InjOn f { name | program.Mentions name }) :
    RenamedResult f { name | program.Mentions name } program.scope (program.rename f).scope := by
  rw [scope_eq_visitAll, scope_eq_visitAll, Program.walk_rename]
  exact Scope.renamed_empty.visitAll hf fun site hsite name hname => ⟨site, hsite, hname⟩

/-- What is assigned in a program is mentioned in it. -/
theorem mentions_of_isSome {scope : Scope} (h : program.scope = .ok scope) {name : String}
    (hname : (scope.register? name).isSome) : program.Mentions name := by
  obtain ⟨block, span, hsite⟩ :=
    mem_assignedNames_iff.1 (((knows_of_scope h).isSome_iff name).1 hname)
  exact ⟨_, hsite, rfl⟩

/-- Compilation commutes with renaming, if different names of the program stay different. -/
theorem compile_rename (hf : Set.InjOn f { name | program.Mentions name }) :
    (program.rename f).compile = program.compile.mapError (CompileError.rename f) := by
  have hresult := scope_rename hf
  rw [compile, compile]
  generalize hscope : program.scope = result, (program.rename f).scope = result' at hresult
  cases hresult with
  | error e => rfl
  | @ok scope scope' h =>
    have hregister : ∀ name, (scope.register? name).isSome →
        (scope'.register ∘ f) name = scope.register name := by
      intro name hname
      have hmentions := mentions_of_isSome hscope hname
      exact Scope.register_eq ((h.register?_eq name hmentions).trans
        (Scope.register_of_isSome hname))
    have hemit := emit_congr hregister (known_of_scope hscope).2
    rw [← emit_rename] at hemit
    exact congrArg (fun code : Code => Except.ok (Array.push code .halt)) hemit

/-- The registers in compiled code are the first ones, as many as the program assigns names. They
are stored to in their order at first, and loaded only after that. With other names, as long as
different ones stay different, the code is the same, and so is an objection but for the name in
it. -/
theorem storesInOrder_and_compile_rename (program : Program) :
    (∀ code, program.compile = .ok code →
      code.StoresInOrder (assignedNames program.walk).toFinset.card) ∧
    ∀ f : String → String, Set.InjOn f { name | program.Mentions name } →
      (∀ code, program.compile = .ok code → (program.rename f).compile = .ok code) ∧
      ∀ e, program.compile = .error e →
        (program.rename f).compile = .error (e.rename f) ∧ (e.rename f).span = e.span ∧
          ∃ front back, e.message = front ++ e.name?.getD "" ++ back ∧
            (e.rename f).message = front ++ (e.name?.map f).getD "" ++ back := by
  refine ⟨fun code => storesInOrder_of_compile, fun f hf => ⟨fun code hcode => ?_, fun e he => ?_⟩⟩
  · rw [compile_rename hf, hcode]
    rfl
  · refine ⟨?_, e.span_rename f, e.message_rename f⟩
    rw [compile_rename hf, he]
    rfl

end Program

section Exchanged

/-- A name is read that is never assigned. -/
def readingUnassigned : Program :=
  [.print (.name "a" ⟨6, 7⟩) ⟨0, 7⟩]

theorem compile_readingUnassigned :
    readingUnassigned.compile = .error (.undefinedVariable "a" ⟨6, 7⟩) := by
  simp [Program.compile, Except.map, Program.scope, readingUnassigned, Stmt.declareAll,
    Stmt.declare, Expr.check, Scope.read, Scope.register?, Scope.empty, bind, Except.bind]

/-- If two names are exchanged, a program that assigns both has the same code, with two registers,
and what is objected to in another one is the other name. -/
theorem compile_rename_exchanged :
    (assigningBoth.compile = .ok assigningBothCode ∧ assigningBothCode.StoresInOrder 2 ∧
      (assigningBoth.rename (Equiv.swap "a" "b")).compile = .ok assigningBothCode) ∧
    readingUnassigned.compile = .error (.undefinedVariable "a" ⟨6, 7⟩) ∧
    (readingUnassigned.rename (Equiv.swap "a" "b")).compile =
      .error (.undefinedVariable "b" ⟨6, 7⟩) := by
  have hswap : Function.Injective (Equiv.swap "a" "b") := (Equiv.swap "a" "b").injective
  refine ⟨?_, compile_readingUnassigned, ?_⟩
  · obtain ⟨hstores, hrename⟩ := Program.storesInOrder_and_compile_rename assigningBoth
    exact ⟨compile_assigningBoth, hstores _ compile_assigningBoth,
      (hrename _ hswap.injOn).1 _ compile_assigningBoth⟩
  · obtain ⟨-, hrename⟩ := Program.storesInOrder_and_compile_rename readingUnassigned
    exact ((hrename _ hswap.injOn).2 _ compile_readingUnassigned).1

end Exchanged

end Kestrel
