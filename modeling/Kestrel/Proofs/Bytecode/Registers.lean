import Mathlib.Data.Nat.Find
import Kestrel.Proofs.Bytecode.Objections

/-!
# Where registers are loaded and stored

The code of a program loads and stores registers in the order in which the walk over the program
reads and assigns names. The walk gives a name the next register where it is first assigned, so code
stores to the registers in the order of their numbers at first, and never loads one that it has not
stored to further up.

## Main definitions

- `Code.accesses` — the loads and stores of some code
- `Act.access?` — the load or store that an act on a name becomes
- `Scope.Filled` — no register is skipped
- `Code.StoresInOrder` — the first stores are in the order of the registers

## Main statements

- `Program.accesses_lower` — the loads and stores of a program's code are those of its walk
- `Program.assigned_of_index_lt` — registers below that of a name are given before the name has one
- `Program.storesInOrder_of_compile` — compiled code stores to its registers in order
-/

namespace Kestrel

/-! ### Loads and stores -/

/-- Whether an instruction loads or stores a register. -/
def Instruction.isAccess : Instruction → Bool
  | .load _ | .store _ => true
  | _ => false

/-- The loads and stores of some code, in order. -/
def Code.accesses (code : Code) : List Instruction :=
  code.toList.filter Instruction.isAccess

/-- The load or store that an act on a name becomes. -/
def Act.access? (register : String → Register) : Act → Option Instruction
  | .read name _ => some (.load (register name))
  | .assign name _ => some (.store (register name))
  | .breakLoop _ | .continueLoop _ => none

/-- The loads and stores that some sites become. -/
def accesses (register : String → Register) (sites : List Site) : List Instruction :=
  sites.filterMap fun site => site.act.access? register

section Accesses

variable (register : String → Register)

@[simp] theorem Code.accesses_push (code : Code) (instruction : Instruction) :
    Code.accesses (code.push instruction) =
      code.accesses ++ if instruction.isAccess then [instruction] else [] := by
  simp [Code.accesses, List.filter_append, List.filter_singleton]

@[simp] theorem accesses_append (sites sites' : List Site) :
    accesses register (sites ++ sites') = accesses register sites ++ accesses register sites' :=
  List.filterMap_append

theorem Expr.accesses_emit (e : Expr) (block : BlockPath) (code : Code) :
    (e.emit register code).accesses = code.accesses ++ accesses register (e.walk block) := by
  induction e generalizing code with
  | number | boolean | name => exact Code.accesses_push code _
  | unary op operand span ih =>
    rw [Expr.emit, Code.accesses_push, ih]
    exact List.append_nil _
  | binary left op right span ihl ihr =>
    rw [Expr.emit, Code.accesses_push, ihr, ihl]
    simp [Expr.walk, Instruction.isAccess]

theorem accesses_emitAssignment (block : BlockPath) (name : String) (op : AssignOp) (value : Expr)
    (span : Span) (code : Code) :
    (emitAssignment register name op value code).accesses =
      code.accesses ++ accesses register (assignmentWalk block name op value span) := by
  unfold emitAssignment assignmentWalk
  cases op.binaryOp? with
  | none | some binary =>
    simp [Expr.accesses_emit register value block, Instruction.isAccess, accesses, Act.access?]

mutual

/-- A statement loads and stores as the walk over it reads and assigns. -/
theorem Stmt.accesses_emit (exits : LoopExits) (s : Stmt) (block : BlockPath) (index : Nat)
    (code : Code) :
    (s.emit register exits code).accesses =
      code.accesses ++ accesses register (s.walk block index) := by
  cases s with
  | expression e span | print e span =>
    rw [Stmt.emit, Code.accesses_push, Expr.accesses_emit register e block]
    exact List.append_nil _
  | assign name op e span => exact accesses_emitAssignment register block name op e span code
  | ifThen c body span =>
    rw [Stmt.emit, Stmt.accesses_emitAll exits body (block ++ [(index, .thenBlock)]) 0]
    simp [Stmt.walk, Expr.accesses_emit register c block, Instruction.isAccess]
  | ifElse c body otherwise span =>
    rw [Stmt.emit, Stmt.accesses_emitAll exits otherwise (block ++ [(index, .elseBlock)]) 0,
      Code.accesses_push, Stmt.accesses_emitAll exits body (block ++ [(index, .thenBlock)]) 0]
    simp [Stmt.walk, Expr.accesses_emit register c block, Instruction.isAccess]
  | whileDo c body span =>
    rw [Stmt.emit, Code.accesses_push,
      Stmt.accesses_emitAll _ body (block ++ [(index, .loopBody)]) 0]
    simp [Stmt.walk, Expr.accesses_emit register c block, Instruction.isAccess]
  | breakLoop | continueLoop => exact Code.accesses_push code _

theorem Stmt.accesses_emitAll (exits : LoopExits) (ss : List Stmt) (block : BlockPath)
    (index : Nat) (code : Code) :
    (Stmt.emitAll register exits ss code).accesses =
      code.accesses ++ accesses register (Stmt.walkAll block index ss) := by
  cases ss with
  | nil => exact (List.append_nil _).symm
  | cons s rest =>
    rw [Stmt.emitAll, Stmt.walkAll, Stmt.accesses_emitAll exits rest block (index + 1),
      Stmt.accesses_emit exits s block index, accesses_append, List.append_assoc]

end

theorem Stmt.accesses_emitTop (s : Stmt) (index : Nat) (code : Code) :
    (s.emitTop register code).accesses = code.accesses ++ accesses register (s.walk [] index) := by
  unfold Stmt.emitTop
  split
  · next e span => exact e.accesses_emit register [] code
  · exact s.accesses_emit register default [] index code

theorem Program.accesses_emit (program : Program) (index : Nat) (code : Code) :
    (program.emit register code).accesses =
      code.accesses ++ accesses register (Stmt.walkAll [] index program) := by
  induction program generalizing index code with
  | nil => exact (List.append_nil _).symm
  | cons s rest ih =>
    rw [Program.emit, List.foldl_cons, ← Program.emit, ih (index + 1),
      s.accesses_emitTop register index, Stmt.walkAll, accesses_append, List.append_assoc]

/-- The loads and stores of a program's code are those of its walk. -/
theorem Program.accesses_lower (program : Program) :
    (program.lower register).accesses = accesses register program.walk := by
  rw [Program.lower, Code.accesses_push, ← Program.emit, program.accesses_emit register 0]
  simp [Instruction.isAccess, Code.accesses, Program.walk]

end Accesses

/-! ### From code to the walk -/

section Code

variable {register : String → Register} {code : Code} {sites : List Site}

theorem Code.mem_accesses_iff {instruction : Instruction} (h : instruction.isAccess = true) :
    instruction ∈ code.accesses ↔ ∃ i : Nat, code[i]? = some instruction := by
  rw [Code.accesses, List.mem_filter, and_iff_left h, Array.mem_toList_iff,
    Array.mem_iff_getElem?]

theorem mem_accesses_of_assigned (register : String → Register) {name : String}
    (h : name ∈ assignedNames sites) :
    Instruction.store (register name) ∈ accesses register sites := by
  obtain ⟨block, span, hsite⟩ := mem_assignedNames_iff.1 h
  exact List.mem_filterMap.2 ⟨_, hsite, rfl⟩

/-- A load or store in the code comes from a site, and what is assigned before this site is stored
before. -/
theorem exists_site_of_access (h : code.accesses = accesses register sites) {i : Nat}
    {instruction : Instruction} (hi : code[i]? = some instruction)
    (haccess : instruction.isAccess = true) :
    ∃ before site after, sites = before ++ site :: after ∧
      site.act.access? register = some instruction ∧
      ∀ name ∈ assignedNames before,
        ∃ j < i, code[j]? = some (Instruction.store (register name)) := by
  -- the code in front of the instruction makes up the sites in front, up to acts on no name
  have hsplit : code.toList = code.toList.take i ++ instruction :: code.toList.drop (i + 1) := by
    rw [← Array.getElem?_toList, List.getElem?_eq_some_iff] at hi
    obtain ⟨hlt, hi⟩ := hi
    rw [← hi, ← List.drop_eq_getElem_cons, List.take_append_drop]
  rw [Code.accesses, hsplit, List.filter_append, List.filter_cons_of_pos haccess] at h
  obtain ⟨before, rest, rfl, hbefore, hrest⟩ := List.filterMap_eq_append_iff.1 h.symm
  obtain ⟨skipped, site, after, rfl, hskipped, hsite, -⟩ := List.filterMap_eq_cons_iff.1 hrest
  refine ⟨before ++ skipped, site, after, by simp, hsite, fun name hname => ?_⟩
  have hstore : Instruction.store (register name) ∈ accesses register (before ++ skipped) :=
    mem_accesses_of_assigned register hname
  rw [accesses_append, accesses, accesses, List.filterMap_eq_nil_iff.2 hskipped, List.append_nil,
    hbefore] at hstore
  obtain ⟨j, hj, hget⟩ := List.mem_take_iff_getElem.1 (List.mem_filter.1 hstore).1
  refine ⟨j, by omega, ?_⟩
  rw [← Array.getElem?_toList, List.getElem?_eq_some_iff]
  exact ⟨by omega, hget⟩

end Code

/-! ### The scope on the walk -/

namespace Scope

/-- No register is skipped: those below the number of names all belong to a name. -/
def Filled (scope : Scope) : Prop :=
  ∀ r : Register, r.index < scope.registers.size → ∃ name, scope.register? name = some r

theorem filled_empty : empty.Filled := by
  intro r hr
  simp [empty] at hr

theorem Filled.assign? {scope scope' : Scope} {name : String} (hf : scope.Filled)
    (h : scope.assign? name = some scope') : scope'.Filled := by
  rcases assign?_cases h with ⟨r, -, rfl⟩ | ⟨hnone, new, hindex, hsize, hall⟩
  · exact hf
  · intro r hr
    by_cases hlt : r.index < scope.registers.size
    · -- the old registers keep their names, none of which is the new one
      obtain ⟨other, hother⟩ := hf r hlt
      have hne : name ≠ other := by
        rintro rfl
        rw [hnone] at hother
        cases hother
      exact ⟨other, by rw [hall other, if_neg hne, hother]⟩
    · obtain rfl : new = r := Register.eq_of_index (by omega)
      exact ⟨name, by rw [hall name, if_pos rfl]⟩

/-- A name that is assigned has one of the registers that were given before, or the next one. -/
theorem Numbered.index_le_of_assign? {scope scope' : Scope} {name : String} (hn : scope.Numbered)
    (h : scope.assign? name = some scope') :
    ∃ r, scope'.register? name = some r ∧ r.index ≤ scope.registers.size := by
  rcases assign?_cases h with ⟨r, hr, rfl⟩ | ⟨-, r, hindex, -, hall⟩
  · exact ⟨r, hr, (hn.index_lt hr).le⟩
  · exact ⟨r, by rw [hall name, if_pos rfl], hindex.le⟩

/-- A site leaves the scope as it is or adds a name to it. -/
theorem visit_ok_cases {scope scope' : Scope} {site : Site} (h : scope.visit site = .ok scope') :
    scope' = scope ∨
      ∃ name span, site.act = .assign name span ∧ scope.assign? name = some scope' := by
  obtain ⟨block, act⟩ := site
  cases act with
  | assign name span => exact .inr ⟨name, span, rfl, assign?_of_assign h⟩
  | read name span =>
    simp only [visit] at h
    cases hread : scope.read name span with
    | error e => simp [hread, Except.map] at h
    | ok u =>
      rw [hread] at h
      cases h
      exact .inl rfl
  | breakLoop span | continueLoop span =>
    simp only [visit] at h
    split at h
    · cases h
      exact .inl rfl
    · cases h

/-- What every new name keeps is kept on the walk. -/
theorem visitAll_induction {P : Scope → Prop}
    (hassign : ∀ scope scope' name, P scope → scope.assign? name = some scope' → P scope')
    {sites : List Site} {scope scope' : Scope} (h : scope.visitAll sites = .ok scope')
    (hP : P scope) : P scope' := by
  induction sites generalizing scope with
  | nil =>
    cases h
    exact hP
  | cons site rest ih =>
    rw [visitAll_cons] at h
    cases hvisit : scope.visit site with
    | error e => simp [hvisit, Except.bind] at h
    | ok scope₁ =>
      rw [hvisit] at h
      rcases visit_ok_cases hvisit with rfl | ⟨name, span, -, hname⟩
      · exact ih h hP
      · exact ih h (hassign scope scope₁ name hP hname)

theorem within_of_visitAll {sites : List Site} {scope scope' : Scope}
    (h : scope.visitAll sites = .ok scope') : scope.Within scope' :=
  visitAll_induction (fun _ _ _ hle hname => hle.trans (within_of_assign? hname)) h (.refl scope)

end Scope

namespace Program

variable {program : Program} {scope : Scope} {before after : List Site}

/-- What is known about the scope in front of any site of a program. -/
theorem exists_scope_of_walk (h : program.scope = .ok scope)
    (hwalk : program.walk = before ++ after) :
    ∃ front : Scope, front.Numbered ∧ front.Filled ∧ front.Knows before ∧
      front.visitAll after = .ok scope := by
  have hvisit : Scope.empty.visitAll (before ++ after) = .ok scope := by
    rw [← hwalk, ← scope_eq_visitAll, h]
  rw [Scope.visitAll_append] at hvisit
  rcases Scope.visitAll_cases Scope.knows_empty unobjected_nil before with
    ⟨front, hfront, hknows, -⟩ | ⟨e, herror, -⟩
  · rw [hfront] at hvisit
    refine ⟨front, ?_, ?_, hknows, hvisit⟩
    · exact Scope.visitAll_induction (fun _ _ _ hn => hn.assign?) hfront Scope.numbered_empty
    · exact Scope.visitAll_induction (fun _ _ _ hf => hf.assign?) hfront Scope.filled_empty
  · rw [herror] at hvisit
    cases hvisit

/-- The registers of a program's names are those below the number of its names. -/
theorem exists_name_iff_index_lt (h : program.scope = .ok scope) (r : Register) :
    (∃ name ∈ assignedNames program.walk, scope.register name = r) ↔
      r.index < (assignedNames program.walk).toFinset.card := by
  obtain ⟨front, hnumbered, hfilled, hknows, hvisit⟩ :=
    exists_scope_of_walk h (List.append_nil program.walk).symm
  cases hvisit
  rw [← hknows.size_eq]
  constructor
  · rintro ⟨name, hname, rfl⟩
    exact hnumbered.index_lt (Scope.register_of_isSome ((hknows.isSome_iff name).2 hname))
  · intro hlt
    obtain ⟨name, hname⟩ := hfilled r hlt
    exact ⟨name, (hknows.isSome_iff name).1 (by simp [hname]), Scope.register_eq hname⟩

/-- Before a name is assigned, all the registers below its own one belong to names that have been
assigned. -/
theorem assigned_of_index_lt (h : program.scope = .ok scope) {block : BlockPath} {name : String}
    {span : Span} (hwalk : program.walk = before ++ ⟨block, .assign name span⟩ :: after)
    {r : Register} (hlt : r.index < (scope.register name).index) :
    ∃ other ∈ assignedNames before, scope.register other = r := by
  obtain ⟨front, hnumbered, hfilled, hknows, hvisit⟩ := exists_scope_of_walk h hwalk
  have hle : (scope.register name).index ≤ front.registers.size := by
    rw [Scope.visitAll_cons] at hvisit
    simp only [Scope.visit, Scope.assign] at hvisit
    cases hassign : front.assign? name with
    | none => simp [hassign, Except.bind] at hvisit
    | some next =>
      simp only [hassign, Except.bind] at hvisit
      obtain ⟨r', hr', hindex⟩ := hnumbered.index_le_of_assign? hassign
      rwa [Scope.register_eq (Scope.within_of_visitAll hvisit name r' hr')]
  obtain ⟨other, hother⟩ := hfilled r (by omega)
  exact ⟨other, (hknows.isSome_iff other).1 (by simp [hother]),
    Scope.register_eq (Scope.within_of_visitAll hvisit other r hother)⟩

end Program

/-! ### Stores in order -/

namespace Code

/-- The register occurs in the code. -/
def Uses (code : Code) (r : Register) : Prop :=
  ∃ i : Nat, code[i]? = some (.load r) ∨ code[i]? = some (.store r)

/-- The first store to the register stands at this index. -/
def FirstStore (code : Code) (r : Register) (i : Nat) : Prop :=
  code[i]? = some (.store r) ∧ ∀ j < i, code[j]? ≠ some (.store r)

/-- The code uses so many registers, the first ones. It stores to each of them, for the first time
in the order of their numbers, and loads none of them before. -/
structure StoresInOrder (code : Code) (count : Nat) : Prop where
  uses_iff : ∀ r, code.Uses r ↔ r.index < count
  exists_firstStore : ∀ r : Register, r.index < count → ∃ i, code.FirstStore r i
  firstStore_lt : ∀ (r r' : Register) (i j : Nat), r.index < r'.index → code.FirstStore r i →
    code.FirstStore r' j → i < j
  exists_store_of_load : ∀ (r : Register) (i : Nat), code[i]? = some (.load r) →
    ∃ j < i, code[j]? = some (.store r)

theorem exists_firstStore {code : Code} {r : Register} (h : ∃ i : Nat, code[i]? = some (.store r)) :
    ∃ i, code.FirstStore r i :=
  ⟨Nat.find h, Nat.find_spec h, fun _ hj => Nat.find_min h hj⟩

end Code

section Compiled

variable {program : Program} {scope : Scope} {r : Register}

theorem Program.exists_store_of_assigned (scope : Scope) {name : String}
    (h : name ∈ assignedNames program.walk) :
    ∃ i : Nat, (program.lower scope.register)[i]? = some (.store (scope.register name)) := by
  have hmem := mem_accesses_of_assigned scope.register h
  rw [← program.accesses_lower] at hmem
  exact (Code.mem_accesses_iff rfl).1 hmem

/-- A load in the code of a program comes after a store to the same register. -/
theorem Program.exists_store_of_load (h : program.scope = .ok scope) {i : Nat}
    (hload : (program.lower scope.register)[i]? = some (.load r)) :
    (∃ name ∈ assignedNames program.walk, scope.register name = r) ∧
      ∃ j < i, (program.lower scope.register)[j]? = some (.store r) := by
  obtain ⟨before, ⟨block, act⟩, after, hwalk, hsite, hstores⟩ :=
    exists_site_of_access (program.accesses_lower scope.register) hload rfl
  cases act with
  | read name span =>
    simp only [Act.access?, Option.some.injEq, Instruction.load.injEq] at hsite
    subst hsite
    have hname : name ∈ assignedNames before := by
      by_contra hnew
      have hnone := program.unobjected_iff_compile.1 ⟨_, by rw [Program.compile, h]; rfl⟩
      exact hnone before _ after hwalk _ _ (.undefinedVariable hnew)
    refine ⟨⟨name, ?_, rfl⟩, hstores name hname⟩
    rw [hwalk, assignedNames_append]
    exact List.mem_append_left _ hname
  | assign | breakLoop | continueLoop => cases hsite

/-- A store in the code of a program comes after stores to all registers below its own. -/
theorem Program.exists_store_of_index_lt (h : program.scope = .ok scope) {i : Nat}
    (hstore : (program.lower scope.register)[i]? = some (.store r)) :
    (∃ name ∈ assignedNames program.walk, scope.register name = r) ∧
      ∀ r' : Register, r'.index < r.index →
        ∃ j < i, (program.lower scope.register)[j]? = some (.store r') := by
  obtain ⟨before, ⟨block, act⟩, after, hwalk, hsite, hstores⟩ :=
    exists_site_of_access (program.accesses_lower scope.register) hstore rfl
  cases act with
  | assign name span =>
    simp only [Act.access?, Option.some.injEq, Instruction.store.injEq] at hsite
    subst hsite
    have hname : name ∈ assignedNames program.walk :=
      mem_assignedNames_iff.2 ⟨block, span, by simp [hwalk]⟩
    refine ⟨⟨name, hname, rfl⟩, fun r' hlt => ?_⟩
    obtain ⟨other, hother, rfl⟩ := Program.assigned_of_index_lt h hwalk hlt
    exact hstores other hother
  | read | breakLoop | continueLoop => cases hsite

/-- Compiled code uses as many registers as the program assigns names, and stores to them in
order. -/
theorem Program.storesInOrder_of_compile {code : Code} (h : program.compile = .ok code) :
    code.StoresInOrder (assignedNames program.walk).toFinset.card := by
  obtain ⟨scope, hscope, rfl⟩ := Program.exists_scope_of_compile h
  constructor
  case uses_iff =>
    intro r
    rw [← Program.exists_name_iff_index_lt hscope]
    constructor
    · rintro ⟨i, hload | hstore⟩
      · exact (Program.exists_store_of_load hscope hload).1
      · exact (Program.exists_store_of_index_lt hscope hstore).1
    · rintro ⟨name, hname, rfl⟩
      obtain ⟨i, hi⟩ := Program.exists_store_of_assigned scope hname
      exact ⟨i, .inr hi⟩
  case exists_firstStore =>
    intro r hr
    obtain ⟨name, hname, rfl⟩ := (Program.exists_name_iff_index_lt hscope r).2 hr
    exact Code.exists_firstStore (Program.exists_store_of_assigned scope hname)
  case firstStore_lt =>
    intro r r' i j hlt hi hj
    obtain ⟨k, hk, hstore⟩ := (Program.exists_store_of_index_lt hscope hj.1).2 r hlt
    have hle : i ≤ k := by
      by_contra hki
      exact hi.2 k (by omega) hstore
    omega
  case exists_store_of_load =>
    intro r i hload
    exact (Program.exists_store_of_load hscope hload).2

end Compiled

end Kestrel
