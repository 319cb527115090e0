import Mathlib.Data.Fintype.Sum
import Kestrel.Proofs.Bytecode.Objections

/-!
# Code behind other code

What comes later in a program does not change the code of what comes before, and what comes before
moves the code of what comes later: its jumps lead so much farther, and its names may have other
registers. Nothing else about it is different.

## Main definitions

- `Instruction.relocate` — an instruction with its target raised and with another register
- `Code.behind` — code that is moved behind other code

## Main statements

- `Expr.emit_behind`, `Stmt.emit_behind` — a construct is lowered behind other code as it is alone
- `Scope.exists_renaming` — the registers of names in two scopes are related by a renaming
- `Program.compile_append` — the code of a program that consists of two
-/

namespace Kestrel

/-! ### Moving code -/

/-- The instruction with its target raised and with another register. -/
def Instruction.relocate (offset : Nat) (rename : Register → Register) : Instruction → Instruction
  | .push value => .push value
  | .pop => .pop
  | .load register => .load (rename register)
  | .store register => .store (rename register)
  | .unary op => .unary op
  | .binary op => .binary op
  | .jump target => .jump (target + offset)
  | .jumpIfFalse target => .jumpIfFalse (target + offset)
  | .print => .print
  | .halt => .halt

/-- The code moved behind other code, with other registers. -/
def Code.behind (front : Code) (rename : Register → Register) (code : Code) : Code :=
  front ++ code.map (Instruction.relocate front.size rename)

/-- Exits that are moved. -/
def LoopExits.raise (offset : Nat) (exits : LoopExits) : LoopExits :=
  ⟨exits.start + offset, exits.stop + offset⟩

section Behind

variable (front : Code) (rename : Register → Register)

theorem Code.behind_empty : front.behind rename #[] = front := by
  simp [Code.behind]

theorem Code.behind_push (code : Code) (instruction : Instruction) :
    front.behind rename (code.push instruction) =
      Array.push (front.behind rename code) (instruction.relocate front.size rename) := by
  simp [Code.behind]

@[simp] theorem Code.size_behind (code : Code) :
    (front.behind rename code).size = code.size + front.size := by
  simp [Code.behind, Nat.add_comm]

/-- Each name of a scope has the register that its other register is renamed to. -/
def Scope.Renames (scope : Scope) (register register' : String → Register) : Prop :=
  ∀ name, (scope.register? name).isSome → register' name = rename (register name)

variable {front rename} {register register' : String → Register} {scope : Scope}

theorem Expr.emit_behind (hregister : scope.Renames rename register register') {e : Expr}
    (hknown : e.KnownIn scope) (code : Code) :
    e.emit register' (front.behind rename code) = front.behind rename (e.emit register code) := by
  induction e generalizing code with
  | number | boolean =>
    rw [Expr.emit, Expr.emit, Code.behind_push]
    rfl
  | name text span =>
    rw [Expr.emit, Expr.emit, Code.behind_push, hregister text hknown]
    rfl
  | unary op operand span ih =>
    rw [Expr.emit, Expr.emit, Code.behind_push, ih hknown]
    rfl
  | binary left op right span ihl ihr =>
    rw [Expr.emit, Expr.emit, Code.behind_push, ihl hknown.1, ihr hknown.2]
    rfl

theorem emitAssignment_behind (hregister : scope.Renames rename register register')
    {name : String} {value : Expr} (hname : (scope.register? name).isSome)
    (hvalue : value.KnownIn scope) (op : AssignOp) (code : Code) :
    emitAssignment register' name op value (front.behind rename code) =
      front.behind rename (emitAssignment register name op value code) := by
  unfold emitAssignment
  cases op.binaryOp? with
  | none =>
    simp only [Code.behind_push, Expr.emit_behind hregister hvalue, hregister name hname,
      Instruction.relocate]
  | some binary =>
    simp only [Code.behind_push, ← Expr.emit_behind hregister hvalue, hregister name hname,
      Instruction.relocate]

mutual

/-- A statement is lowered behind other code as it is alone. -/
theorem Stmt.emit_behind (hregister : scope.Renames rename register register') {s : Stmt}
    {inLoop : Bool} (hknown : s.KnownIn scope inLoop) {exits exits' : LoopExits}
    (hexits : inLoop = true → exits' = exits.raise front.size) (code : Code) :
    s.emit register' exits' (front.behind rename code) =
      front.behind rename (s.emit register exits code) := by
  cases s with
  | expression e span | print e span =>
    rw [Stmt.emit, Stmt.emit, Code.behind_push, Expr.emit_behind hregister hknown]
    rfl
  | assign name op e span => exact emitAssignment_behind hregister hknown.1 hknown.2 op code
  | ifThen c body span =>
    simp only [Stmt.emit, Expr.emit_behind hregister hknown.1, Code.size_behind,
      Nat.add_right_comm _ front.size]
    rw [← Stmt.emitAll_behind hregister hknown.2 hexits, Code.behind_push]
    rfl
  | ifElse c body otherwise span =>
    simp only [Stmt.emit, Expr.emit_behind hregister hknown.1, Code.size_behind,
      Nat.add_right_comm _ front.size]
    rw [← Stmt.emitAll_behind hregister hknown.2.2 hexits, Code.behind_push,
      ← Stmt.emitAll_behind hregister hknown.2.1 hexits, Code.behind_push]
    rfl
  | whileDo c body span =>
    simp only [Stmt.emit, Expr.emit_behind hregister hknown.1, Code.size_behind,
      Nat.add_right_comm _ front.size]
    rw [Code.behind_push, ← Stmt.emitAll_behind hregister hknown.2 (fun _ => rfl), Code.behind_push]
    rfl
  | breakLoop span =>
    rw [Stmt.emit, Stmt.emit, Code.behind_push, hexits hknown]
    rfl
  | continueLoop span =>
    rw [Stmt.emit, Stmt.emit, Code.behind_push, hexits hknown]
    rfl

theorem Stmt.emitAll_behind (hregister : scope.Renames rename register register')
    {ss : List Stmt} {inLoop : Bool} (hknown : Stmt.AllKnownIn scope inLoop ss)
    {exits exits' : LoopExits} (hexits : inLoop = true → exits' = exits.raise front.size)
    (code : Code) :
    Stmt.emitAll register' exits' ss (front.behind rename code) =
      front.behind rename (Stmt.emitAll register exits ss code) := by
  cases ss with
  | nil => rfl
  | cons s rest =>
    rw [Stmt.emitAll, Stmt.emitAll, Stmt.emit_behind hregister hknown.1 hexits,
      Stmt.emitAll_behind hregister hknown.2 hexits]

end

variable (front) in
/-- So are the statements of a program. -/
theorem Program.emit_behind (hregister : scope.Renames rename register register')
    {program : Program} (hknown : Stmt.AllKnownIn scope false program) (code : Code) :
    program.emit register' (front.behind rename code) =
      front.behind rename (program.emit register code) := by
  induction program generalizing code with
  | nil => rfl
  | cons s rest ih =>
    have hs : s.emitTop register' (front.behind rename code) =
        front.behind rename (s.emitTop register code) := by
      unfold Stmt.emitTop
      split
      · exact Expr.emit_behind hregister hknown.1 code
      · exact Stmt.emit_behind hregister hknown.1 nofun code
    simp only [Program.emit, List.foldl_cons, hs]
    exact ih hknown.2 _

end Behind

/-! ### The registers of two scopes -/

/-- Behind no other code and with its own registers, code stays as it is. -/
theorem Code.empty_behind_id (code : Code) : Code.behind #[] id code = code := by
  have hid : Instruction.relocate 0 id = id := by
    funext instruction
    cases instruction <;> rfl
  simp [Code.behind, hid]

/-- Code depends only on the registers of the names that are known. -/
theorem Program.emit_congr {scope : Scope} {register register' : String → Register}
    {program : Program} (h : ∀ name, (scope.register? name).isSome → register' name = register name)
    (hknown : Stmt.AllKnownIn scope false program) :
    program.emit register' #[] = program.emit register #[] := by
  have hrenames : scope.Renames id register register' := h
  have hbehind := Program.emit_behind #[] hrenames hknown #[]
  rwa [Code.empty_behind_id, Code.empty_behind_id] at hbehind

/-- A name keeps its register in a scope that knows more. -/
theorem Scope.Within.register_eq {scope scope' : Scope} (h : scope.Within scope') {name : String}
    (hname : (scope.register? name).isSome) : scope'.register name = scope.register name :=
  Scope.register_eq (h name _ (Scope.register_of_isSome hname))

/-- There are finitely many registers. -/
instance : Finite Register := by
  refine Finite.of_injective (fun r : Register => (⟨r.index, r.index_lt⟩ : Fin registerCount)) ?_
  intro r r' h
  exact Register.eq_of_index (Fin.mk.inj h)

/-- What is injective on some registers is a renaming of all of them there. -/
theorem Register.exists_injective {s : Set Register} {f : Register → Register}
    (hf : Set.InjOn f s) :
    ∃ rename : Register → Register, Function.Injective rename ∧ ∀ r ∈ s, rename r = f r := by
  have := Fintype.ofFinite Register
  obtain ⟨g, hg⟩ := Set.MapsTo.exists_equiv_extend_of_card_eq Finset.card_univ.symm
    (fun r _ => Finset.mem_coe.2 (Finset.mem_univ (f r))) hf
  exact ⟨fun r => (g r).1, Subtype.val_injective.comp g.injective, hg⟩

/-- If a scope knows the names of another one, its registers for them are a renaming of those that
they have in the other one. -/
theorem Scope.exists_renaming {scope scope' : Scope} (hn : scope.Numbered) (hn' : scope'.Numbered)
    (hnames : ∀ name, (scope.register? name).isSome → (scope'.register? name).isSome) :
    ∃ rename : Register → Register, Function.Injective rename ∧
      ∀ name r, scope.register? name = some r → scope'.register? name = some (rename r) := by
  -- a register that is given belongs to one name, and goes to the other register of this name
  have hfunction : ∀ r : Register, ∃ r', ∀ name, scope.register? name = some r →
      scope'.register? name = some r' := by
    intro r
    by_cases hgiven : ∃ name, scope.register? name = some r
    · obtain ⟨name, hname⟩ := hgiven
      obtain ⟨r', hr'⟩ := Option.isSome_iff_exists.1 (hnames name (by simp [hname]))
      refine ⟨r', fun other hother => ?_⟩
      rw [hn.name_unique hother hname, hr']
    · exact ⟨r, fun name hname => absurd ⟨name, hname⟩ hgiven⟩
  choose f hf using hfunction
  have hinj : Set.InjOn f { r | ∃ name, scope.register? name = some r } := by
    rintro r₁ ⟨name₁, h₁⟩ r₂ ⟨name₂, h₂⟩ heq
    have hname : name₁ = name₂ := hn'.name_unique (hf r₁ name₁ h₁) (heq ▸ hf r₂ name₂ h₂)
    exact Option.some.inj (h₁.symm.trans (hname ▸ h₂))
  obtain ⟨rename, hrename, heq⟩ := Register.exists_injective hinj
  exact ⟨rename, hrename, fun name r h => by rw [heq r ⟨name, h⟩, hf r name h]⟩

/-! ### Programs that consist of two -/

section Append

variable {p q : Program} {scope : Scope}

theorem Stmt.declareAll_append (inLoop : Bool) (ss ss' : List Stmt) (scope : Scope) :
    Stmt.declareAll inLoop (ss ++ ss') scope =
      (Stmt.declareAll inLoop ss scope).bind (Stmt.declareAll inLoop ss') := by
  induction ss generalizing scope with
  | nil => rfl
  | cons s rest ih =>
    simp only [List.cons_append, Stmt.declareAll]
    cases s.declare inLoop scope with
    | error e => rfl
    | ok scope' => exact ih scope'

/-- The first of two programs is accepted if both together are, and its names keep their
registers. -/
theorem Program.exists_scope_of_append (h : (p ++ q : Program).scope = .ok scope) :
    ∃ scopep, p.scope = .ok scopep ∧ scopep.Within scope := by
  rw [Program.scope, Stmt.declareAll_append] at h
  cases hp : Stmt.declareAll false p .empty with
  | error e =>
    rw [hp] at h
    cases h
  | ok scopep =>
    rw [hp] at h
    exact ⟨scopep, hp, (Stmt.walked_of_declareAll h).within⟩

/-- Two programs together know the names of the second one. -/
theorem Program.isSome_of_append {scopeq : Scope} (h : (p ++ q : Program).scope = .ok scope)
    (hq : q.scope = .ok scopeq) (name : String) (hname : (scopeq.register? name).isSome) :
    (scope.register? name).isSome := by
  rw [(Program.knows_of_scope hq).isSome_iff] at hname
  rw [(Program.knows_of_scope h).isSome_iff, Program.walk, Stmt.walkAll_append,
    assignedNames_append, Stmt.assignedNames_walkAll q [] [] (0 + p.length) 0]
  exact List.mem_append_right _ hname

/-- If two programs together have code, the first one has code, and without the end of the run this
is the beginning of the code of both. If the second one has code as well, the rest is this code,
moved behind that beginning, with the registers that its names have in both together. -/
theorem Program.compile_append {code : Code} (h : (p ++ q : Program).compile = .ok code) :
    ∃ front : Code, p.compile = .ok (front.push .halt) ∧ front.IsStartOf code ∧
      ∀ codeq, q.compile = .ok codeq → ∃ scope scopeq, ∃ rename : Register → Register,
        (p ++ q : Program).scope = .ok scope ∧ q.scope = .ok scopeq ∧ Function.Injective rename ∧
        (∀ name r, scopeq.register? name = some r → scope.register? name = some (rename r)) ∧
        code = front.behind rename codeq := by
  obtain ⟨scope, hscope, rfl⟩ := Program.exists_scope_of_compile h
  obtain ⟨scopep, hp, hwithin⟩ := Program.exists_scope_of_append hscope
  -- the first program is lowered alike with its own scope and with that of both
  have hfront : p.emit scope.register #[] = p.emit scopep.register #[] :=
    Program.emit_congr (fun _ hname => hwithin.register_eq hname) (Program.known_of_scope hp).2
  have hboth : (p ++ q).lower scope.register =
      (q.emit scope.register (p.emit scopep.register #[])).push .halt := by
    rw [← hfront]
    simp only [Program.lower, Program.emit, List.foldl_append]
  refine ⟨p.emit scopep.register #[], by rw [Program.compile, hp]; rfl, ?_, ?_⟩
  · rw [hboth]
    exact (q.isStartOf_emit scope.register _).trans (.push _ _)
  · intro codeq hcodeq
    obtain ⟨scopeq, hq, rfl⟩ := Program.exists_scope_of_compile hcodeq
    obtain ⟨hnumbered, -⟩ := Program.known_of_scope hscope
    obtain ⟨hnumberedq, hknownq⟩ := Program.known_of_scope hq
    obtain ⟨rename, hinjective, hrename⟩ := Scope.exists_renaming hnumberedq hnumbered
      (Program.isSome_of_append hscope hq)
    refine ⟨scope, scopeq, rename, hscope, hq, hinjective, hrename, ?_⟩
    have hregister : scopeq.Renames rename scopeq.register scope.register := by
      intro name hname
      exact Scope.register_eq (hrename name _ (Scope.register_of_isSome hname))
    have hrest := Program.emit_behind (p.emit scopep.register #[]) hregister hknownq #[]
    rw [Code.behind_empty] at hrest
    rw [hboth, hrest, Program.lower, Code.behind_push]
    rfl

end Append

section Swapped

/-- A name is assigned, and so is another one in a loop behind it. -/
def assigningBoth : Program :=
  let span : Span := ⟨0, 0⟩
  [.assign "a" .set (.boolean true span) span,
    .whileDo (.name "a" span) [.assign "b" .set (.name "a" span) span, .breakLoop span] span]

/-- The other one is assigned first. -/
def assigningOther : Program :=
  let span : Span := ⟨0, 0⟩
  [.assign "b" .set (.boolean false span) span]

/-- The register behind the first one. -/
def secondRegister : Register := ⟨1, by decide⟩

/-- The names `x` and `y`, in the order of their registers. -/
def Scope.ofTwo (x y : String) : Scope :=
  ⟨(Std.HashMap.insert ∅ x .first).insert y secondRegister⟩

theorem Scope.register?_ofTwo_left {x y : String} (h : x ≠ y) :
    (Scope.ofTwo x y).register? x = some .first := by
  rw [Scope.register?, Scope.ofTwo, Std.HashMap.getElem?_insert, Std.HashMap.getElem?_insert]
  simp [h.symm]

theorem Scope.register?_ofTwo_right (x y : String) :
    (Scope.ofTwo x y).register? y = some secondRegister := by
  simp [Scope.ofTwo, Scope.register?]

/-- The code of the first program. -/
def assigningBothCode : Code :=
  #[.push (.boolean true), .store .first, .load .first, .jumpIfFalse 8, .load .first,
    .store secondRegister, .jump 8, .jump 2, .halt]

/-- The code of the first program behind the other one. The names have changed their registers, and
the jumps have moved. -/
def assigningOtherAppendCode : Code :=
  #[.push (.boolean false), .store .first, .push (.boolean true), .store secondRegister,
    .load secondRegister, .jumpIfFalse 10, .load secondRegister, .store .first, .jump 10, .jump 4,
    .halt]

theorem scope_assigningBoth : assigningBoth.scope = .ok (.ofTwo "a" "b") := by
  simp [Program.scope, assigningBoth, Stmt.declareAll, Stmt.declare, checkAssignment, Expr.check,
    Scope.assign, Scope.assign?, Scope.read, Scope.register?, Scope.empty, AssignOp.binaryOp?, bind,
    Except.bind, registerCount, Std.HashMap.size_insert, Register.first, Scope.ofTwo,
    secondRegister]

theorem scope_assigningOther_append :
    (assigningOther ++ assigningBoth : Program).scope = .ok (.ofTwo "b" "a") := by
  simp [Program.scope, assigningOther, assigningBoth, Stmt.declareAll, Stmt.declare,
    checkAssignment, Expr.check, Scope.assign, Scope.assign?, Scope.read, Scope.register?,
    Scope.empty, AssignOp.binaryOp?, bind, Except.bind, registerCount, Std.HashMap.size_insert,
    Register.first, Scope.ofTwo, secondRegister]

theorem compile_assigningBoth : assigningBoth.compile = .ok assigningBothCode := by
  rw [Program.compile, scope_assigningBoth]
  simp [Except.map, Program.lower, assigningBoth, assigningBothCode, Stmt.emitTop, Stmt.emit,
    Stmt.emitAll, Expr.emit, Stmt.size, Stmt.sizes, Expr.size, emitAssignment, AssignOp.binaryOp?,
    Scope.register, Scope.register?_ofTwo_left, Scope.register?_ofTwo_right]

theorem compile_assigningOther_append :
    (assigningOther ++ assigningBoth : Program).compile = .ok assigningOtherAppendCode := by
  rw [Program.compile, scope_assigningOther_append]
  simp [Except.map, Program.lower, assigningOther, assigningBoth, assigningOtherAppendCode,
    Stmt.emitTop, Stmt.emit, Stmt.emitAll, Expr.emit, Stmt.size, Stmt.sizes, Expr.size,
    emitAssignment, AssignOp.binaryOp?, Scope.register, Scope.register?_ofTwo_left,
    Scope.register?_ofTwo_right]

/-- Behind the assignment of the other name, the code of this program is moved, with its registers
swapped. -/
theorem compile_append_assigningBoth :
    (assigningOther ++ assigningBoth : Program).compile = .ok assigningOtherAppendCode ∧
      assigningBoth.compile = .ok assigningBothCode ∧
      ∃ front : Code, assigningOther.compile = .ok (front.push .halt) ∧
        front.IsStartOf assigningOtherAppendCode ∧
        ∃ rename : Register → Register, Function.Injective rename ∧
          rename .first = secondRegister ∧ rename secondRegister = .first ∧
          assigningOtherAppendCode = front.behind rename assigningBothCode := by
  obtain ⟨front, hfront, hstarts, hrest⟩ := Program.compile_append compile_assigningOther_append
  obtain ⟨scope, scopeq, rename, hscope, hscopeq, hinjective, hrename, heq⟩ :=
    hrest assigningBothCode compile_assigningBoth
  obtain rfl := Except.ok.inj (scope_assigningOther_append.symm.trans hscope)
  obtain rfl := Except.ok.inj (scope_assigningBoth.symm.trans hscopeq)
  have hfirst := hrename "a" .first (Scope.register?_ofTwo_left (by decide))
  have hsecond := hrename "b" secondRegister (Scope.register?_ofTwo_right "a" "b")
  rw [Scope.register?_ofTwo_right] at hfirst
  rw [Scope.register?_ofTwo_left (by decide)] at hsecond
  exact ⟨compile_assigningOther_append, compile_assigningBoth, front, hfront, hstarts, rename,
    hinjective, (Option.some.inj hfirst).symm, (Option.some.inj hsecond).symm, heq⟩

end Swapped

end Kestrel
