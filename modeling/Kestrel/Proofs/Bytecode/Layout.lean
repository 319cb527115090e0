import Kestrel.Bytecode.Lowering

/-!
# Where code stands

Lowering adds instructions at the end of the code so far. So the code in front of a construct, and
the code up to its end, are both beginnings of the whole program's code, and what stands at an index
is known as soon as the code up to it is. Every fact about the place of an instruction is drawn from
this one; none needs the instructions themselves.

## Main definitions

- `Code.IsStartOf` — one code is the beginning of another one

## Main statements

- `Code.IsStartOf.getElem?_size` — the instruction that comes after some code
- `Stmt.size_emit` — a statement becomes as many instructions as `Stmt.size` says
- `Stmt.isStartOf_emit` — lowering keeps the code in front
-/

namespace Kestrel

/-- A code is the beginning of another one. -/
def Code.IsStartOf (code whole : Code) : Prop :=
  ∃ rest : Code, whole = code ++ rest

namespace Code.IsStartOf

variable {code code' whole : Code} {instruction : Instruction}

theorem refl (code : Code) : code.IsStartOf code := ⟨#[], by simp⟩

theorem trans (h : code.IsStartOf code') (h' : code'.IsStartOf whole) : code.IsStartOf whole := by
  obtain ⟨rest, rfl⟩ := h
  obtain ⟨rest', rfl⟩ := h'
  exact ⟨rest ++ rest', by rw [Array.append_assoc]⟩

theorem push (code : Code) (instruction : Instruction) :
    code.IsStartOf (Array.push code instruction) :=
  ⟨#[instruction], by simp⟩

/-- Code that goes on with an instruction also starts with what stands before it. -/
theorem of_push (h : Code.IsStartOf (Array.push code instruction) whole) : code.IsStartOf whole :=
  (push code instruction).trans h

theorem size_le (h : code.IsStartOf whole) : code.size ≤ whole.size := by
  obtain ⟨rest, rfl⟩ := h
  rw [Array.size_append]
  omega

theorem getElem?_size (h : Code.IsStartOf (Array.push code instruction) whole) :
    whole[code.size]? = some instruction := by
  obtain ⟨rest, rfl⟩ := h
  rw [Array.getElem?_append_left (by simp), Array.getElem?_push_size]

end Code.IsStartOf

open Code.IsStartOf

variable (register : String → Register)

/-! ### Expressions -/

@[simp] theorem Expr.size_emit (e : Expr) (code : Code) :
    (e.emit register code).size = code.size + e.size := by
  induction e generalizing code with
  | number | boolean | name => simp [Expr.emit, Expr.size]
  | unary op operand span ih => simp [Expr.emit, Expr.size, ih, Nat.add_assoc]
  | binary left op right span ihl ihr =>
    simp only [Expr.emit, Expr.size, Array.size_push, ihl, ihr]
    omega

theorem Expr.isStartOf_emit (e : Expr) (code : Code) : code.IsStartOf (e.emit register code) := by
  induction e generalizing code with
  | number | boolean | name => exact push code _
  | unary op operand span ih => exact (ih code).trans (push _ _)
  | binary left op right span ihl ihr => exact ((ihl code).trans (ihr _)).trans (push _ _)

/-! ### Statements -/

@[simp] theorem size_emitAssignment (name : String) (op : AssignOp) (value : Expr) (code : Code) :
    (emitAssignment register name op value code).size =
      code.size + (value.size + if op.binaryOp?.isSome then 3 else 1) := by
  unfold emitAssignment
  cases op.binaryOp? with
  | none => simp [Nat.add_assoc]
  | some binary =>
    simp only [Array.size_push, Expr.size_emit, Option.isSome_some, if_true]
    omega

theorem isStartOf_emitAssignment (name : String) (op : AssignOp) (value : Expr) (code : Code) :
    code.IsStartOf (emitAssignment register name op value code) := by
  unfold emitAssignment
  cases op.binaryOp? with
  | none => exact (value.isStartOf_emit register code).trans (push _ _)
  | some binary =>
    exact (((push code _).trans (value.isStartOf_emit register _)).trans (push _ _)).trans
      (push _ _)

mutual

/-- A statement becomes as many instructions as its size says. -/
@[simp] theorem Stmt.size_emit (exits : LoopExits) (s : Stmt) (code : Code) :
    (s.emit register exits code).size = code.size + s.size := by
  cases s with
  | expression | print => simp [Stmt.emit, Stmt.size, Nat.add_assoc]
  | assign => simp [Stmt.emit, Stmt.size]
  | ifThen c body span =>
    simp only [Stmt.emit, Stmt.size, Stmt.size_emitAll, Array.size_push, Expr.size_emit]
    omega
  | ifElse c body otherwise span =>
    simp only [Stmt.emit, Stmt.size, Stmt.size_emitAll, Array.size_push, Expr.size_emit]
    omega
  | whileDo c body span =>
    simp only [Stmt.emit, Stmt.size, Stmt.size_emitAll, Array.size_push, Expr.size_emit]
    omega
  | breakLoop | continueLoop => simp [Stmt.emit, Stmt.size]

@[simp] theorem Stmt.size_emitAll (exits : LoopExits) (ss : List Stmt) (code : Code) :
    (Stmt.emitAll register exits ss code).size = code.size + Stmt.sizes ss := by
  cases ss with
  | nil => rfl
  | cons s rest =>
    simp only [Stmt.emitAll, Stmt.sizes, Stmt.size_emitAll, Stmt.size_emit, Nat.add_assoc]

end

mutual

/-- Lowering a statement keeps the code in front. -/
theorem Stmt.isStartOf_emit (exits : LoopExits) (s : Stmt) (code : Code) :
    code.IsStartOf (s.emit register exits code) := by
  cases s with
  | expression e span | print e span =>
    exact (e.isStartOf_emit register code).trans (push _ _)
  | assign name op e span => exact isStartOf_emitAssignment register name op e code
  | ifThen c body span =>
    exact ((c.isStartOf_emit register code).trans (push _ _)).trans
      (Stmt.isStartOf_emitAll exits body _)
  | ifElse c body otherwise span =>
    exact ((((c.isStartOf_emit register code).trans (push _ _)).trans
      (Stmt.isStartOf_emitAll exits body _)).trans (push _ _)).trans
      (Stmt.isStartOf_emitAll exits otherwise _)
  | whileDo c body span =>
    exact (((c.isStartOf_emit register code).trans (push _ _)).trans
      (Stmt.isStartOf_emitAll _ body _)).trans (push _ _)
  | breakLoop | continueLoop => exact push code _

theorem Stmt.isStartOf_emitAll (exits : LoopExits) (ss : List Stmt) (code : Code) :
    code.IsStartOf (Stmt.emitAll register exits ss code) := by
  cases ss with
  | nil => exact refl code
  | cons s rest =>
    exact (Stmt.isStartOf_emit exits s code).trans (Stmt.isStartOf_emitAll exits rest _)

end

/-! ### The top level -/

theorem Stmt.isStartOf_emitTop (s : Stmt) (code : Code) :
    code.IsStartOf (s.emitTop register code) := by
  unfold Stmt.emitTop
  split
  · next e span => exact e.isStartOf_emit register code
  · exact s.isStartOf_emit register default code

theorem Stmt.emitTop_of_ne {s : Stmt} (h : ∀ e span, s ≠ .expression e span) (code : Code) :
    s.emitTop register code = s.emit register default code := by
  cases s with
  | expression e span => exact absurd rfl (h e span)
  | _ => rfl

/-- The code of the statements at the top level, behind the code in front of them. -/
def Program.emit (program : Program) (code : Code) : Code :=
  program.foldl (fun code s => s.emitTop register code) code

theorem Program.isStartOf_emit (program : Program) (code : Code) :
    code.IsStartOf (program.emit register code) := by
  induction program generalizing code with
  | nil => exact .refl code
  | cons s rest ih => exact (s.isStartOf_emitTop register code).trans (ih _)

/-- Compiled code is the lowered program, with the registers of its scope. -/
theorem Program.exists_scope_of_compile {program : Program} {code : Code}
    (h : program.compile = .ok code) :
    ∃ scope, program.scope = .ok scope ∧ code = program.lower scope.register := by
  unfold Program.compile at h
  cases hscope : program.scope with
  | error e =>
    rw [hscope] at h
    cases h
  | ok scope =>
    rw [hscope] at h
    cases h
    exact ⟨scope, rfl, rfl⟩

end Kestrel
