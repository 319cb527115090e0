import Kestrel.Program

/-!
# The walk over a program

A program is walked over in the order of its text, and at some sites something is done with a name
or with a loop. This file lists the sites of a program, each with the block that it stands in.

A condition stands in the block of its statement and comes before the blocks of the statement. The
left operand comes before the right one. A plain assignment assigns its name after everything in its
value, and one that combines values reads its name before everything else.

## Main definitions

- `BlockPath` — where a block is in a program
- `Act`, `Site` — what is done, and in which block
- `Expr.walk`, `Stmt.walk`, `Program.walk` — the sites of a construct, in order
- `assignedNames` — the names that are assigned at some sites
-/

namespace Kestrel

/-- The kinds of blocks that statements have. -/
inductive BlockKind where
  | thenBlock
  | elseBlock
  | loopBody
  deriving DecidableEq, Repr

/-- Where a block is: the blocks around it and the block itself, from the outside in, each by the
index of its statement among its neighbours and by its kind. The top level has the empty path. -/
abbrev BlockPath := List (Nat × BlockKind)

/-- Whether a block is the body of a loop or inside one. -/
def BlockPath.inLoop (block : BlockPath) : Bool :=
  block.any fun step => step.2 == .loopBody

@[simp] theorem BlockPath.inLoop_nil : BlockPath.inLoop [] = false := rfl

theorem BlockPath.inLoop_concat (block : BlockPath) (index : Nat) (kind : BlockKind) :
    BlockPath.inLoop (block ++ [(index, kind)]) = (block.inLoop || kind == .loopBody) := by
  simp [BlockPath.inLoop]

@[simp] theorem BlockPath.inLoop_thenBlock (block : BlockPath) (index : Nat) :
    BlockPath.inLoop (block ++ [(index, .thenBlock)]) = block.inLoop := by
  rw [BlockPath.inLoop_concat, show (BlockKind.thenBlock == .loopBody) = false from rfl,
    Bool.or_false]

@[simp] theorem BlockPath.inLoop_elseBlock (block : BlockPath) (index : Nat) :
    BlockPath.inLoop (block ++ [(index, .elseBlock)]) = block.inLoop := by
  rw [BlockPath.inLoop_concat, show (BlockKind.elseBlock == .loopBody) = false from rfl,
    Bool.or_false]

@[simp] theorem BlockPath.inLoop_loopBody (block : BlockPath) (index : Nat) :
    BlockPath.inLoop (block ++ [(index, .loopBody)]) = true := by
  rw [BlockPath.inLoop_concat, show (BlockKind.loopBody == .loopBody) = true from rfl,
    Bool.or_true]

/-- What is done at a site. The span of an act is that of the name in an expression, and that of the
statement otherwise. -/
inductive Act where
  | read (name : String) (span : Span)
  | assign (name : String) (span : Span)
  | breakLoop (span : Span)
  | continueLoop (span : Span)
  deriving DecidableEq, Repr

def Act.span : Act → Span
  | .read _ span | .assign _ span | .breakLoop span | .continueLoop span => span

/-- The name that an act reads. -/
def Act.read? : Act → Option String
  | .read name _ => some name
  | _ => none

/-- The name that an act assigns. -/
def Act.assigned? : Act → Option String
  | .assign name _ => some name
  | _ => none

/-- An act, and the block that it stands in directly. -/
structure Site where
  block : BlockPath
  act : Act
  deriving DecidableEq, Repr

/-- The names that are assigned at some sites, in order and as often as they are. -/
def assignedNames (sites : List Site) : List String :=
  sites.filterMap fun site => site.act.assigned?

@[simp] theorem assignedNames_nil : assignedNames [] = [] := rfl

@[simp] theorem assignedNames_append (sites sites' : List Site) :
    assignedNames (sites ++ sites') = assignedNames sites ++ assignedNames sites' :=
  List.filterMap_append

theorem mem_assignedNames_iff {name : String} {sites : List Site} :
    name ∈ assignedNames sites ↔ ∃ block span, ⟨block, .assign name span⟩ ∈ sites := by
  constructor
  · intro h
    obtain ⟨⟨block, act⟩, hsite, hassigned⟩ := List.mem_filterMap.1 h
    cases act with
    | assign other span =>
      obtain rfl := Option.some.inj hassigned
      exact ⟨block, span, hsite⟩
    | read | breakLoop | continueLoop => cases hassigned
  · rintro ⟨block, span, hsite⟩
    exact List.mem_filterMap.2 ⟨_, hsite, rfl⟩

/-- The names that an expression in a block reads. -/
def Expr.walk (block : BlockPath) : Expr → List Site
  | .number _ _ => []
  | .boolean _ _ => []
  | .name text span => [⟨block, .read text span⟩]
  | .unary _ operand _ => operand.walk block
  | .binary left _ right _ => left.walk block ++ right.walk block

/-- The sites of an assignment in a block. -/
def assignmentWalk (block : BlockPath) (name : String) (op : AssignOp) (value : Expr)
    (span : Span) : List Site :=
  (if op.binaryOp?.isSome then [⟨block, .read name span⟩] else [])
    ++ (value.walk block ++ [⟨block, .assign name span⟩])

mutual

/-- The sites of a statement, which is the one with this index in a block. -/
def Stmt.walk (block : BlockPath) (index : Nat) : Stmt → List Site
  | .expression value _ => value.walk block
  | .assign name op value span => assignmentWalk block name op value span
  | .print value _ => value.walk block
  | .ifThen condition body _ =>
    condition.walk block ++ Stmt.walkAll (block ++ [(index, .thenBlock)]) 0 body
  | .ifElse condition body otherwise _ =>
    condition.walk block ++
      (Stmt.walkAll (block ++ [(index, .thenBlock)]) 0 body ++
        Stmt.walkAll (block ++ [(index, .elseBlock)]) 0 otherwise)
  | .whileDo condition body _ =>
    condition.walk block ++ Stmt.walkAll (block ++ [(index, .loopBody)]) 0 body
  | .breakLoop span => [⟨block, .breakLoop span⟩]
  | .continueLoop span => [⟨block, .continueLoop span⟩]

/-- The sites of the statements of a block from the one with this index on. -/
def Stmt.walkAll (block : BlockPath) (index : Nat) : List Stmt → List Site
  | [] => []
  | s :: rest => s.walk block index ++ Stmt.walkAll block (index + 1) rest

end

theorem Stmt.walkAll_append (block : BlockPath) (index : Nat) (ss ss' : List Stmt) :
    Stmt.walkAll block index (ss ++ ss') =
      Stmt.walkAll block index ss ++ Stmt.walkAll block (index + ss.length) ss' := by
  induction ss generalizing index with
  | nil => rfl
  | cons s rest ih =>
    simp only [List.cons_append, Stmt.walkAll, ih, List.append_assoc, List.length_cons]
    rw [Nat.add_right_comm, Nat.add_assoc index]

/-! ### What is done, wherever it is done -/

theorem Expr.map_act_walk (e : Expr) (block block' : BlockPath) :
    (e.walk block).map Site.act = (e.walk block').map Site.act := by
  induction e with
  | number | boolean | name => rfl
  | unary op operand span ih => exact ih
  | binary left op right span ihl ihr => simp only [Expr.walk, List.map_append, ihl, ihr]

mutual

/-- What a statement does does not depend on where it stands. -/
theorem Stmt.map_act_walk (s : Stmt) (block block' : BlockPath) (index index' : Nat) :
    (s.walk block index).map Site.act = (s.walk block' index').map Site.act := by
  cases s with
  | expression e span | print e span => exact e.map_act_walk block block'
  | assign name op e span =>
    simp only [Stmt.walk, assignmentWalk, List.map_append, e.map_act_walk block block']
    split <;> rfl
  | ifThen c body span =>
    simp only [Stmt.walk, List.map_append]
    rw [c.map_act_walk block block', Stmt.map_act_walkAll body]
  | ifElse c body otherwise span =>
    simp only [Stmt.walk, List.map_append]
    rw [c.map_act_walk block block', Stmt.map_act_walkAll body, Stmt.map_act_walkAll otherwise]
  | whileDo c body span =>
    simp only [Stmt.walk, List.map_append]
    rw [c.map_act_walk block block', Stmt.map_act_walkAll body]
  | breakLoop | continueLoop => rfl

theorem Stmt.map_act_walkAll (ss : List Stmt) (block block' : BlockPath) (index index' : Nat) :
    (Stmt.walkAll block index ss).map Site.act = (Stmt.walkAll block' index' ss).map Site.act := by
  cases ss with
  | nil => rfl
  | cons s rest =>
    simp only [Stmt.walkAll, List.map_append]
    rw [Stmt.map_act_walk s block block' index index',
      Stmt.map_act_walkAll rest block block' (index + 1) (index' + 1)]

end

theorem Stmt.assignedNames_walkAll (ss : List Stmt) (block block' : BlockPath)
    (index index' : Nat) :
    assignedNames (Stmt.walkAll block index ss) =
      assignedNames (Stmt.walkAll block' index' ss) := by
  have hacts : ∀ sites, assignedNames sites = (sites.map Site.act).filterMap Act.assigned? := by
    intro sites
    rw [List.filterMap_map]
    rfl
  rw [hacts, hacts, Stmt.map_act_walkAll ss block block' index index']

/-- The sites of a program. -/
def Program.walk (program : Program) : List Site :=
  Stmt.walkAll [] 0 program

end Kestrel
