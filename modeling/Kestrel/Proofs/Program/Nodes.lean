import Kestrel.Program

/-!
# The nodes of a program

The expressions and statements of a program are the nodes of a forest. Below a node are the
expressions and statements that it is put together from, in the order in which they are written.

## Main definitions

- `Node` — an expression or a statement
- `Node.children` — what a node is put together from
- `Node.IsIn` — a node is another one or below it
- `Program.Contains` — a node is somewhere in a program

## Main statements

- `Node.forall_isIn_iff` — what holds of all nodes in another one
-/

namespace Kestrel

/-- An expression or a statement, wherever it stands. -/
inductive Node where
  | expr (e : Expr)
  | stmt (s : Stmt)

namespace Node

/-- The source text that a node was read from. -/
def span : Node → Span
  | .expr e => e.span
  | .stmt s => s.span

/-- The expressions and statements right below a node, in the order of the text. The blocks of a
statement come after its condition, each with its statements in order. -/
def children : Node → List Node
  | .expr (.number _ _) | .expr (.boolean _ _) | .expr (.name _ _) => []
  | .expr (.unary _ operand _) => [.expr operand]
  | .expr (.binary left _ right _) => [.expr left, .expr right]
  | .stmt (.expression value _) | .stmt (.assign _ _ value _) | .stmt (.print value _) =>
    [.expr value]
  | .stmt (.ifThen condition body _) | .stmt (.whileDo condition body _) =>
    .expr condition :: body.map .stmt
  | .stmt (.ifElse condition body otherwise _) =>
    .expr condition :: (body.map .stmt ++ otherwise.map .stmt)
  | .stmt (.breakLoop _) | .stmt (.continueLoop _) => []

/-- The first node is the second one or somewhere below it. -/
inductive IsIn : Node → Node → Prop
  | self (n : Node) : IsIn n n
  | under {n child root : Node} (hchild : child ∈ root.children) (h : IsIn n child) : IsIn n root

/-- Something holds of all nodes in another one if it holds of this one and of all nodes in its
children. -/
theorem forall_isIn_iff {P : Node → Prop} {root : Node} :
    (∀ n : Node, n.IsIn root → P n) ↔
      P root ∧ ∀ child ∈ root.children, ∀ n : Node, n.IsIn child → P n := by
  constructor
  · intro h
    exact ⟨h root (.self root), fun child hchild n hn => h n (.under hchild hn)⟩
  · rintro ⟨hroot, hchildren⟩ n (_ | ⟨hchild, hn⟩)
    · exact hroot
    · exact hchildren _ hchild n hn

/-- What does not grow from a node to its children does not grow from a node to those in it. -/
theorem IsIn.le {measure : Node → Nat}
    (hmeasure : ∀ root, ∀ child ∈ root.children, measure child ≤ measure root) {n root : Node}
    (h : n.IsIn root) : measure n ≤ measure root := by
  induction h with
  | self => exact Nat.le_refl _
  | under hchild _ ih => exact Nat.le_trans ih (hmeasure _ _ hchild)

section Blocks

variable {s : Stmt} {condition : Expr} {body otherwise : List Stmt}

theorem mem_children_of_body (hs : s ∈ body) :
    Node.stmt s ∈ Node.expr condition :: body.map .stmt :=
  List.mem_cons_of_mem _ (List.mem_map_of_mem hs)

theorem mem_children_of_thenBody (hs : s ∈ body) :
    Node.stmt s ∈ Node.expr condition :: (body.map .stmt ++ otherwise.map .stmt) :=
  List.mem_cons_of_mem _ (List.mem_append_left _ (List.mem_map_of_mem hs))

theorem mem_children_of_elseBody (hs : s ∈ otherwise) :
    Node.stmt s ∈ Node.expr condition :: (body.map .stmt ++ otherwise.map .stmt) :=
  List.mem_cons_of_mem _ (List.mem_append_right _ (List.mem_map_of_mem hs))

end Blocks

end Node

/-- A node is one of the statements of a program or somewhere below one. -/
def Program.Contains (program : Program) (n : Node) : Prop :=
  ∃ s ∈ program, n.IsIn (.stmt s)

end Kestrel
