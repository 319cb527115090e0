import Kestrel.Proofs.Program.Walk

/-!
# Blocks on the walk

Which sites of a walk are in which block. The blocks of different statements have no site in common,
nor have the two blocks of one statement, so the walk comes to a block once and leaves it for good.

## Main definitions

- `firstAssignment?` — the first site that assigns a name
- `ReadsInside` — all reads of a name are inside the block of its first assignment
- `AssignedAround` — a name is assigned, and first of all in a block or around it
- `Unvisited` — no site is in the blocks of the statements from some index on

## Main statements

- `forall_readsInside_iff` — whether the reads of all names are inside can be decided
- `Stmt.mem_walk`, `Stmt.prefix_of_mem_walkAll` — where the sites of a statement and of a block are
- `Stmt.assigns_of_mem_walk` — what assigns a name in its own block is an assignment
- `AssignedAround.outer`, `AssignedAround.of_statement` — how a name comes to be assigned around
-/

namespace Kestrel

/-! ### Reads and first assignments -/

/-- The first site that assigns a name. -/
def firstAssignment? (name : String) (sites : List Site) : Option Site :=
  sites.find? fun site => site.act.assigned? == some name

/-- All reads of a name are inside the block that its first assignment stands in directly. -/
def ReadsInside (name : String) (sites : List Site) : Prop :=
  ∀ site ∈ sites, ∀ span, site.act = .read name span →
    ∀ first, firstAssignment? name sites = some first → first.block <+: site.block

/-- Some sites assign a name, and the first one that does stands in a block or in one around it. -/
def AssignedAround (name : String) (sites : List Site) (block : BlockPath) : Prop :=
  ∃ first, firstAssignment? name sites = some first ∧ first.block <+: block

theorem firstAssignment?_append (name : String) (sites sites' : List Site) :
    firstAssignment? name (sites ++ sites') =
      (firstAssignment? name sites).or (firstAssignment? name sites') :=
  List.find?_append

theorem firstAssignment?_isSome_iff {name : String} {sites : List Site} :
    (firstAssignment? name sites).isSome ↔ name ∈ assignedNames sites := by
  simp [firstAssignment?, assignedNames, List.find?_isSome]

theorem firstAssignment?_eq_some {name : String} {sites : List Site} {first : Site}
    (h : firstAssignment? name sites = some first) :
    first ∈ sites ∧ first.act.assigned? = some name := by
  refine ⟨List.mem_of_find?_eq_some h, ?_⟩
  simpa using List.find?_some h

/-- Whether the reads of all names are inside can be decided read by read. -/
theorem forall_readsInside_iff {sites : List Site} :
    (∀ name, ReadsInside name sites) ↔ ∀ site ∈ sites, ∀ name ∈ site.act.read?,
      ∀ first ∈ firstAssignment? name sites, first.block <+: site.block := by
  constructor
  · intro h site hsite name hname
    obtain ⟨block, act⟩ := site
    cases act with
    | read other span =>
      cases hname
      exact h _ _ hsite span rfl
    | assign | breakLoop | continueLoop => cases hname
  · intro h name site hsite span hread first hfirst
    exact h site hsite name (by rw [hread]; rfl) first hfirst

/-- A name that a branch assigns is read outside when it is read behind the branch. -/
example : ¬ ∀ name, ReadsInside name (Program.walk
    [.ifThen (.boolean true ⟨3, 7⟩) [.assign "x" .set (.number 1 ⟨14, 15⟩) ⟨10, 15⟩] ⟨0, 17⟩,
      .print (.name "x" ⟨24, 25⟩) ⟨18, 26⟩]) :=
  mt forall_readsInside_iff.1 (by decide)

theorem AssignedAround.of_append {name : String} {before sites : List Site} {block : BlockPath}
    (h : AssignedAround name (before ++ sites) block) :
    AssignedAround name before block ∨
      ∃ site ∈ sites, site.act.assigned? = some name ∧ site.block <+: block := by
  obtain ⟨first, hfirst, hblock⟩ := h
  rw [firstAssignment?_append] at hfirst
  rcases Option.or_eq_some_iff.1 hfirst with hbefore | ⟨-, hsites⟩
  · exact .inl ⟨first, hbefore, hblock⟩
  · obtain ⟨hmem, hassigned⟩ := firstAssignment?_eq_some hsites
    exact .inr ⟨first, hmem, hassigned, hblock⟩

/-! ### The blocks on a walk -/

theorem Expr.mem_walk {e : Expr} {block : BlockPath} {site : Site} (h : site ∈ e.walk block) :
    site.block = block ∧ site.act.assigned? = none := by
  induction e with
  | number | boolean => cases h
  | name text span =>
    obtain rfl := List.mem_singleton.1 h
    exact ⟨rfl, rfl⟩
  | unary op operand span ih => exact ih h
  | binary left op right span ihl ihr =>
    rcases List.mem_append.1 h with h | h
    · exact ihl h
    · exact ihr h

theorem mem_assignmentWalk {block : BlockPath} {name : String} {op : AssignOp} {value : Expr}
    {span : Span} {site : Site} (h : site ∈ assignmentWalk block name op value span) :
    site.block = block := by
  unfold assignmentWalk at h
  rcases List.mem_append.1 h with h | h
  · split at h
    · obtain rfl := List.mem_singleton.1 h
      rfl
    · cases h
  · rcases List.mem_append.1 h with h | h
    · exact (Expr.mem_walk h).1
    · obtain rfl := List.mem_singleton.1 h
      rfl

mutual

/-- The sites of a statement stand in its own block or inside one of the blocks that it has. -/
theorem Stmt.mem_walk {s : Stmt} {block : BlockPath} {index : Nat} {site : Site}
    (h : site ∈ s.walk block index) :
    site.block = block ∨ ∃ kind, block ++ [(index, kind)] <+: site.block := by
  cases s with
  | expression e span | print e span => exact .inl (Expr.mem_walk h).1
  | assign name op e span => exact .inl (mem_assignmentWalk h)
  | ifThen c body span =>
    rcases List.mem_append.1 h with h | h
    · exact .inl (Expr.mem_walk h).1
    · exact .inr ⟨.thenBlock, Stmt.prefix_of_mem_walkAll h⟩
  | ifElse c body otherwise span =>
    rcases List.mem_append.1 h with h | h
    · exact .inl (Expr.mem_walk h).1
    · rcases List.mem_append.1 h with h | h
      · exact .inr ⟨.thenBlock, Stmt.prefix_of_mem_walkAll h⟩
      · exact .inr ⟨.elseBlock, Stmt.prefix_of_mem_walkAll h⟩
  | whileDo c body span =>
    rcases List.mem_append.1 h with h | h
    · exact .inl (Expr.mem_walk h).1
    · exact .inr ⟨.loopBody, Stmt.prefix_of_mem_walkAll h⟩
  | breakLoop span | continueLoop span =>
    obtain rfl := List.mem_singleton.1 h
    exact .inl rfl

theorem Stmt.prefix_of_mem_walkAll {ss : List Stmt} {block : BlockPath} {index : Nat} {site : Site}
    (h : site ∈ Stmt.walkAll block index ss) : block <+: site.block := by
  cases ss with
  | nil => cases h
  | cons s rest =>
    rcases List.mem_append.1 h with h | h
    · rcases Stmt.mem_walk h with heq | ⟨kind, hinside⟩
      · exact heq ▸ List.prefix_refl block
      · exact (List.prefix_append _ _).trans hinside
    · exact Stmt.prefix_of_mem_walkAll h

end

/-- Only an assignment assigns a name in the block that it stands in itself. -/
theorem Stmt.assigns_of_mem_walk {s : Stmt} {block : BlockPath} {index : Nat} {site : Site}
    {name : String} (h : site ∈ s.walk block index) (hassigned : site.act.assigned? = some name)
    (hblock : site.block <+: block) : ∃ op value span, s = .assign name op value span := by
  -- blocks of the statement are longer paths, and sites in its conditions assign nothing
  have hcondition : ∀ {c : Expr}, site ∉ c.walk block := by
    intro c hc
    rw [(Expr.mem_walk hc).2] at hassigned
    cases hassigned
  have hinner : ∀ {ss : List Stmt} {kind : BlockKind},
      site ∉ Stmt.walkAll (block ++ [(index, kind)]) 0 ss := by
    intro ss kind hss
    have hlength := ((Stmt.prefix_of_mem_walkAll hss).trans hblock).length_le
    simp only [List.length_append, List.length_singleton] at hlength
    omega
  cases s with
  | expression e span | print e span => exact absurd h hcondition
  | assign other op e span =>
    refine ⟨op, e, span, ?_⟩
    simp only [Stmt.walk, assignmentWalk, List.mem_append, List.mem_singleton] at h
    rcases h with h | h | rfl
    · split at h
      · obtain rfl := List.mem_singleton.1 h
        cases hassigned
      · cases h
    · exact absurd h hcondition
    · cases hassigned
      rfl
  | ifThen c body span | whileDo c body span =>
    rcases List.mem_append.1 h with h | h
    · exact absurd h hcondition
    · exact absurd h hinner
  | ifElse c body otherwise span =>
    rcases List.mem_append.1 h with h | h
    · exact absurd h hcondition
    · rcases List.mem_append.1 h with h | h
      · exact absurd h hinner
      · exact absurd h hinner
  | breakLoop span | continueLoop span =>
    obtain rfl := List.mem_singleton.1 h
    cases hassigned

/-- No site stands in a block of the statements of `block` from the one with this index on. -/
def Unvisited (sites : List Site) (block : BlockPath) (index : Nat) : Prop :=
  ∀ site ∈ sites, ∀ i kind, index ≤ i → ¬ block ++ [(i, kind)] <+: site.block

namespace Unvisited

variable {sites sites' : List Site} {block : BlockPath} {index : Nat}

theorem nil (block : BlockPath) (index : Nat) : Unvisited [] block index :=
  fun _ hmem => absurd hmem List.not_mem_nil

theorem append (h : Unvisited sites block index) (h' : Unvisited sites' block index) :
    Unvisited (sites ++ sites') block index := by
  intro site hmem
  rcases List.mem_append.1 hmem with hmem | hmem
  · exact h site hmem
  · exact h' site hmem

theorem mono (h : Unvisited sites block index) {index' : Nat} (hle : index ≤ index') :
    Unvisited sites block index' :=
  fun site hmem i kind hi => h site hmem i kind (Nat.le_trans hle hi)

/-- What is not in a block is in none of the blocks inside it. -/
theorem inner (h : Unvisited sites block index) (kind : BlockKind) :
    Unvisited sites (block ++ [(index, kind)]) 0 := by
  intro site hmem i kind' _ hinside
  exact h site hmem index kind (Nat.le_refl _) ((List.prefix_append _ _).trans hinside)

theorem of_expression (e : Expr) (block : BlockPath) (index : Nat) :
    Unvisited (e.walk block) block index := by
  intro site hmem i kind _ hinside
  have hlength := hinside.length_le
  rw [(Expr.mem_walk hmem).1] at hlength
  simp only [List.length_append, List.length_singleton] at hlength
  omega

theorem inner_eq_of_prefix {path : BlockPath} {a b : Nat × BlockKind}
    (ha : block ++ [a] <+: path) (hb : block ++ [b] <+: path) : a = b := by
  have hfront : block ++ [a] <+: block ++ [b] :=
    List.prefix_of_prefix_length_le ha hb (by simp)
  have heq := hfront.eq_of_length (by simp)
  exact List.singleton_inj.1 (List.append_cancel_left heq)

theorem of_statement (s : Stmt) (block : BlockPath) (index : Nat) :
    Unvisited (s.walk block index) block (index + 1) := by
  intro site hmem i kind hi hinside
  rcases Stmt.mem_walk hmem with heq | ⟨kind', hinside'⟩
  · have hlength := hinside.length_le
    rw [heq] at hlength
    simp only [List.length_append, List.length_singleton] at hlength
    omega
  · cases inner_eq_of_prefix hinside hinside'
    omega

/-- The blocks of one statement have no site in common. -/
theorem of_otherBlock (ss : List Stmt) (block : BlockPath) (index : Nat) {kind kind' : BlockKind}
    (hne : kind ≠ kind') :
    Unvisited (Stmt.walkAll (block ++ [(index, kind)]) 0 ss) (block ++ [(index, kind')]) 0 := by
  intro site hmem i kind'' _ hinside
  have hinside' : block ++ [(index, kind')] <+: site.block :=
    (List.prefix_append _ _).trans hinside
  cases inner_eq_of_prefix (Stmt.prefix_of_mem_walkAll hmem) hinside'
  exact hne rfl

end Unvisited

namespace AssignedAround

variable {name : String} {sites : List Site} {block : BlockPath} {index : Nat}

/-- In front of a block of a statement, what is assigned around the block is assigned around the
statement. -/
theorem outer {kind : BlockKind} (h : AssignedAround name sites (block ++ [(index, kind)]))
    (hunvisited : Unvisited sites block index) : AssignedAround name sites block := by
  obtain ⟨first, hfirst, hblock⟩ := h
  rcases List.prefix_concat_iff.1 hblock with heq | hblock
  · have hmem := (firstAssignment?_eq_some hfirst).1
    exact absurd (heq ▸ List.prefix_refl _) (hunvisited first hmem index kind (Nat.le_refl _))
  · exact ⟨first, hfirst, hblock⟩

theorem of_expression {e : Expr} {block' : BlockPath}
    (h : AssignedAround name (sites ++ e.walk block') block) : AssignedAround name sites block := by
  rcases h.of_append with h | ⟨site, hmem, hassigned, -⟩
  · exact h
  · rw [(Expr.mem_walk hmem).2] at hassigned
    cases hassigned

/-- Behind a statement, what is assigned around it was so in front of it, or the statement is the
assignment. -/
theorem of_statement {s : Stmt} (h : AssignedAround name (sites ++ s.walk block index) block) :
    AssignedAround name sites block ∨ ∃ op value span, s = .assign name op value span := by
  rcases h.of_append with h | ⟨site, hmem, hassigned, hblock⟩
  · exact .inl h
  · exact .inr (Stmt.assigns_of_mem_walk hmem hassigned hblock)

end AssignedAround

end Kestrel
