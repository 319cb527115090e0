import Kestrel.Proofs.Program.Blocks
import Kestrel.Proofs.Program.Meaning

/-!
# Names that are read where they are set

A statement may be left out, so an assignment somewhere before a read does not make the read safe.
It does if the read is inside the block that the first assignment stands in directly: a run that
comes to the read has come through that block from its start, and so has gone past the assignment.
Loops that start again change nothing about it, because no name is ever unset.

## Main definitions

- `ReadsSafely` — all reads of a name come after its first assignment and are inside its block

## Main statements

- `Stmt.Runs.keeps_set` — no statement unsets a name
- `Stmt.Runs.ne_unset` — a statement never fails at a name that is read safely
- `Program.Runs.ne_unset` — nor does a program
-/

namespace Kestrel

variable {name : String} {whole : List Site}

/-- All reads of a name come after its first assignment and are inside its block. -/
structure ReadsSafely (name : String) (sites : List Site) : Prop where
  assigned : ∀ before site after, sites = before ++ site :: after →
    ∀ span, site.act = .read name span → name ∈ assignedNames before
  inside : ReadsInside name sites

/-- A name that is read safely is assigned around the read. Sites that assign nothing may come in
front of the read. -/
theorem ReadsSafely.assignedAround {before sites after : List Site} {block : BlockPath}
    (h : ReadsSafely name whole) (hwhole : whole = before ++ (sites ++ after))
    (hnone : ∀ site ∈ sites, site.act.assigned? = none) {span : Span}
    (hread : ⟨block, .read name span⟩ ∈ sites) : AssignedAround name before block := by
  obtain ⟨front, back, rfl⟩ := List.append_of_mem hread
  have hsplit : whole = (before ++ front) ++ ⟨block, .read name span⟩ :: (back ++ after) := by
    rw [hwhole]
    simp
  have hassigned := h.assigned _ _ _ hsplit span rfl
  obtain ⟨first, hfirst⟩ := Option.isSome_iff_exists.1 (firstAssignment?_isSome_iff.2 hassigned)
  have hinside : first.block <+: block := by
    refine h.inside ⟨block, .read name span⟩ ?_ span rfl first ?_
    · rw [hsplit]
      exact List.mem_append_right _ List.mem_cons_self
    · rw [hsplit, firstAssignment?_append, hfirst, Option.some_or]
  -- nothing in front of the read assigns the name, so its first assignment is before all of them
  have haround : AssignedAround name (before ++ front) block := ⟨first, hfirst, hinside⟩
  rcases haround.of_append with haround | ⟨site, hmem, hsite, -⟩
  · exact haround
  · rw [hnone site (List.mem_append_left _ hmem)] at hsite
    cases hsite

/-! ### Where a name is found unset -/

theorem operatorResult_ne_unset (result : Except OperatorFault Value) (name : String) :
    operatorResult result ≠ .error (.unset name) := by
  intro h
  cases result <;> cases h

theorem Environment.eq_none_of_read {values : Environment} {target : String}
    (h : values.read target = .error (.unset name)) : target = name ∧ values name = none := by
  unfold Environment.read at h
  split at h
  · cases h
  · next hnone =>
    cases h
    exact ⟨rfl, hnone⟩

/-- An expression that fails at a name reads it, and it is not set. -/
theorem Expr.read_of_unset {e : Expr} {values : Environment}
    (h : e.value values = .error (.unset name)) (block : BlockPath) :
    values name = none ∧ ∃ span, ⟨block, .read name span⟩ ∈ e.walk block := by
  induction e with
  | number | boolean => cases h
  | name text span =>
    obtain ⟨rfl, hnone⟩ := Environment.eq_none_of_read h
    exact ⟨hnone, span, List.mem_singleton.2 rfl⟩
  | unary op operand span ih =>
    simp only [Expr.value, bind, Except.bind] at h
    split at h
    · next hoperand =>
      cases h
      exact ih hoperand
    · exact absurd h (operatorResult_ne_unset _ name)
  | binary left op right span ihl ihr =>
    simp only [Expr.value, bind, Except.bind] at h
    split at h
    · next hleft =>
      cases h
      obtain ⟨hnone, span', hmem⟩ := ihl hleft
      exact ⟨hnone, span', List.mem_append_left _ hmem⟩
    · split at h
      · next hright =>
        cases h
        obtain ⟨hnone, span', hmem⟩ := ihr hright
        exact ⟨hnone, span', List.mem_append_right _ hmem⟩
      · exact absurd h (operatorResult_ne_unset _ name)

theorem Expr.value_of_truth_unset {c : Expr} {values : Environment}
    (h : c.truth values = .error (.unset name)) : c.value values = .error (.unset name) := by
  simp only [Expr.truth, bind, Except.bind] at h
  split at h
  · next hvalue =>
    cases h
    exact hvalue
  · split at h <;> cases h

/-- An assignment that fails at a name reads it before it assigns anything. -/
theorem read_of_assigned_unset {target : String} {op : AssignOp} {e : Expr}
    {values : Environment} (h : assignedValue values target op e = .error (.unset name))
    (block : BlockPath) (span : Span) :
    values name = none ∧ ∃ reads, assignmentWalk block target op e span =
      reads ++ [⟨block, .assign target span⟩] ∧ (∀ site ∈ reads, site.act.assigned? = none) ∧
      ∃ span', ⟨block, .read name span'⟩ ∈ reads := by
  have hwalk : ∀ site ∈ e.walk block, site.act.assigned? = none :=
    fun site hsite => (Expr.mem_walk hsite).2
  unfold assignedValue at h
  unfold assignmentWalk
  cases hop : op.binaryOp? with
  | none =>
    simp only [hop] at h
    obtain ⟨hnone, span', hmem⟩ := Expr.read_of_unset h block
    exact ⟨hnone, e.walk block, rfl, hwalk, span', hmem⟩
  | some binary =>
    have hreads : ∀ site ∈ ⟨block, .read target span⟩ :: e.walk block,
        site.act.assigned? = none := List.forall_mem_cons.2 ⟨rfl, hwalk⟩
    simp only [hop, bind, Except.bind] at h
    split at h
    · next hread =>
      cases h
      obtain ⟨rfl, hnone⟩ := Environment.eq_none_of_read hread
      exact ⟨hnone, _, rfl, hreads, span, List.mem_cons_self⟩
    · split at h
      · next hvalue =>
        cases h
        obtain ⟨hnone, span', hmem⟩ := Expr.read_of_unset hvalue block
        exact ⟨hnone, _, rfl, hreads, span', List.mem_cons_of_mem _ hmem⟩
      · exact absurd h (operatorResult_ne_unset _ name)

/-! ### Names stay set -/

theorem State.isSome_assign (st : State) (name : String) (v : Value) {other : String}
    (h : (st.values other).isSome) : ((st.assign name v).values other).isSome := by
  unfold State.assign
  by_cases heq : other = name
  · simp [heq]
  · simpa [heq] using h

mutual

/-- No statement unsets a name. -/
theorem Stmt.Runs.keeps_set {s : Stmt} {st st' : State} {exit : Exit} (h : s.Runs st st' exit)
    (hset : (st.values name).isSome) : (st'.values name).isSome := by
  match h with
  | .expression _ | .expressionFails _ | .assignFails _ | .print _ | .printFails _
  | .ifThenFails _ | .ifElseFails _ | .whileEnds _ | .whileFails _ | .breakLoop
  | .continueLoop => exact hset
  | .assign _ => exact st.isSome_assign _ _ hset
  | .ifThen _ hbranch => exact hbranch.keeps_set hset
  | .ifElse _ hbranch => exact hbranch.keeps_set hset
  | .whileRepeats _ hbody _ hrest => exact hrest.keeps_set (hbody.keeps_set hset)
  | .whileBreaks _ hbody => exact hbody.keeps_set hset
  | .whileBodyFails _ hbody => exact hbody.keeps_set hset
termination_by structural h

theorem Stmt.RunsAll.keeps_set {ss : List Stmt} {st st' : State} {exit : Exit}
    (h : Stmt.RunsAll ss st st' exit) (hset : (st.values name).isSome) :
    (st'.values name).isSome := by
  match h with
  | .nil => exact hset
  | .cons hs hrest => exact hrest.keeps_set (hs.keeps_set hset)
  | .stop hs _ => exact hs.keeps_set hset
termination_by structural h

end

/-! ### Runs along the walk -/

/-- A run has come to some sites of a walk, which follow those in `before`: they are those of the
statements of a block from the one with this index on, or start with them. A name that is assigned
around them is set. -/
structure Arrives (name : String) (whole before : List Site) (block : BlockPath) (index : Nat)
    (st : State) (sites : List Site) : Prop where
  split : ∃ after, whole = before ++ (sites ++ after)
  unvisited : Unvisited before block index
  set : AssignedAround name before block → (st.values name).isSome

namespace Arrives

variable {before sites sites' : List Site} {block : BlockPath} {index : Nat} {st st' : State}

theorem weaken (h : Arrives name whole before block index st sites) (hfront : sites' <+: sites) :
    Arrives name whole before block index st sites' where
  split := by
    obtain ⟨rest, rfl⟩ := hfront
    obtain ⟨after, hwhole⟩ := h.split
    exact ⟨rest ++ after, by rw [hwhole, List.append_assoc]⟩
  unvisited := h.unvisited
  set := h.set

/-- Names that are set stay so while a loop starts again. -/
theorem again (h : Arrives name whole before block index st sites)
    (hkeeps : (st.values name).isSome → (st'.values name).isSome) :
    Arrives name whole before block index st' sites :=
  ⟨h.split, h.unvisited, fun haround => hkeeps (h.set haround)⟩

/-- From a condition, a run comes into the block behind it. -/
theorem inner {c : Expr} (h : Arrives name whole before block index st (c.walk block ++ sites))
    (kind : BlockKind) :
    Arrives name whole (before ++ c.walk block) (block ++ [(index, kind)]) 0 st sites where
  split := by
    obtain ⟨after, hwhole⟩ := h.split
    exact ⟨after, by rw [hwhole]; simp⟩
  unvisited := (h.unvisited.append (.of_expression c block index)).inner kind
  set haround := h.set (haround.of_expression.outer h.unvisited)

/-- From a condition, a run comes past the block behind it into the other one. -/
theorem otherwise {c : Expr} {body : List Stmt}
    (h : Arrives name whole before block index st
      (c.walk block ++ (Stmt.walkAll (block ++ [(index, .thenBlock)]) 0 body ++ sites))) :
    Arrives name whole
      (before ++ c.walk block ++ Stmt.walkAll (block ++ [(index, .thenBlock)]) 0 body)
      (block ++ [(index, .elseBlock)]) 0 st sites where
  split := by
    obtain ⟨after, hwhole⟩ := h.split
    exact ⟨after, by rw [hwhole]; simp⟩
  unvisited := (h.inner .elseBlock).unvisited.append (.of_otherBlock body block index nofun)
  set haround := by
    rcases haround.of_append with haround | ⟨site, hmem, -, hblock⟩
    · exact (h.inner .elseBlock).set haround
    · cases Unvisited.inner_eq_of_prefix ((Stmt.prefix_of_mem_walkAll hmem).trans hblock)
        (List.prefix_refl _)

/-- From a condition, a run comes into the one block behind it or past it. -/
theorem branch {c : Expr} {body : List Stmt} (b : Bool)
    (h : Arrives name whole before block index st
      (c.walk block ++ Stmt.walkAll (block ++ [(index, .thenBlock)]) 0 body)) :
    ∃ before' block', Arrives name whole before' block' 0 st
      (Stmt.walkAll block' 0 (if b then body else [])) := by
  cases b with
  | true => exact ⟨_, _, h.inner .thenBlock⟩
  | false => exact ⟨_, _, (h.inner .thenBlock).weaken (List.nil_prefix)⟩

/-- From a condition, a run comes into one of the two blocks behind it. -/
theorem eitherBranch {c : Expr} {body otherwise : List Stmt} (b : Bool)
    (h : Arrives name whole before block index st
      (c.walk block ++ (Stmt.walkAll (block ++ [(index, .thenBlock)]) 0 body ++
        Stmt.walkAll (block ++ [(index, .elseBlock)]) 0 otherwise))) :
    ∃ before' block', Arrives name whole before' block' 0 st
      (Stmt.walkAll block' 0 (if b then body else otherwise)) := by
  cases b with
  | true => exact ⟨_, _, (h.inner .thenBlock).weaken (List.prefix_append _ _)⟩
  | false => exact ⟨_, _, h.otherwise⟩

/-- In front of an expression, what is read safely is set. -/
theorem value_ne_unset {e : Expr} (h : Arrives name whole before block index st sites)
    (hsafe : ReadsSafely name whole) (hfront : e.walk block <+: sites) :
    e.value st.values ≠ .error (.unset name) := by
  intro hunset
  obtain ⟨hnone, span, hread⟩ := Expr.read_of_unset hunset block
  obtain ⟨after, hwhole⟩ := (h.weaken hfront).split
  have haround := hsafe.assignedAround hwhole (fun site hsite => (Expr.mem_walk hsite).2) hread
  have hset := h.set haround
  rw [hnone] at hset
  cases hset

theorem truth_ne_unset {c : Expr}
    (h : Arrives name whole before block index st (c.walk block ++ sites))
    (hsafe : ReadsSafely name whole) : c.truth st.values ≠ .error (.unset name) := by
  intro hunset
  exact h.value_ne_unset hsafe (List.prefix_append _ _) (Expr.value_of_truth_unset hunset)

theorem assigned_ne_unset {target : String} {op : AssignOp} {e : Expr} {span : Span}
    (h : Arrives name whole before block index st (assignmentWalk block target op e span))
    (hsafe : ReadsSafely name whole) :
    assignedValue st.values target op e ≠ .error (.unset name) := by
  intro hunset
  obtain ⟨hnone, reads, hwalk, hreads, span', hread⟩ := read_of_assigned_unset hunset block span
  rw [hwalk] at h
  obtain ⟨after, hwhole⟩ := (h.weaken (List.prefix_append _ _)).split
  have hset := h.set (hsafe.assignedAround hwhole hreads hread)
  rw [hnone] at hset
  cases hset

/-- Behind a statement that is done, what is assigned around it is set. -/
theorem rest {s : Stmt}
    (h : Arrives name whole before block index st (s.walk block index ++ sites))
    (hruns : s.Runs st st' .done) :
    Arrives name whole (before ++ s.walk block index) block (index + 1) st' sites where
  split := by
    obtain ⟨after, hwhole⟩ := h.split
    exact ⟨after, by rw [hwhole]; simp⟩
  unvisited := (h.unvisited.mono (Nat.le_succ index)).append (.of_statement s block index)
  set haround := by
    rcases haround.of_statement with haround | ⟨op, value, span, rfl⟩
    · exact hruns.keeps_set (h.set haround)
    · cases hruns with
      | assign => simp [State.assign]

end Arrives

mutual

/-- A statement never fails at a name that is read safely. -/
theorem Stmt.Runs.ne_unset {s : Stmt} {st st' : State} {exit : Exit} (h : s.Runs st st' exit)
    (hsafe : ReadsSafely name whole) {before : List Site} {block : BlockPath} {index : Nat}
    (harrives : Arrives name whole before block index st (s.walk block index)) :
    exit ≠ .failed (.unset name) := by
  match h with
  | .expression _ | .assign _ | .print _ | .whileEnds _ | .whileBreaks _ _ | .breakLoop
  | .continueLoop => exact nofun
  | .expressionFails he | .printFails he =>
    rintro ⟨⟩
    exact harrives.value_ne_unset hsafe (List.prefix_refl _) he
  | .assignFails he =>
    rintro ⟨⟩
    exact harrives.assigned_ne_unset hsafe he
  | .ifThen (b := b) _ hbranch =>
    obtain ⟨_, _, hinner⟩ := harrives.branch b
    exact hbranch.ne_unset hsafe hinner
  | .ifElse (b := b) _ hbranch =>
    obtain ⟨_, _, hinner⟩ := harrives.eitherBranch b
    exact hbranch.ne_unset hsafe hinner
  | .ifThenFails hc | .ifElseFails hc | .whileFails hc =>
    rintro ⟨⟩
    exact harrives.truth_ne_unset hsafe hc
  | .whileRepeats _ hbody _ hrest =>
    exact hrest.ne_unset hsafe (harrives.again hbody.keeps_set)
  | .whileBodyFails _ hbody => exact hbody.ne_unset hsafe (harrives.inner .loopBody)
termination_by structural h

theorem Stmt.RunsAll.ne_unset {ss : List Stmt} {st st' : State} {exit : Exit}
    (h : Stmt.RunsAll ss st st' exit) (hsafe : ReadsSafely name whole) {before : List Site}
    {block : BlockPath} {index : Nat}
    (harrives : Arrives name whole before block index st (Stmt.walkAll block index ss)) :
    exit ≠ .failed (.unset name) := by
  match h with
  | .nil => exact nofun
  | .cons hs hrest => exact hrest.ne_unset hsafe (harrives.rest hs)
  | .stop hs _ => exact hs.ne_unset hsafe (harrives.weaken (List.prefix_append _ _))
termination_by structural h

end

/-- Leaving a value at the top level is a statement like any other as far as names go. -/
theorem Stmt.RunsTop.runs_or_left {s : Stmt} {st st' : State} {exit : Exit}
    (h : s.RunsTop st st' exit) : ∃ st₁, s.Runs st st₁ exit ∧ st₁.values = st'.values := by
  cases h with
  | expression he => exact ⟨st, .expression he, rfl⟩
  | expressionFails he => exact ⟨st, .expressionFails he, rfl⟩
  | other _ hruns => exact ⟨st', hruns, rfl⟩

/-- A program never fails at a name that is read safely. -/
theorem Program.Runs.ne_unset {program : Program} {st st' : State} {exit : Exit}
    (h : program.Runs st st' exit) (hsafe : ReadsSafely name whole) {before : List Site}
    {block : BlockPath} {index : Nat}
    (harrives : Arrives name whole before block index st (Stmt.walkAll block index program)) :
    exit ≠ .failed (.unset name) := by
  induction h generalizing before index with
  | nil => exact nofun
  | cons hs hrest ih =>
    obtain ⟨st₁, hruns, hvalues⟩ := hs.runs_or_left
    refine ih ((harrives.rest hruns).again ?_)
    rw [hvalues]
    exact id
  | stop hs _ =>
    obtain ⟨st₁, hruns, -⟩ := hs.runs_or_left
    exact hruns.ne_unset hsafe (harrives.weaken (List.prefix_append _ _))

end Kestrel
