import Kestrel.Bytecode.Scope

/-!
# Names and their registers

The walk over a program only ever adds names to the scope, and it gives each name a register that no
other name has. So a name keeps the register that it was first given, and the scope at the end knows
every name that the program reads or assigns.

## Main definitions

- `Scope.Within` — a scope knows what another one knows, with the same registers
- `Scope.Numbered` — registers are given in order and to one name each
- `Expr.KnownIn`, `Stmt.KnownIn` — every name has a register, and loops are left from inside only

## Main statements

- `Stmt.walked_of_declare` — what the walk over a statement does to the scope
- `Program.known_of_scope` — a program that is accepted is known in its own scope
-/

namespace Kestrel

theorem Register.eq_of_index {r r' : Register} (h : r.index = r'.index) : r = r' := by
  cases r
  cases r'
  cases h
  rfl

namespace Scope

theorem register_eq {scope : Scope} {name : String} {r : Register}
    (h : scope.register? name = some r) : scope.register name = r := by
  rw [register, h, Option.getD_some]

theorem register_of_isSome {scope : Scope} {name : String}
    (h : (scope.register? name).isSome) : scope.register? name = some (scope.register name) := by
  obtain ⟨r, hr⟩ := Option.isSome_iff_exists.1 h
  rw [register_eq hr, hr]

/-- A scope knows what this one knows, with the same registers. -/
def Within (scope scope' : Scope) : Prop :=
  ∀ name r, scope.register? name = some r → scope'.register? name = some r

theorem Within.refl (scope : Scope) : scope.Within scope := fun _ _ h => h

theorem Within.trans {scope₁ scope₂ scope₃ : Scope} (h : scope₁.Within scope₂)
    (h' : scope₂.Within scope₃) : scope₁.Within scope₃ :=
  fun name r hr => h' name r (h name r hr)

/-- Registers are given in order, and to one name each. -/
structure Numbered (scope : Scope) : Prop where
  index_lt : ∀ {name r}, scope.register? name = some r → r.index < scope.registers.size
  name_unique : ∀ {name name' r}, scope.register? name = some r →
    scope.register? name' = some r → name = name'

theorem numbered_empty : empty.Numbered where
  index_lt h := by simp [register?, empty] at h
  name_unique h := by simp [register?, empty] at h

/-- What becomes of a scope when a name is added: nothing if it is known, and otherwise the name
gets the next register. -/
theorem assign?_cases {scope scope' : Scope} {name : String}
    (h : scope.assign? name = some scope') :
    (∃ r, scope.register? name = some r ∧ scope' = scope) ∨
    (scope.register? name = none ∧ ∃ r : Register, r.index = scope.registers.size ∧
      scope'.registers.size = scope.registers.size + 1 ∧
      ∀ other, scope'.register? other =
        if name = other then some r else scope.register? other) := by
  unfold assign? at h
  cases hname : scope.register? name with
  | some r =>
    simp only [hname, Option.some.injEq] at h
    exact .inl ⟨r, rfl, h.symm⟩
  | none =>
    simp only [hname] at h
    split at h
    · next hsize =>
      obtain rfl := Option.some.inj h
      have hnot : name ∉ scope.registers := by
        simpa [register?] using hname
      refine .inr ⟨rfl, ⟨scope.registers.size, hsize⟩, rfl, ?_, fun other => ?_⟩
      · simp [Std.HashMap.size_insert, hnot]
      · simp only [register?, Std.HashMap.getElem?_insert, beq_iff_eq]
    · simp at h

theorem within_of_assign? {scope scope' : Scope} {name : String}
    (h : scope.assign? name = some scope') : scope.Within scope' := by
  rcases assign?_cases h with ⟨r, -, rfl⟩ | ⟨hnone, r, -, -, hall⟩
  · exact .refl _
  · intro other r' hr'
    rw [hall other]
    split
    · next heq =>
      subst heq
      simp [hnone] at hr'
    · exact hr'

theorem isSome_register?_of_assign? {scope scope' : Scope} {name : String}
    (h : scope.assign? name = some scope') : (scope'.register? name).isSome := by
  rcases assign?_cases h with ⟨r, hr, rfl⟩ | ⟨-, r, -, -, hall⟩
  · simp [hr]
  · simp [hall name]

theorem Numbered.assign? {scope scope' : Scope} {name : String} (hn : scope.Numbered)
    (h : scope.assign? name = some scope') : scope'.Numbered := by
  rcases assign?_cases h with ⟨r, -, rfl⟩ | ⟨hnone, r, hindex, hsize, hall⟩
  · exact hn
  · constructor
    · intro other r' hr'
      rw [hall other] at hr'
      split at hr'
      · obtain rfl := Option.some.inj hr'
        omega
      · have := hn.index_lt hr'
        omega
    · intro a b r' ha hb
      rw [hall a] at ha
      rw [hall b] at hb
      -- the new register lies behind all that are given, so no old name has it
      split at ha <;> split at hb
      · next h₁ h₂ => exact h₁.symm.trans h₂
      · obtain rfl := Option.some.inj ha
        have := hn.index_lt hb
        omega
      · obtain rfl := Option.some.inj hb
        have := hn.index_lt ha
        omega
      · exact hn.name_unique ha hb

end Scope

/-- Every name in an expression has a register. -/
def Expr.KnownIn (scope : Scope) : Expr → Prop
  | .number _ _ => True
  | .boolean _ _ => True
  | .name text _ => (scope.register? text).isSome
  | .unary _ operand _ => operand.KnownIn scope
  | .binary left _ right _ => left.KnownIn scope ∧ right.KnownIn scope

mutual

/-- Every name in a statement has a register, and it leaves or restarts a loop only inside one. -/
def Stmt.KnownIn (scope : Scope) (inLoop : Bool) : Stmt → Prop
  | .expression value _ => value.KnownIn scope
  | .assign name _ value _ => (scope.register? name).isSome ∧ value.KnownIn scope
  | .print value _ => value.KnownIn scope
  | .ifThen condition body _ => condition.KnownIn scope ∧ Stmt.AllKnownIn scope inLoop body
  | .ifElse condition body otherwise _ =>
    condition.KnownIn scope ∧ Stmt.AllKnownIn scope inLoop body ∧
      Stmt.AllKnownIn scope inLoop otherwise
  | .whileDo condition body _ => condition.KnownIn scope ∧ Stmt.AllKnownIn scope true body
  | .breakLoop _ => inLoop = true
  | .continueLoop _ => inLoop = true

/-- This holds of every statement of a block. -/
def Stmt.AllKnownIn (scope : Scope) (inLoop : Bool) : List Stmt → Prop
  | [] => True
  | s :: rest => s.KnownIn scope inLoop ∧ Stmt.AllKnownIn scope inLoop rest

end

theorem Stmt.allKnownIn_nil (scope : Scope) (inLoop : Bool) :
    Stmt.AllKnownIn scope inLoop [] := trivial

section Walk

variable {scope scope' final : Scope}

theorem Scope.Within.isSome {name : String} (h : scope.Within scope')
    (hname : (scope.register? name).isSome) : (scope'.register? name).isSome := by
  obtain ⟨r, hr⟩ := Option.isSome_iff_exists.1 hname
  simp [h name r hr]

theorem Scope.isSome_of_read {name : String} {span : Span} (h : scope.read name span = .ok ()) :
    (scope.register? name).isSome := by
  unfold Scope.read at h
  split at h
  · next hname => simp [hname]
  · simp at h

theorem Expr.known_of_check {e : Expr} (h : e.check scope = .ok ()) (hle : scope.Within final) :
    e.KnownIn final := by
  induction e with
  | number | boolean => trivial
  | name text span => exact hle.isSome (Scope.isSome_of_read h)
  | unary op operand span ih => exact ih h
  | binary left op right span ihl ihr =>
    simp only [Expr.check] at h
    split at h
    · simp at h
    · next hleft => exact ⟨ihl hleft, ihr h⟩

theorem Scope.assign?_of_assign {name : String} {span : Span}
    (h : scope.assign name span = .ok scope') : scope.assign? name = some scope' := by
  unfold Scope.assign at h
  split at h
  · next hassign =>
    cases h
    exact hassign
  · simp at h

/-- What the check of an assignment finds out: the value is known before, and the name after. -/
theorem of_checkAssignment {name : String} {op : AssignOp} {value : Expr} {span : Span}
    (h : checkAssignment scope name op value span = .ok scope') :
    value.check scope = .ok () ∧ scope.assign? name = some scope' := by
  -- the read of a combining assignment stands in front and leaves the scope as it is
  have hrest : (value.check scope).bind (fun _ => scope.assign name span) = .ok scope' := by
    unfold checkAssignment at h
    simp only [bind, Except.bind] at h
    split at h
    · split at h
      · simp at h
      · exact h
    · exact h
  cases hvalue : value.check scope with
  | error e => simp [hvalue, Except.bind] at hrest
  | ok u =>
    simp only [hvalue, Except.bind] at hrest
    exact ⟨rfl, Scope.assign?_of_assign hrest⟩

end Walk

/-- What every step of the walk does to the scope: it keeps the numbering, it keeps what is known,
and it makes the construct known. -/
structure Walked (scope scope' : Scope) (known : Scope → Prop) : Prop where
  numbered : scope.Numbered → scope'.Numbered
  within : scope.Within scope'
  known : ∀ final, scope'.Within final → known final

theorem walked_of_check {scope : Scope} {e : Expr} (h : e.check scope = .ok ()) :
    Walked scope scope (fun final => e.KnownIn final) :=
  ⟨id, .refl scope, fun _ hle => e.known_of_check h hle⟩

theorem walked_of_assign? {scope scope' : Scope} {name : String}
    (h : scope.assign? name = some scope') :
    Walked scope scope' (fun final => (final.register? name).isSome) :=
  ⟨fun hn => hn.assign? h, Scope.within_of_assign? h,
    fun _ hle => hle.isSome (Scope.isSome_register?_of_assign? h)⟩

theorem Walked.andThen {scope₁ scope₂ scope₃ : Scope} {p q : Scope → Prop}
    (h : Walked scope₁ scope₂ p) (h' : Walked scope₂ scope₃ q) :
    Walked scope₁ scope₃ (fun final => p final ∧ q final) where
  numbered hn := h'.numbered (h.numbered hn)
  within := h.within.trans h'.within
  known final hle := ⟨h.known final (h'.within.trans hle), h'.known final hle⟩

theorem Walked.imp {scope scope' : Scope} {p q : Scope → Prop} (h : Walked scope scope' p)
    (hpq : ∀ final, p final → q final) : Walked scope scope' q :=
  ⟨h.numbered, h.within, fun final hle => hpq final (h.known final hle)⟩

mutual

theorem Stmt.walked_of_declare {inLoop : Bool} {s : Stmt} {scope scope' : Scope}
    (h : s.declare inLoop scope = .ok scope') :
    Walked scope scope' (fun final => s.KnownIn final inLoop) := by
  cases s with
  | expression e span | print e span =>
    simp only [Stmt.declare, bind, Except.bind, pure, Except.pure] at h
    split at h
    · simp at h
    · next hcheck =>
      cases h
      exact walked_of_check hcheck
  | assign name op e span =>
    obtain ⟨hcheck, hassign⟩ := of_checkAssignment (by simpa only [Stmt.declare] using h)
    exact ((walked_of_check hcheck).andThen (walked_of_assign? hassign)).imp fun _ => And.symm
  | ifThen c body span =>
    simp only [Stmt.declare, bind, Except.bind] at h
    split at h
    · simp at h
    · next hcheck => exact (walked_of_check hcheck).andThen (Stmt.walked_of_declareAll h)
  | ifElse c body otherwise span =>
    simp only [Stmt.declare, bind, Except.bind] at h
    split at h
    · simp at h
    · next hcheck =>
      split at h
      · simp at h
      · next hbody =>
        exact (walked_of_check hcheck).andThen
          ((Stmt.walked_of_declareAll hbody).andThen (Stmt.walked_of_declareAll h))
  | whileDo c body span =>
    simp only [Stmt.declare, bind, Except.bind] at h
    split at h
    · simp at h
    · next hcheck => exact (walked_of_check hcheck).andThen (Stmt.walked_of_declareAll h)
  | breakLoop span | continueLoop span =>
    simp only [Stmt.declare] at h
    split at h
    · next hloop =>
      cases h
      exact ⟨id, .refl scope, fun _ _ => hloop⟩
    · simp at h

theorem Stmt.walked_of_declareAll {inLoop : Bool} {ss : List Stmt} {scope scope' : Scope}
    (h : Stmt.declareAll inLoop ss scope = .ok scope') :
    Walked scope scope' (fun final => Stmt.AllKnownIn final inLoop ss) := by
  cases ss with
  | nil =>
    cases h
    exact ⟨id, .refl scope, fun _ _ => trivial⟩
  | cons s rest =>
    simp only [Stmt.declareAll] at h
    split at h
    · simp at h
    · next hs => exact (Stmt.walked_of_declare hs).andThen (Stmt.walked_of_declareAll h)

end

/-- A program that is accepted is known in its own scope, whose registers are numbered. -/
theorem Program.known_of_scope {program : Program} {scope : Scope}
    (h : program.scope = .ok scope) :
    scope.Numbered ∧ Stmt.AllKnownIn scope false program := by
  have hwalk := Stmt.walked_of_declareAll h
  exact ⟨hwalk.numbered Scope.numbered_empty, hwalk.known scope (.refl scope)⟩

end Kestrel
