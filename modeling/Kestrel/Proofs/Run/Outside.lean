import Kestrel.Proofs.Run.Erasure

/-!
# Stages and what is outside

The stages have a state of their own, out of the reach of whoever is told of a run. So the stages
are called as they are in a run that tells of nothing, and the run comes to the same.

## Main definitions

- `Stages.inside`, `Observer.outside`, `Tracer.outside` — stages, and who is told of them, side by
  side
- `callsIn`, `linesIn` — the calls and the lines in what was noted down
- `Stages.Alike` — stages do the same as long as their states are related
- `Quiet` — an action calls no stage and leaves their state alone
- `Erases` — an action is another one up to what it tells

## Main statements

- `Erasure.outside` — observers and sinks outside of the stages can be erased
- `Stages.Alike.keeps` — what is left are the stages
-/

namespace Kestrel

variable {σ τ ε α β : Type}

/-! ### Stages and what is outside -/

/-- An action on the state of the stages, beside another state. -/
def atStages (x : StateM σ α) : StateM (σ × ε) α := fun s =>
  ((x.run s.1).1, ((x.run s.1).2, s.2))

/-- An action on the state outside, beside that of the stages. -/
def atOutside (x : StateM ε α) : StateM (σ × ε) α := fun s =>
  ((x.run s.2).1, (s.1, (x.run s.2).2))

/-- Stages beside a state that is none of their business. -/
def Stages.inside (stages : Stages (StateM σ)) : Stages (StateM (σ × ε)) where
  lex source := atStages (stages.lex source)
  parse tokens := atStages (stages.parse tokens)
  compile program := atStages (stages.compile program)
  interpret code := atStages (stages.interpret code)

/-- An observer who cannot get at the state of the stages. -/
def Observer.outside (observer : Observer (StateM ε)) : Observer (StateM (σ × ε)) where
  announce event := atOutside (observer.announce event)
  clock := atOutside observer.clock

/-- A tracer that cannot get at the state of the stages. -/
def Tracer.outside (tracer : Tracer (StateM ε)) : Tracer (StateM (σ × ε)) :=
  ⟨tracer.sink?.map fun sink text => atOutside (sink text), tracer.sections⟩

/-- Two actions give the same in related states, and leave related states. -/
def Pairs (R : σ → τ → Prop) (x : StateM σ α) (y : StateM τ α) : Prop :=
  ∀ s t, R s t → (x.run s).1 = (y.run t).1 ∧ R (x.run s).2 (y.run t).2

/-- Stages do the same as other ones as long as their states are related. -/
structure Stages.Alike (R : σ → τ → Prop) (stages : Stages (StateM σ))
    (stages' : Stages (StateM τ)) : Prop where
  lex : ∀ source, Pairs R (stages.lex source) (stages'.lex source)
  parse : ∀ tokens, Pairs R (stages.parse tokens) (stages'.parse tokens)
  compile : ∀ program, Pairs R (stages.compile program) (stages'.compile program)
  interpret : ∀ code, Pairs R (stages.interpret code) (stages'.interpret code)

theorem Pairs.refl (x : StateM σ α) : Pairs Eq x x := by
  rintro s _ rfl
  exact ⟨rfl, rfl⟩

theorem Stages.Alike.refl (stages : Stages (StateM σ)) : stages.Alike Eq stages :=
  ⟨fun _ => .refl _, fun _ => .refl _, fun _ => .refl _, fun _ => .refl _⟩

/-! ### Calls and lines -/

def Sighting.call? : Sighting → Option StageCall
  | .call made => some made
  | .line _ => none

def Sighting.line? : Sighting → Option String
  | .call _ => none
  | .line text => some text

/-- The calls of stages in what was noted down. -/
def callsIn (seen : List Sighting) : List StageCall := seen.filterMap Sighting.call?

/-- The lines of a trace in what was noted down. -/
def linesIn (seen : List Sighting) : List String := seen.filterMap Sighting.line?

@[simp] theorem callsIn_append (seen more : List Sighting) :
    callsIn (seen ++ more) = callsIn seen ++ callsIn more := List.filterMap_append ..

@[simp] theorem callsIn_call (call : StageCall) (seen : List Sighting) :
    callsIn (.call call :: seen) = call :: callsIn seen := rfl

/-! ### Quiet actions -/

/-- An action calls no stage and leaves their state alone. -/
def Quiet (X : Watched (σ × ε) α) : Prop :=
  ∀ seen s, callsIn ((X.run seen).run s).1.2 = callsIn seen ∧ ((X.run seen).run s).2.1 = s.1

namespace Quiet

theorem pure (a : α) : Quiet (Pure.pure a : Watched (σ × ε) α) := fun _ _ => ⟨rfl, rfl⟩

theorem bind {X : Watched (σ × ε) α} {F : α → Watched (σ × ε) β} (hx : Quiet X)
    (hf : ∀ a, Quiet (F a)) : Quiet (X >>= F) := by
  intro seen s
  obtain ⟨hcalls, hstate⟩ := hx seen s
  obtain ⟨hcalls', hstate'⟩ := hf ((X.run seen).run s).1.1 ((X.run seen).run s).1.2
    ((X.run seen).run s).2
  exact ⟨hcalls'.trans hcalls, hstate'.trans hstate⟩

theorem lift (x : StateM ε α) : Quiet (StateT.lift (atOutside x) : Watched (σ × ε) α) :=
  fun _ _ => ⟨rfl, rfl⟩

theorem line (x : StateM ε α) (text : String) :
    Quiet (watch (fun _ => .line text) (atOutside x) : Watched (σ × ε) α) :=
  fun seen _ => ⟨(callsIn_append seen [.line text]).trans (List.append_nil _), rfl⟩

end Quiet

/-! ### Erasure -/

/-- The first action is the second one up to what it tells: in related states, and with the same
calls noted down before, both give the same, note down the same calls, and leave related states. -/
def Erases (R : σ → τ → Prop) (X : Watched (σ × ε) α) (Y : Watched τ α) : Prop :=
  ∀ seen seen' s t, callsIn seen = callsIn seen' → R s.1 t →
    ((X.run seen).run s).1.1 = ((Y.run seen').run t).1.1 ∧
    callsIn ((X.run seen).run s).1.2 = callsIn ((Y.run seen').run t).1.2 ∧
    R ((X.run seen).run s).2.1 ((Y.run seen').run t).2

namespace Erases

variable {R : σ → τ → Prop}

theorem pure (a : α) : Erases R (Pure.pure a : Watched (σ × ε) α) (Pure.pure a : Watched τ α) :=
  fun _ _ _ _ hcalls hstates => ⟨rfl, hcalls, hstates⟩

theorem bind {X : Watched (σ × ε) α} {Y : Watched τ α} {F : α → Watched (σ × ε) β}
    {G : α → Watched τ β} (hx : Erases R X Y) (hf : ∀ a, Erases R (F a) (G a)) :
    Erases R (X >>= F) (Y >>= G) := by
  intro seen seen' s t hcalls hstates
  obtain ⟨hresult, hcalls', hstates'⟩ := hx seen seen' s t hcalls hstates
  have hY : ((Y >>= G).run seen').run t =
      ((G ((X.run seen).run s).1.1).run ((Y.run seen').run t).1.2).run ((Y.run seen').run t).2 := by
    rw [hresult]
    rfl
  rw [hY]
  exact hf ((X.run seen).run s).1.1 _ _ _ _ hcalls' hstates'

/-- A quiet action in front is erased. -/
theorem skip {X : Watched (σ × ε) α} {F : α → Watched (σ × ε) β} {Y : Watched τ β} (hx : Quiet X)
    (hf : ∀ a, Erases R (F a) Y) : Erases R (X >>= F) Y := by
  intro seen seen' s t hcalls hstates
  obtain ⟨hcalls', hstate⟩ := hx seen s
  exact hf ((X.run seen).run s).1.1 _ seen' _ t (hcalls'.trans hcalls) (hstate ▸ hstates)

/-- A call of a stage stays. -/
theorem call {x : StateM σ α} {y : StateM τ α} (h : Pairs R x y) (call : α → StageCall) :
    Erases R (watch (fun a => .call (call a)) (atStages x) : Watched (σ × ε) α)
      (watch (fun a => .call (call a)) y) := by
  intro seen seen' s t hcalls hstates
  obtain ⟨hresult, hstates'⟩ := h s.1 t hstates
  refine ⟨hresult, ?_, hstates'⟩
  show callsIn (seen ++ [.call (call (x.run s.1).1)]) =
    callsIn (seen' ++ [.call (call (y.run t).1)])
  rw [callsIn_append, callsIn_append, hcalls, hresult]

end Erases

/-! ### Whoever is outside -/

/-- What is outside of the stages can be erased. -/
def Erasure.outside (R : σ → τ → Prop) : Erasure (Watched (σ × ε)) (Watched τ) where
  Quiet := Kestrel.Quiet
  Erases := Kestrel.Erases R
  quiet_pure := .pure
  quiet_bind := .bind
  pure := .pure
  bind := .bind
  skip := .skip

variable {R : σ → τ → Prop}

theorem Observer.quiet_outside (observer : Observer (StateM ε)) :
    (Erasure.outside R).QuietObserver (observer.outside.watched : Observer (Watched (σ × ε))) :=
  ⟨fun event => .lift (observer.announce event), .lift observer.clock⟩

theorem Tracer.quiet_outside (tracer : Tracer (StateM ε)) :
    (Erasure.outside R).QuietTracer (tracer.outside.watched : Tracer (Watched (σ × ε))) := by
  obtain ⟨sink?, sections⟩ := tracer
  intro sink hsink text
  cases sink? with
  | none => cases hsink
  | some sink' =>
    obtain rfl := Option.some.inj hsink
    exact .line (sink' text) text

theorem Stages.Alike.keeps {stages : Stages (StateM σ)} {stages' : Stages (StateM τ)}
    (h : stages.Alike R stages') :
    (Erasure.outside R).Keeps (stages.inside.watched : Stages (Watched (σ × ε)))
      stages'.watched where
  lex source := .call (h.lex source) _
  parse tokens := .call (h.parse tokens) _
  compile program := .call (h.compile program) _
  interpret code := .call (h.interpret code) _

end Kestrel
