import Kestrel.Run.Staged

/-!
# Watched runs

A run takes its stages, its observer and the sink of its trace from outside. All of them can be
replaced by ones that do the same and note down what goes by: every call of a stage with what it was
given and what it gave, and every line of the trace. A watched run does what the run does, and its
notes tell what that was.

## Main definitions

- `StageCall`, `Sighting` — what is noted down
- `Stages.watched`, `Observer.watched`, `Tracer.watched` — the replacements
- `Watches` — an action does the same as another one, and takes notes of some kind

## Main statements

- `Watches.bind` — the notes of two actions, one after the other, are put together
- `Tracer.watches_lines` — what is noted of some lines
- `Tracer.banner_bind` — a banner is some lines, and one section more
-/

namespace Kestrel

/-- A call of a stage: what it was given, and what it gave. -/
inductive StageCall where
  | lex (source : String) (tokens : List Token)
  | parse (tokens : List Token) (result : Except Rejection Program)
  | compile (program : Program) (result : Except Rejection Code)
  | interpret (code : Code) (ending : Ending)

/-- What is noted down of a run: the calls of stages and the lines of the trace. -/
inductive Sighting where
  | call (call : StageCall)
  | line (text : String)

/-! ### Taking notes -/

section Watching

variable {σ α β : Type}

/-- Actions that take notes. -/
abbrev Watched (σ : Type) := StateT (List Sighting) (StateM σ)

/-- Does something, and notes down what comes of it. -/
def watch (sighting : α → Sighting) (x : StateM σ α) : Watched σ α := fun seen => do
  let a ← x
  return (a, seen ++ [sighting a])

/-- Stages that note down their calls. -/
def Stages.watched (stages : Stages (StateM σ)) : Stages (Watched σ) where
  lex source := watch (fun tokens => .call (.lex source tokens)) (stages.lex source)
  parse tokens := watch (fun result => .call (.parse tokens result)) (stages.parse tokens)
  compile program := watch (fun result => .call (.compile program result)) (stages.compile program)
  interpret code := watch (fun ending => .call (.interpret code ending)) (stages.interpret code)

/-- An observer of whom nothing is noted down. -/
def Observer.watched (observer : Observer (StateM σ)) : Observer (Watched σ) where
  announce event := StateT.lift (observer.announce event)
  clock := StateT.lift observer.clock

/-- A sink that notes down its lines. -/
def watchedSink (sink : String → StateM σ Unit) (text : String) : Watched σ Unit :=
  watch (fun _ => .line text) (sink text)

/-- A tracer that notes down its lines. -/
def Tracer.watched (tracer : Tracer (StateM σ)) : Tracer (Watched σ) :=
  ⟨tracer.sink?.map watchedSink, tracer.sections⟩

theorem Tracer.watched_new (enabled : Bool) (sink : String → StateM σ Unit) :
    (Tracer.new enabled sink).watched = .new enabled (watchedSink sink) := by
  cases enabled <;> rfl

/-- The first action does what the second one does: it gives the same and leaves the same state.
What it notes down besides is related to what it gives. -/
def Watches (X : Watched σ α) (x : StateM σ α) (notes : α → List Sighting → Prop) : Prop :=
  ∀ seen s, ∃ more, (X.run seen).run s = (((x.run s).1, seen ++ more), (x.run s).2) ∧
    notes (x.run s).1 more

namespace Watches

variable {X : Watched σ α} {x : StateM σ α} {F : α → Watched σ β} {f : α → StateM σ β}
  {notes notes' : α → List Sighting → Prop} {notesAfter : β → List Sighting → Prop}

theorem pure {a : α} (h : notes a []) :
    Watches (Pure.pure a : Watched σ α) (Pure.pure a : StateM σ α) notes :=
  fun seen s => ⟨[], by rw [List.append_nil]; rfl, h⟩

theorem mono (h : Watches X x notes) (himp : ∀ a more, notes a more → notes' a more) :
    Watches X x notes' := by
  intro seen s
  obtain ⟨more, hrun, hnotes⟩ := h seen s
  exact ⟨more, hrun, himp _ _ hnotes⟩

/-- The notes of the second action come behind those of the first one. -/
theorem bind (hx : Watches X x notes)
    (hf : ∀ a before, notes a before →
      Watches (F a) (f a) fun b after => notesAfter b (before ++ after)) :
    Watches (X >>= F) (x >>= f) notesAfter := by
  intro seen s
  obtain ⟨before, hrun, hnotes⟩ := hx seen s
  obtain ⟨after, hrun', hnotes'⟩ := hf _ _ hnotes (seen ++ before) (x.run s).2
  refine ⟨before ++ after, ?_, hnotes'⟩
  show ((F ((X.run seen).run s).1.1).run ((X.run seen).run s).1.2).run ((X.run seen).run s).2 = _
  rw [hrun, ← List.append_assoc]
  exact hrun'

theorem lift (x : StateM σ α) : Watches (StateT.lift x) x fun _ more => more = [] :=
  fun seen s => ⟨[], by rw [List.append_nil]; rfl, rfl⟩

theorem watch (sighting : α → Sighting) (x : StateM σ α) :
    Watches (watch sighting x) x fun a more => more = [sighting a] :=
  fun _ _ => ⟨_, rfl, rfl⟩

theorem forM (sink : String → StateM σ Unit) (texts : List String) :
    Watches (texts.forM (watchedSink sink)) (texts.forM sink)
      fun _ more => more = texts.map .line := by
  induction texts with
  | nil => exact .pure rfl
  | cons text rest ih =>
    refine (Watches.watch (fun _ => .line text) (sink text)).bind ?_
    rintro a before rfl
    exact ih.mono fun _ after hafter => by rw [hafter]; rfl

end Watches

end Watching

/-! ### Tracers -/

namespace Tracer

variable {m : Type → Type}

/-- What is noted down when a tracer writes some lines: nothing, if it is off. -/
def written (tracer : Tracer m) (texts : List String) : List Sighting :=
  if tracer.isEnabled then texts.map .line else []

theorem written_of_enabled {tracer : Tracer m} (h : tracer.isEnabled = true)
    (texts : List String) : tracer.written texts = texts.map .line :=
  if_pos h

theorem written_of_disabled {tracer : Tracer m} (h : tracer.isEnabled = false)
    (texts : List String) : tracer.written texts = [] := by
  simp [written, h]

/-- A tracer that has begun one more section. -/
def begun (tracer : Tracer m) : Tracer m :=
  ⟨tracer.sink?, if tracer.isEnabled then tracer.sections + 1 else tracer.sections⟩

@[simp] theorem isEnabled_begun (tracer : Tracer m) :
    tracer.begun.isEnabled = tracer.isEnabled := rfl

/-- A banner is some lines, and one section more. -/
theorem banner_bind [Monad m] [LawfulMonad m] {β : Type} (tracer : Tracer m) (title : String)
    (f : Tracer m → m β) :
    tracer.banner title >>= f =
      tracer.lines (fun _ => Trace.banner tracer.sections title) >>= fun _ => f tracer.begun := by
  obtain ⟨sink?, sections⟩ := tracer
  cases sink? with
  | none => simp [banner, lines, begun, isEnabled]
  | some sink => simp [banner, lines, begun, isEnabled]

variable {σ : Type} (tracer : Tracer (StateM σ))

theorem isEnabled_watched : tracer.watched.isEnabled = tracer.isEnabled := by
  simp [isEnabled, watched]

theorem begun_watched : tracer.watched.begun = tracer.begun.watched := by
  simp only [begun, isEnabled_watched]
  rfl

theorem watches_lines (texts : Unit → List String) :
    Watches (tracer.watched.lines texts) (tracer.lines texts)
      fun _ more => more = tracer.written (texts ()) := by
  obtain ⟨sink?, sections⟩ := tracer
  cases sink? with
  | none => exact .pure rfl
  | some sink => exact .forM sink (texts ())

/-- What goes on behind a banner has its notes behind those of the banner. -/
theorem watches_banner {α : Type} (title : String) {F : Tracer (Watched σ) → Watched σ α}
    {f : Tracer (StateM σ) → StateM σ α} {notes : α → List Sighting → Prop}
    (h : Watches (F tracer.begun.watched) (f tracer.begun) fun a after =>
      notes a (tracer.written (Trace.banner tracer.sections title) ++ after)) :
    Watches (tracer.watched.banner title >>= F) (tracer.banner title >>= f) notes := by
  rw [banner_bind, banner_bind, begun_watched]
  refine (tracer.watches_lines fun _ => Trace.banner tracer.sections title).bind ?_
  rintro a before rfl
  exact h

end Tracer

end Kestrel
