import FormulaGrid.Proofs.Moves

/-!
# Sessions over an abstracted store

One store abstracts another when its operations answer alike and come out at the abstraction of what the
other is left with. Sessions over the two then go through the same moves with the same answers, and end
with the same queue, refreshes in progress, listeners, scripts and events.
-/
namespace FormulaGrid

/-- Commands that look at the results and dependencies kept by a store. -/
def Command.inspects : Command → Bool
  | .cached _ => true
  | .dependencies _ => true
  | _ => false

def Move.inspects : Move → Bool
  | .perform command => command.inspects
  | _ => false

def Session.map {σ τ : Type} (f : σ → τ) (s : Session σ) : Session τ :=
  ⟨f s.store, s.queue, s.active, s.listeners, s.scripts, s.callbacks, s.events⟩

def Outcome.map {σ τ : Type} (f : σ → τ) : Outcome σ → Outcome τ
  | .running s => .running (s.map f)
  | .finished count s => .finished count (s.map f)
  | .failed fault s => .failed fault (s.map f)

/-- A result with the abstraction of the state that it leaves. -/
def abstracted {α σ τ : Type} (f : σ → τ) (result : Except Fault α × σ) : Except Fault α × τ :=
  (result.1, f result.2)

variable {σ τ : Type}

namespace Session

variable {f : σ → τ}

theorem within_map {α : Type} (s : Session σ) (result : Except Fault α × σ) :
    (s.map f).within (abstracted f result) = abstracted (map f) (s.within result) := rfl

theorem answering_map {α : Type} (answer : α → Answer)
    (result : Except Fault α × Session σ) :
    answering answer (abstracted (map f) result) = abstracted (map f) (answering answer result) :=
  rfl

theorem declare_map (s : Session σ) (listener : Listener) (script : List Command) :
    (s.map f).declare listener script = (s.declare listener script).map f := by
  cases listener <;> rfl

theorem stepBatch_map (s : Session σ) (top : Activation) (below : List Activation) :
    (s.map f).stepBatch top below = (s.stepBatch top below).map f := by
  have hqueue : (s.map f).queue = s.queue := rfl
  unfold stepBatch
  rw [hqueue]
  split <;> rfl

theorem ofOutcome_map (active : List Activation) (outcome : Outcome σ) :
    ofOutcome active (outcome.map f) = abstracted (map f) (ofOutcome active outcome) := by
  cases outcome <;> rfl

end Session

variable [CellStore σ] [CellStore τ]

/-- A function from stores to stores whose operations answer alike, for stores with an invariant and
commands that meet a condition. -/
structure CellStore.Abstraction (condition : σ → Command → Prop) (invariant : σ → Prop) (f : σ → τ) :
    Prop extends Keeps condition invariant where
  columns_map : ∀ store, columns (f store) = columns store
  rawText_map : ∀ store key, rawText (f store) key = rawText store key
  read_map : ∀ {store} key, invariant store →
    CellStore.read (f store) key = abstracted f (CellStore.read store key)
  edit_map : ∀ {store} key text, invariant store → condition store (.edit key text) →
    CellStore.edit (f store) key text = abstracted f (CellStore.edit store key text)
  invalidate_map : ∀ {store} key, invariant store → condition store (.invalidate key) →
    CellStore.invalidate (f store) key = abstracted f (CellStore.invalidate store key)
  fill_map : ∀ {store} source target, invariant store → condition store (.fill source target) →
    CellStore.fill (f store) source target = abstracted f (CellStore.fill store source target)
  clear_map : ∀ store, f (CellStore.clear store) = CellStore.clear (f store)

namespace CellStore.Abstraction

variable {condition : σ → Command → Prop} {invariant : σ → Prop} {f : σ → τ} {store : σ}

theorem readAll_map (ha : Abstraction condition invariant f) (keys : List CellKey)
    (h : invariant store) :
    readAll (f store) keys = abstracted f (readAll store keys) := by
  induction keys generalizing store with
  | nil => rfl
  | cons key keys ih =>
    have hkept := ha.read key h
    rw [readAll, readAll, ha.read_map key h]
    cases hread : CellStore.read store key with
    | mk outcome next =>
      rw [hread] at hkept
      cases outcome with
      | error fault => rfl
      | ok text =>
        simp only [abstracted, ih hkept]
        cases readAll next keys with
        | mk outcome last => cases outcome <;> rfl

theorem renderRows_map (ha : Abstraction condition invariant f) (rows : List Int)
    (h : invariant store) :
    renderRows (f store) rows = abstracted f (renderRows store rows) := by
  induction rows generalizing store with
  | nil => rfl
  | cons row rows ih =>
    have hkept := readAll_invariant ha.read (rowKeys (columns store) row) h
    rw [renderRows, renderRows, ha.columns_map, ha.readAll_map _ h]
    cases hread : readAll store (rowKeys (columns store) row) with
    | mk outcome next =>
      rw [hread] at hkept
      cases outcome with
      | error fault => rfl
      | ok texts =>
        simp only [abstracted, ih hkept]
        cases renderRows next rows with
        | mk outcome last => cases outcome <;> rfl

end CellStore.Abstraction

namespace Session
open CellStore

variable {condition : σ → Command → Prop} {invariant : σ → Prop} {f : σ → τ} {s : Session σ}

theorem fill_map (ha : Abstraction condition invariant f) (source target : CellKey)
    (h : invariant s.store) (hc : condition s.store (.fill source target)) :
    (s.map f).fill source target = abstracted (map f) (s.fill source target) := by
  have hstore : CellStore.fill (s.map f).store source target =
      abstracted f (CellStore.fill s.store source target) := ha.fill_map source target h hc
  unfold fill
  rw [hstore]
  cases CellStore.fill s.store source target with
  | mk outcome next =>
    cases outcome with
    | error fault => rfl
    | ok keys =>
      simp only [abstracted, ha.rawText_map]
      split <;> rfl

/-- A command answers alike unless it inspects what only one of the stores keeps. -/
theorem perform_map (ha : Abstraction condition invariant f) {command : Command}
    (h : invariant s.store) (hc : condition s.store command) (hi : ¬command.inspects) :
    (s.map f).perform command = abstracted (map f) (s.perform command) := by
  cases command with
  | edit key text =>
    simp only [perform]
    rw [← answering_map, ← within_map, ← ha.edit_map key text h hc]
    rfl
  | read key =>
    simp only [perform]
    rw [← answering_map, ← within_map, ← ha.read_map key h]
    rfl
  | rawText key =>
    simp only [perform]
    rw [show rawText (s.map f).store key = rawText s.store key from ha.rawText_map _ key]
    rfl
  | cached key => exact absurd rfl hi
  | dependencies key => exact absurd rfl hi
  | render rows =>
    simp only [perform]
    rw [← answering_map, ← within_map, ← ha.renderRows_map rows h]
    rfl
  | invalidate key =>
    simp only [perform]
    rw [← answering_map, ← within_map, ← ha.invalidate_map key h hc]
    rfl
  | fill source target =>
    simp only [perform]
    rw [← answering_map, ← fill_map ha source target h hc]
  | refresh => rfl
  | pending => rfl
  | listen listener script =>
    simp only [perform, listen, declare_map]
    rfl
  | unlisten listener =>
    simp only [perform, unlisten, declare_map]
    rfl
  | clear =>
    simp only [perform, clear, abstracted, map, ha.clear_map]

/-- A command that inspects cannot fail and changes nothing. -/
theorem perform_of_inspects {command : Command} (hi : command.inspects) (s : Session σ) :
    ∃ answer, s.perform command = (.ok answer, s) := by
  cases command with
  | cached key => exact ⟨_, rfl⟩
  | dependencies key => exact ⟨_, rfl⟩
  | _ => cases hi

theorem stepScript_map (ha : Abstraction condition invariant f) {name : String} {top : Activation}
    {below : List Activation} (h : invariant s.store)
    (hc : ∀ command ∈ (s.scripts.takeCommand? name).map Prod.fst, condition s.store command) :
    (s.map f).stepScript name top below = (s.stepScript name top below).map f := by
  have hscripts : (s.map f).scripts = s.scripts := rfl
  unfold stepScript
  rw [hscripts]
  cases htake : s.scripts.takeCommand? name with
  | none => rfl
  | some taken =>
    obtain ⟨command, scripts⟩ := taken
    have hmap : { s.map f with scripts := scripts } = map f { s with scripts := scripts } := rfl
    dsimp only
    rw [hmap]
    by_cases hi : command.inspects
    · obtain ⟨answer, hanswer⟩ := perform_of_inspects hi { s with scripts := scripts }
      obtain ⟨other, hother⟩ := perform_of_inspects hi (map f { s with scripts := scripts })
      rw [hanswer, hother]
      rfl
    · have hperform := perform_map (s := { s with scripts := scripts }) ha h
        (hc command (by simp [htake])) hi
      rw [hperform]
      cases { s with scripts := scripts }.perform command with
      | mk outcome next => cases outcome <;> rfl

theorem stepCell_map (ha : Abstraction condition invariant f) (key : CellKey) (rest : List CellKey)
    (top : Activation) (below : List Activation) (h : invariant s.store) :
    (s.map f).stepCell key rest top below = (s.stepCell key rest top below).map f := by
  have hread : CellStore.read (s.map f).store key = abstracted f (CellStore.read s.store key) :=
    ha.read_map key h
  unfold stepCell
  rw [hread]
  cases CellStore.read s.store key with
  | mk outcome next => cases outcome <;> rfl

theorem step_map (ha : Abstraction condition invariant f) (h : invariant s.store)
    (hc : ∀ command ∈ s.nextCommand?, condition s.store command) :
    (s.map f).step = s.step.map f := by
  have hactive : (s.map f).active = s.active := rfl
  unfold step
  unfold nextCommand? at hc
  rw [hactive]
  cases hs : s.active with
  | nil => rfl
  | cons top below =>
    rw [hs] at hc
    obtain ⟨speaker, calls, rest, count⟩ := top
    cases speaker with
    | some name => exact stepScript_map ha h hc
    | none =>
      cases calls with
      | cons notice calls => rfl
      | nil =>
        cases rest with
        | cons key rest => exact stepCell_map ha key rest _ below h
        | nil => exact s.stepBatch_map _ below

/-- A move ends alike on both sides, and apart from inspections it answers alike. -/
theorem move_map (ha : Abstraction condition invariant f) {move : Move} (h : invariant s.store)
    (hc : ∀ command ∈ s.command? move, condition s.store command) :
    ((s.map f).move move).2 = (s.move move).2.map f ∧
      (¬move.inspects → ((s.map f).move move).1 = (s.move move).1) := by
  cases move with
  | perform command =>
    by_cases hi : command.inspects
    · obtain ⟨answer, hanswer⟩ := perform_of_inspects hi s
      obtain ⟨other, hother⟩ := perform_of_inspects hi (s.map f)
      have hleft : ((s.map f).move (.perform command)).2 = s.map f := congrArg Prod.snd hother
      have hright : (s.move (.perform command)).2 = s := congrArg Prod.snd hanswer
      exact ⟨by rw [hleft, hright], fun hnot => absurd hi hnot⟩
    · have hperform := perform_map ha h (hc command rfl) hi
      exact ⟨congrArg Prod.snd hperform, fun _ => congrArg Prod.fst hperform⟩
  | step =>
    have hstep : (s.map f).move .step = abstracted (map f) (s.move .step) := by
      rw [move, move, step_map ha h hc, ofOutcome_map]
      rfl
    exact ⟨congrArg Prod.snd hstep, fun _ => congrArg Prod.fst hstep⟩
  | abandon => exact ⟨rfl, fun _ => rfl⟩

theorem settle_map (ha : Abstraction condition invariant f) (h : invariant s.store)
    (ho : ∀ n, s.Obeys condition (List.replicate n .step)) :
    (s.map f).settle = abstracted (map f) s.settle := by
  induction s using settle.induct with
  | case1 s s' hstep ih =>
    have hmap := step_map ha h (ho 1).1
    rw [hstep] at hmap
    have hnext : (s.move .step).2 = s' := by
      rw [move, hstep]
      rfl
    have hkept : invariant (s.move .step).2.store := ha.toKeeps.move h (ho 1).1
    rw [settle_of_running hmap, settle_of_running hstep]
    rw [hnext] at hkept
    apply ih hkept
    intro n
    rw [← hnext]
    exact (ho (n + 1)).2
  | case2 s count s' hstep =>
    have hmap := step_map ha h (ho 1).1
    rw [hstep] at hmap
    rw [settle_of_finished hmap, settle_of_finished hstep]
    rfl
  | case3 s fault s' hstep =>
    have hmap := step_map ha h (ho 1).1
    rw [hstep] at hmap
    rw [settle_of_failed hmap, settle_of_failed hstep]
    rfl

theorem execute_map (ha : Abstraction condition invariant f) {command : Command} (h : invariant s.store)
    (ho : ∀ n, s.Obeys condition (.perform command :: List.replicate n .step))
    (hi : ¬command.inspects) :
    (s.map f).execute command = abstracted (map f) (s.execute command) := by
  by_cases hc : command = .refresh
  · subst hc
    have hkept : invariant (s.perform .refresh).2.store := h
    have hsettle := settle_map ha hkept (fun n => (ho n).2)
    have hrefresh : (s.map f).refresh = abstracted (map f) s.refresh := hsettle
    rw [execute, execute, hrefresh, answering_map]
  · rw [execute_of_ne_refresh hc, execute_of_ne_refresh hc]
    exact perform_map ha h ((ho 0).1 command rfl) hi

theorem executeAll_map (ha : Abstraction condition invariant f) {commands : List Command}
    (h : invariant s.store) (ho : s.ObeysAll condition commands)
    (hi : ∀ command ∈ commands, ¬command.inspects) :
    (s.map f).executeAll commands =
      ((s.executeAll commands).1, (s.executeAll commands).2.map f) := by
  induction commands generalizing s with
  | nil => rfl
  | cons command commands ih =>
    have hexecute := execute_map ha h ho.1 (hi command (by simp))
    have hrest := ih (ha.toKeeps.execute h ho.1) ho.2
      (fun c hc => hi c (List.mem_cons_of_mem _ hc))
    simp only [executeAll, hexecute, abstracted, hrest]

end Session

end FormulaGrid
