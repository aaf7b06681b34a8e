import FormulaGrid.Refresh

/-!
# Moves of a session

A session is driven by moves, in any order: a command given from outside or by a listener that is being
called, the next step of the refreshes in progress, or the end of the innermost refresh because a
listener failed. Whatever the listeners do, a run of the session is a list of moves, and every move
carries out at most one command on the store.
-/
namespace FormulaGrid

/-- The store that a command leaves. -/
def Command.operate {σ : Type} [CellStore σ] (store : σ) : Command → σ
  | .edit key text => (CellStore.edit store key text).2
  | .read key => (CellStore.read store key).2
  | .render rows => (CellStore.renderRows store rows).2
  | .invalidate key => (CellStore.invalidate store key).2
  | .fill source target => (CellStore.fill store source target).2
  | .clear => CellStore.clear store
  | _ => store

/-- A fill that meets an integer too long for a shift leaves some of its cells unwritten, and the
others written without any invalidation. -/
def Command.tears {σ : Type} [CellStore σ] (store : σ) : Command → Bool
  | .fill source target =>
    match (CellStore.fill store source target).1 with
    | .error .numeralTooLong => true
    | _ => false
  | _ => false

theorem Command.tears_fill {σ : Type} [CellStore σ] {store : σ} {source target : CellKey} :
    (Command.fill source target).tears store ↔
      (CellStore.fill store source target).1 = .error .numeralTooLong := by
  simp only [tears]
  split
  · rename_i h
    exact ⟨fun _ => h, fun _ => rfl⟩
  · rename_i h
    constructor
    · intro hfalse
      cases hfalse
    · intro htears
      exact absurd htears h

/-- The outcome of a write whose cascade has exceeded the depth limit. -/
def isCircular {α : Type} : Except Fault α → Bool
  | .error .circular => true
  | _ => false

theorem isCircular_iff {α : Type} {outcome : Except Fault α} :
    isCircular outcome ↔ outcome = .error .circular := by
  unfold isCircular
  split <;> simp_all

/-- The cascade of a command exceeds the depth limit. -/
def Command.overflows {σ : Type} [CellStore σ] (store : σ) : Command → Bool
  | .edit key text => isCircular (CellStore.edit store key text).1
  | .invalidate key => isCircular (CellStore.invalidate store key).1
  | .fill source target => isCircular (CellStore.fill store source target).1
  | _ => false

/-- A command neither tears a fill nor exceeds the depth limit. -/
def Command.completes {σ : Type} [CellStore σ] (store : σ) (command : Command) : Bool :=
  !command.tears store && !command.overflows store

theorem Command.completes_iff {σ : Type} [CellStore σ] {store : σ} {command : Command} :
    command.completes store ↔ ¬command.tears store ∧ ¬command.overflows store := by
  simp [completes]

inductive Move where
  | perform (command : Command)
  | step
  | abandon

namespace Session

variable {σ : Type} {active : List Activation}

/-- What a step answers: the count of the innermost refresh if that has come to its end. -/
def progress (before after : List Activation) : Answer :=
  match before with
  | top :: below => if after.length = below.length then .count top.count else .done
  | [] => .done

def ofOutcome (active : List Activation) : Outcome σ → Except Fault Answer × Session σ
  | .running s => (.ok (progress active s.active), s)
  | .finished count s => (.ok (.count count), s)
  | .failed fault s => (.error fault, s)

theorem declare_store (s : Session σ) (listener : Listener) (script : List Command) :
    (s.declare listener script).store = s.store := by
  cases listener <;> rfl

theorem stepBatch_store (s : Session σ) (top : Activation) (below : List Activation) :
    (ofOutcome active (s.stepBatch top below)).2.store = s.store := by
  unfold stepBatch
  split <;> rfl

variable [CellStore σ]

/-- The command that the next step carries out on the store: one of a script, or the reading of a
refreshed cell. -/
def nextCommand? (s : Session σ) : Option Command :=
  match s.active with
  | [] => none
  | top :: _ =>
    match top.speaker, top.calls, top.rest with
    | some name, _, _ => (s.scripts.takeCommand? name).map Prod.fst
    | none, [], key :: _ => some (.read key)
    | none, _, _ => none

def command? (s : Session σ) : Move → Option Command
  | .perform command => some command
  | .step => s.nextCommand?
  | .abandon => none

def move (s : Session σ) : Move → Except Fault Answer × Session σ
  | .perform command => s.perform command
  | .step => ofOutcome s.active s.step
  | .abandon => (.ok .done, { s with active := s.active.tail })

def after (s : Session σ) (moves : List Move) : Session σ :=
  moves.foldl (fun s move => (s.move move).2) s

def answers (s : Session σ) : List Move → List (Except Fault Answer)
  | [] => []
  | move :: moves => (s.move move).1 :: (s.move move).2.answers moves

/-- Carries out commands one after the other, each to its end. -/
def executeAll (s : Session σ) : List Command → List (Except Fault Answer) × Session σ
  | [] => ([], s)
  | command :: commands =>
    let (answer, next) := s.execute command
    let (answers, last) := next.executeAll commands
    (answer :: answers, last)

/-- Every command that a run carries out meets a condition on the store that it finds. -/
def Obeys (condition : σ → Command → Prop) (s : Session σ) : List Move → Prop
  | [] => True
  | move :: moves =>
    (∀ command ∈ s.command? move, condition s.store command) ∧ (s.move move).2.Obeys condition moves

instance decidableObeys (condition : σ → Command → Prop)
    [∀ store command, Decidable (condition store command)] :
    (s : Session σ) → (moves : List Move) → Decidable (s.Obeys condition moves)
  | _, [] => isTrue trivial
  | s, move :: moves =>
    have := decidableObeys condition (s.move move).2 moves
    inferInstanceAs (Decidable ((∀ command ∈ s.command? move, condition s.store command) ∧
      (s.move move).2.Obeys condition moves))

/-- The same for commands carried out to their ends, with all steps of their refreshes. -/
def ObeysAll (condition : σ → Command → Prop) (s : Session σ) : List Command → Prop
  | [] => True
  | command :: commands =>
    (∀ n, s.Obeys condition (.perform command :: List.replicate n .step)) ∧
      (s.execute command).2.ObeysAll condition commands

theorem after_nil (s : Session σ) : s.after [] = s := rfl

theorem after_cons (s : Session σ) (move : Move) (moves : List Move) :
    s.after (move :: moves) = (s.move move).2.after moves := rfl

theorem after_append (s : Session σ) (moves others : List Move) :
    s.after (moves ++ others) = (s.after moves).after others :=
  List.foldl_append

theorem after_concat (s : Session σ) (moves : List Move) (move : Move) :
    s.after (moves ++ [move]) = ((s.after moves).move move).2 := by
  rw [after_append]
  rfl

theorem obeys_append (condition : σ → Command → Prop) (s : Session σ) (moves others : List Move) :
    s.Obeys condition (moves ++ others) ↔
      s.Obeys condition moves ∧ (s.after moves).Obeys condition others := by
  induction moves generalizing s with
  | nil => simp [Obeys, after]
  | cons move moves ih => simp [Obeys, ih, after_cons, and_assoc]

theorem Obeys.mono {condition other : σ → Command → Prop} {s : Session σ} {moves : List Move}
    (h : s.Obeys condition moves)
    (himp : ∀ store command, condition store command → other store command) :
    s.Obeys other moves := by
  induction moves generalizing s with
  | nil => trivial
  | cons move moves ih =>
    exact ⟨fun command hcommand => himp _ command (h.1 command hcommand), ih h.2⟩

theorem ObeysAll.mono {condition other : σ → Command → Prop} {s : Session σ} {commands : List Command}
    (h : s.ObeysAll condition commands)
    (himp : ∀ store command, condition store command → other store command) :
    s.ObeysAll other commands := by
  induction commands generalizing s with
  | nil => trivial
  | cons command commands ih => exact ⟨fun n => (h.1 n).mono himp, ih h.2⟩

theorem obeys_of_forall {condition : σ → Command → Prop}
    (h : ∀ store command, condition store command) (s : Session σ) (moves : List Move) :
    s.Obeys condition moves := by
  induction moves generalizing s with
  | nil => trivial
  | cons move moves ih => exact ⟨fun command _ => h _ command, ih _⟩

theorem fill_store (s : Session σ) (source target : CellKey) :
    (s.fill source target).2.store = (CellStore.fill s.store source target).2 := by
  unfold fill
  split
  · rename_i h
    rw [h]
  · rename_i h
    rw [h]
    split <;> rfl

theorem perform_store (s : Session σ) (command : Command) :
    (s.perform command).2.store = command.operate s.store := by
  cases command with
  | fill source target => exact s.fill_store source target
  | listen listener script => exact s.declare_store listener script
  | unlisten listener => exact s.declare_store listener []
  | _ => rfl

theorem stepScript_store (s : Session σ) (name : String) (top : Activation)
    (below : List Activation) :
    (ofOutcome active (s.stepScript name top below)).2.store =
      match (s.scripts.takeCommand? name).map Prod.fst with
      | some command => command.operate s.store
      | none => s.store := by
  unfold stepScript
  cases s.scripts.takeCommand? name with
  | none => rfl
  | some taken =>
    obtain ⟨command, scripts⟩ := taken
    have hstore := { s with scripts := scripts }.perform_store command
    simp only [Option.map_some]
    cases hperform : { s with scripts := scripts }.perform command with
    | mk outcome s' =>
      rw [hperform] at hstore
      cases outcome with
      | ok answer => exact hstore
      | error fault => exact hstore

theorem stepCell_store (s : Session σ) (key : CellKey) (rest : List CellKey) (top : Activation)
    (below : List Activation) :
    (ofOutcome active (s.stepCell key rest top below)).2.store = (CellStore.read s.store key).2 := by
  unfold stepCell
  split
  · rename_i h
    rw [h]
    rfl
  · rename_i h
    rw [h]
    rfl

/-- A step operates on the store as its command does, if it has one. -/
theorem step_store (s : Session σ) :
    (ofOutcome s.active s.step).2.store =
      match s.nextCommand? with
      | some command => command.operate s.store
      | none => s.store := by
  unfold step nextCommand?
  cases hactive : s.active with
  | nil => rfl
  | cons top below =>
    obtain ⟨speaker, calls, rest, count⟩ := top
    cases speaker with
    | some name => exact s.stepScript_store name _ below
    | none =>
      cases calls with
      | cons notice calls => rfl
      | nil =>
        cases rest with
        | cons key rest => exact s.stepCell_store key rest _ below
        | nil => exact s.stepBatch_store _ below

theorem move_store (s : Session σ) (move : Move) :
    (s.move move).2.store =
      match s.command? move with
      | some command => command.operate s.store
      | none => s.store := by
  cases move with
  | perform command => exact s.perform_store command
  | step => exact s.step_store
  | abandon => rfl

/-- A move leaves the store alone or operates on it by a command. -/
theorem move_store_cases (s : Session σ) (move : Move) :
    (s.move move).2.store = s.store ∨
      ∃ command ∈ s.command? move, (s.move move).2.store = command.operate s.store := by
  have hstore := s.move_store move
  cases hcommand : s.command? move with
  | none =>
    rw [hcommand] at hstore
    exact Or.inl hstore
  | some command =>
    rw [hcommand] at hstore
    exact Or.inr ⟨command, rfl, hstore⟩

variable {s s' : Session σ}

/-- Once a session is idle, further steps ask for no command. -/
theorem obeys_steps_of_idle {condition : σ → Command → Prop} (h : s.active = []) (n : Nat) :
    s.Obeys condition (List.replicate n .step) := by
  have hstep : (s.move .step).2 = s := by
    simp [move, step, h, ofOutcome]
  induction n with
  | zero => trivial
  | succ n ih =>
    refine ⟨?_, ?_⟩
    · simp [command?, nextCommand?, h]
    · rw [hstep]
      exact ih

/-- Steps obey a condition for ever if they do so until the session is idle. -/
theorem obeys_steps {condition : σ → Command → Prop} {k : Nat}
    (ho : s.Obeys condition (List.replicate k .step))
    (h : (s.after (List.replicate k .step)).active = []) (n : Nat) :
    s.Obeys condition (List.replicate n .step) := by
  rcases Nat.le_total n k with hle | hle
  · obtain ⟨rest, rfl⟩ := Nat.exists_eq_add_of_le hle
    rw [← List.replicate_append_replicate, obeys_append] at ho
    exact ho.1
  · obtain ⟨rest, rfl⟩ := Nat.exists_eq_add_of_le hle
    rw [← List.replicate_append_replicate, obeys_append]
    exact ⟨ho, obeys_steps_of_idle h rest⟩

theorem obeys_perform_steps {condition : σ → Command → Prop} {command : Command} (k : Nat)
    (ho : s.Obeys condition (.perform command :: List.replicate k .step))
    (h : (s.after (.perform command :: List.replicate k .step)).active = []) (n : Nat) :
    s.Obeys condition (.perform command :: List.replicate n .step) :=
  ⟨ho.1, obeys_steps ho.2 h n⟩

theorem settle_of_running (h : s.step = .running s') : s.settle = s'.settle := by
  rw [settle]
  split <;> simp_all

theorem settle_of_finished {count : Nat} (h : s.step = .finished count s') :
    s.settle = (.ok count, s') := by
  rw [settle]
  split <;> simp_all

theorem settle_of_failed {fault : Fault} (h : s.step = .failed fault s') :
    s.settle = (.error fault, s') := by
  rw [settle]
  split <;> simp_all

/-- A refresh is settled by steps. -/
theorem exists_settle_eq_after (s : Session σ) :
    ∃ n, s.settle.2 = s.after (List.replicate n .step) := by
  induction s using settle.induct with
  | case1 s s' hstep ih =>
    obtain ⟨n, hn⟩ := ih
    refine ⟨n + 1, ?_⟩
    rw [settle_of_running hstep, hn, List.replicate_succ, after_cons, move, hstep]
    rfl
  | case2 s count s' hstep =>
    refine ⟨1, ?_⟩
    rw [settle_of_finished hstep, List.replicate_one, after_cons, move, hstep]
    rfl
  | case3 s fault s' hstep =>
    refine ⟨1, ?_⟩
    rw [settle_of_failed hstep, List.replicate_one, after_cons, move, hstep]
    rfl

theorem execute_of_ne_refresh {command : Command} (h : command ≠ .refresh) (s : Session σ) :
    s.execute command = s.perform command := by
  cases command with
  | refresh => exact absurd rfl h
  | _ => rfl

theorem exists_execute_eq_after (s : Session σ) (command : Command) :
    ∃ n, (s.execute command).2 = s.after (.perform command :: List.replicate n .step) := by
  by_cases h : command = .refresh
  · subst h
    obtain ⟨n, hn⟩ := (s.perform .refresh).2.exists_settle_eq_after
    exact ⟨n, hn⟩
  · refine ⟨0, ?_⟩
    rw [execute_of_ne_refresh h]
    rfl

end Session

/-- What the operations of a store keep, as long as its writing commands meet a condition. -/
structure CellStore.Keeps {σ : Type} [CellStore σ] (condition : σ → Command → Prop)
    (invariant : σ → Prop) : Prop where
  read : ∀ {store} key, invariant store → invariant (CellStore.read store key).2
  edit : ∀ {store} key text, invariant store → condition store (.edit key text) →
    invariant (CellStore.edit store key text).2
  invalidate : ∀ {store} key, invariant store → invariant (CellStore.invalidate store key).2
  fill : ∀ {store} source target, invariant store → condition store (.fill source target) →
    invariant (CellStore.fill store source target).2
  clear : ∀ {store}, invariant store → invariant (CellStore.clear store)

namespace CellStore

variable {σ : Type} [CellStore σ] {condition : σ → Command → Prop} {invariant : σ → Prop}
  {store : σ}

theorem readAll_invariant (hread : ∀ {store} key, invariant store → invariant (read store key).2)
    (keys : List CellKey) (h : invariant store) : invariant (readAll store keys).2 := by
  induction keys generalizing store with
  | nil => exact h
  | cons key keys ih =>
    have hfirst := hread key h
    unfold readAll
    split
    · rename_i heq
      rwa [heq] at hfirst
    · rename_i heq
      rw [heq] at hfirst
      have hrest := ih hfirst
      split
      · rename_i heq
        rwa [heq] at hrest
      · rename_i heq
        rwa [heq] at hrest

/-- What every reading keeps is kept by rendering. -/
theorem renderRows_invariant
    (hread : ∀ {store} key, invariant store → invariant (read store key).2)
    (rows : List Int) (h : invariant store) : invariant (renderRows store rows).2 := by
  induction rows generalizing store with
  | nil => exact h
  | cons row rows ih =>
    have hfirst := readAll_invariant hread (rowKeys (columns store) row) h
    unfold renderRows
    split
    · rename_i heq
      rwa [heq] at hfirst
    · rename_i heq
      rw [heq] at hfirst
      have hrest := ih hfirst
      split
      · rename_i heq
        rwa [heq] at hrest
      · rename_i heq
        rwa [heq] at hrest

theorem Keeps.operate (hk : Keeps condition invariant) {command : Command} (h : invariant store)
    (hc : condition store command) : invariant (command.operate store) := by
  cases command with
  | edit key text => exact hk.edit key text h hc
  | read key => exact hk.read key h
  | render rows => exact renderRows_invariant hk.read rows h
  | invalidate key => exact hk.invalidate key h
  | fill source target => exact hk.fill source target h hc
  | clear => exact hk.clear h
  | _ => exact h

theorem Keeps.move (hk : Keeps condition invariant) {s : Session σ} {move : Move}
    (h : invariant s.store) (hc : ∀ command ∈ s.command? move, condition s.store command) :
    invariant (s.move move).2.store := by
  rcases s.move_store_cases move with hsame | ⟨command, hcommand, hstore⟩
  · rw [hsame]
    exact h
  · rw [hstore]
    exact hk.operate h (hc command hcommand)

/-- What every operation keeps holds after every run. -/
theorem Keeps.after (hk : Keeps condition invariant) {s : Session σ} {moves : List Move}
    (h : invariant s.store) (ho : s.Obeys condition moves) : invariant (s.after moves).store := by
  induction moves generalizing s with
  | nil => exact h
  | cons move moves ih => exact ih (hk.move h ho.1) ho.2

theorem Keeps.execute (hk : Keeps condition invariant) {s : Session σ} {command : Command}
    (h : invariant s.store)
    (ho : ∀ n, s.Obeys condition (.perform command :: List.replicate n .step)) :
    invariant (s.execute command).2.store := by
  obtain ⟨n, hn⟩ := s.exists_execute_eq_after command
  rw [hn]
  exact hk.after h (ho n)

end CellStore

end FormulaGrid
