import FormulaGrid.Proofs.LedgerBalance
import FormulaGrid.Proofs.Turns
import FormulaGrid.Sheet

/-!
# Conservation of refreshes

Along a run every turn of the session is entered in a ledger, which shows at each moment what the session
has in its queue, what its refreshes have still to do and what its listeners have been told. So the
balance of the ledger is a fact about the session: no refresh is lost or made twice, whatever the
listeners do.
-/
namespace FormulaGrid

variable {σ : Type}

namespace Session

variable [CellStore σ]

/-- Enters a command: the beginning of a refresh, a clearing, or the cells of a formula that it has
filled. -/
def enterCommand (s : Session σ) (l : Ledger) : Command → Ledger
  | .refresh => l.start
  | .clear => l.clear
  | command => (s.batch? command).elim l l.issue

/-- Enters the next step, without the end that a fault would put to it. -/
def enterStep (s : Session σ) (l : Ledger) : Ledger :=
  match s.active with
  | [] => l
  | top :: _ =>
    match top.speaker, top.calls, top.rest with
    | some name, _, _ =>
      match s.scripts.takeCommand? name with
      | some (command, scripts) => { s with scripts := scripts }.enterCommand l command
      | none => l
    | none, _ :: _, _ => l.tell
    | none, [], key :: _ => l.visit (CellStore.read s.store key).1.toOption s.listeners
    | none, [], [] => if s.queue = [] then l.finish else l.take

def enterMove (s : Session σ) (l : Ledger) : Move → Ledger
  | .perform command => s.enterCommand l command
  | .step =>
    match s.step with
    | .failed _ _ => (s.enterStep l).interruptAll
    | _ => s.enterStep l
  | .abandon => l.interrupt

def enterTurn (s : Session σ) (l : Ledger) : Turn → Ledger
  | .move m => s.enterMove l m
  | .caught =>
    match s.step with
    | .failed _ _ => (s.enterStep l).interrupt
    | _ => s.enterStep l
  | .callback =>
    match s.callbacks with
    | some (n + 1) => (s.calledBack n).enterMove l.start .step
    | _ => l

/-- The ledger after some turns, each entered as it is taken. -/
def enterTurns (s : Session σ) (l : Ledger) : List Turn → Ledger
  | [] => l
  | turn :: turns => (s.turn turn).2.enterTurns (s.enterTurn l turn) turns

end Session

/-- A refresh in progress without the listener that is speaking. -/
def Activation.silenced (a : Activation) : Activation := { a with speaker := none }

/-- What a session keeps of a refresh in progress. -/
def Task.activation (t : Task) : Activation :=
  ⟨none, t.calls.map Prod.snd, t.rest.map Ticket.key, t.visited.length⟩

/-- A ledger that shows the queue of a session, its refreshes in progress, and what its listeners were
told after some events. -/
structure Ledger.Shows (events : List Event) (s : Session σ) (l : Ledger) : Prop where
  queue : s.queue = l.waiting.map (List.map Ticket.key)
  active : s.active.map Activation.silenced = l.tasks.map Task.activation
  events : s.events = events ++ l.told.map fun call => .told call.2

namespace Ledger.Shows
open Session

variable {events : List Event} {s s' : Session σ} {l : Ledger}

theorem of_undisturbed (h : l.Shows events s) (hs : Undisturbed s s') : l.Shows events s' where
  queue := hs.queue.trans h.queue
  active := by
    rw [hs.active]
    exact h.active
  events := hs.events.trans h.events

theorem issue (h : l.Shows events s) (batch : List CellKey) :
    (l.issue batch).Shows events (s.enqueue batch) where
  queue := by simp [Ledger.issue, enqueue, h.queue, key_tickets]
  active := h.active
  events := h.events

theorem interrupt (h : l.Shows events s) :
    l.interrupt.Shows events { s with active := s.active.tail } := by
  have hactive := h.active
  unfold Ledger.interrupt
  split
  · rename_i htasks
    rw [htasks] at hactive
    exact ⟨h.queue, by simp [htasks, List.map_eq_nil_iff.mp hactive], h.events⟩
  · rename_i task below htasks
    rw [htasks] at hactive
    refine ⟨h.queue, ?_, h.events⟩
    rw [List.map_tail, hactive]
    rfl

theorem interruptAll (h : l.Shows events s) :
    l.interruptAll.Shows events { s with active := [] } := by
  unfold Ledger.interruptAll
  generalize hn : l.tasks.length = n
  induction n generalizing l s with
  | zero =>
    have hactive := h.active
    rw [List.eq_nil_of_length_eq_zero hn] at hactive
    exact ⟨h.queue, by simp [List.eq_nil_of_length_eq_zero hn], h.events⟩
  | succ n ih =>
    have hrest : l.interrupt.tasks.length = n := by
      rw [tasks_interrupt, List.length_tail, hn]
      rfl
    exact ih (s := { s with active := s.active.tail }) h.interrupt hrest

/-- The innermost refresh as the ledger shows it. -/
theorem top (h : l.Shows events s) {speaker : Option String} {calls : List Notice}
    {rest : List CellKey} {count : Nat} {below : List Activation}
    (hactive : s.active = ⟨speaker, calls, rest, count⟩ :: below) :
    ∃ dues left visited tasks, l.tasks = ⟨dues, left, visited⟩ :: tasks ∧
      dues.map Prod.snd = calls ∧ left.map Ticket.key = rest ∧ visited.length = count ∧
      below.map Activation.silenced = tasks.map Task.activation := by
  have hshown := h.active
  rw [hactive, List.map_cons] at hshown
  cases htasks : l.tasks with
  | nil =>
    rw [htasks] at hshown
    cases hshown
  | cons task tasks =>
    rw [htasks, List.map_cons, List.cons.injEq] at hshown
    obtain ⟨htop, hbelow⟩ := hshown
    exact ⟨task.calls, task.rest, task.visited, tasks, rfl,
      (congrArg Activation.calls htop).symm, (congrArg Activation.rest htop).symm,
      (congrArg Activation.count htop).symm, hbelow⟩

/-- The innermost refresh has a cell to read. -/
theorem reading (h : l.Shows events s) {key : CellKey} {rest : List CellKey} {count : Nat}
    {below : List Activation} (hactive : s.active = ⟨none, [], key :: rest, count⟩ :: below) :
    ∃ ticket later visited tasks, l.tasks = ⟨[], ticket :: later, visited⟩ :: tasks ∧
      ticket.key = key ∧ later.map Ticket.key = rest ∧ visited.length = count ∧
      below.map Activation.silenced = tasks.map Task.activation := by
  obtain ⟨dues, left, visited, tasks, htasks, hcalls, hrest, hcount, hbelow⟩ := h.top hactive
  obtain rfl := List.map_eq_nil_iff.mp hcalls
  obtain ⟨ticket, later, rfl, hkey, hlater⟩ := List.map_eq_cons_iff.mp hrest
  exact ⟨ticket, later, visited, tasks, htasks, hkey, hlater, hcount, hbelow⟩

/-- The innermost refresh has come to the end of a batch. -/
theorem resting (h : l.Shows events s) {count : Nat} {below : List Activation}
    (hactive : s.active = ⟨none, [], [], count⟩ :: below) :
    ∃ visited tasks, l.tasks = ⟨[], [], visited⟩ :: tasks ∧ visited.length = count ∧
      below.map Activation.silenced = tasks.map Task.activation := by
  obtain ⟨dues, left, visited, tasks, htasks, hcalls, hrest, hcount, hbelow⟩ := h.top hactive
  obtain rfl := List.map_eq_nil_iff.mp hcalls
  obtain rfl := List.map_eq_nil_iff.mp hrest
  exact ⟨visited, tasks, htasks, hcount, hbelow⟩

variable [CellStore σ]

theorem perform (h : l.Shows events s) (command : Command) :
    (s.enterCommand l command).Shows events (s.perform command).2 := by
  by_cases hrefresh : command = .refresh
  · subst hrefresh
    exact ⟨h.queue, congrArg (_ :: ·) h.active, h.events⟩
  by_cases hclear : command = .clear
  · subst hclear
    exact ⟨rfl, h.active, h.events⟩
  have henter : s.enterCommand l command = (s.batch? command).elim l l.issue := by
    cases command <;> first | rfl | contradiction
  have hsame := ((s.perform_cases command).resolve_left hrefresh).resolve_left hclear
  rw [henter]
  refine of_undisturbed ?_ hsame
  cases s.batch? command with
  | none => exact h
  | some batch => exact h.issue batch

/-- A ledger that shows the session which a step leaves; after a fault, once the innermost refresh has
been ended in it. -/
def Follows (events : List Event) (active : List Activation) (l : Ledger) : Outcome σ → Prop
  | .running s => l.Shows events s
  | .finished _ s => l.Shows events s
  | .failed _ s => l.interrupt.Shows events { s with active := active.tail }

/-- What listeners are told to do is entered like what is done from outside. -/
theorem obey (h : l.Shows events s) {name : String} {calls : List Notice} {rest : List CellKey}
    {count : Nat} {below : List Activation} {command : Command} {scripts : Scripts}
    (hactive : s.active = ⟨some name, calls, rest, count⟩ :: below)
    (htake : s.scripts.takeCommand? name = some (command, scripts)) :
    (s.enterStep l).Shows events ({ s with scripts := scripts }.perform command).2 := by
  have henter : s.enterStep l = { s with scripts := scripts }.enterCommand l command := by
    simp [enterStep, hactive, htake]
  have hscripts : l.Shows events { s with scripts := scripts } := ⟨h.queue, h.active, h.events⟩
  rw [henter]
  exact hscripts.perform command

theorem finish (h : l.Shows events s) {count : Nat} {below : List Activation}
    (hactive : s.active = ⟨none, [], [], count⟩ :: below) (hqueue : s.queue = []) :
    (s.enterStep l).Shows events { s with active := below } := by
  obtain ⟨visited, tasks, htasks, -, hbelow⟩ := h.resting hactive
  have henter : s.enterStep l = l.finish := by simp [enterStep, hactive, hqueue]
  rw [henter]
  simp only [Ledger.finish, htasks]
  exact ⟨h.queue, hbelow, h.events⟩

theorem step (h : l.Shows events s) : Follows events s.active (s.enterStep l) s.step := by
  refine step_elim (motive := Follows events s.active (s.enterStep l)) s
    ?idle ?silent ?obeyed ?refused ?called ?read ?unread ?taken ?ended ?returned
  case idle =>
    intro hactive
    simpa [Follows, enterStep, hactive] using h
  case silent =>
    intro name calls rest count below hactive htake
    have hsame : s.enterStep l = l := by simp [enterStep, hactive, htake]
    rw [hsame]
    refine ⟨h.queue, ?_, h.events⟩
    rw [← h.active, hactive]
    rfl
  case obeyed =>
    intro name calls rest count below command scripts answer s' hactive htake hperform
    have hdone := h.obey hactive htake
    rw [hperform] at hdone
    exact hdone
  case refused =>
    intro name calls rest count below command scripts fault s' hactive htake hperform
    have hnot : command ≠ .refresh := by
      rintro rfl
      cases hperform
    have hstays := { s with scripts := scripts }.perform_active hnot
    have hended := (h.obey hactive htake).interrupt
    rw [hstays, hperform] at hended
    exact hended
  case called =>
    intro notice calls rest count below hactive
    obtain ⟨dues, left, visited, tasks, htasks, hcalls, hrest, rfl, hbelow⟩ := h.top hactive
    obtain ⟨due, later, rfl, rfl, hlater⟩ := List.map_eq_cons_iff.mp hcalls
    have henter : s.enterStep l = { l with
        told := l.told ++ [due], tasks := ⟨later, left, visited⟩ :: tasks } := by
      simp [enterStep, hactive, Ledger.tell, htasks]
    rw [henter]
    refine ⟨h.queue, ?_, ?_⟩
    · simp [Activation.silenced, Task.activation, hlater, hrest, hbelow]
    · simp [Session.tell, h.events]
  case read =>
    intro key rest count below text store hactive hread
    obtain ⟨ticket, later, visited, tasks, htasks, rfl, hlater, rfl, hbelow⟩ := h.reading hactive
    have henter : s.enterStep l = l.visit (some text) s.listeners := by
      simp [enterStep, hactive, hread, Except.toOption]
    rw [henter]
    simp only [Ledger.visit, htasks]
    refine ⟨h.queue, ?_, h.events⟩
    simp [Activation.silenced, Task.activation, Visit.due, Function.comp_def, hlater, hbelow]
  case unread =>
    intro key rest count below fault store hactive hread
    obtain ⟨ticket, later, visited, tasks, htasks, -, -, -, hbelow⟩ := h.reading hactive
    have henter : s.enterStep l = l.visit none s.listeners := by
      simp [enterStep, hactive, hread, Except.toOption]
    rw [henter, hactive]
    simp only [Follows, Ledger.visit, htasks, Ledger.interrupt]
    exact ⟨h.queue, hbelow, h.events⟩
  case taken =>
    intro count below batch queue hactive hqueue
    obtain ⟨visited, tasks, htasks, rfl, hbelow⟩ := h.resting hactive
    obtain ⟨tickets, waiting, hwaiting, rfl, rfl⟩ :=
      List.map_eq_cons_iff.mp (h.queue.symm.trans hqueue)
    have henter : s.enterStep l = l.take := by simp [enterStep, hactive, hqueue]
    rw [henter]
    simp only [Ledger.take, hwaiting, htasks]
    refine ⟨rfl, ?_, h.events⟩
    simp [Activation.silenced, Task.activation, hbelow]
  case ended =>
    intro count hactive hqueue
    exact h.finish hactive hqueue
  case returned =>
    intro count next below hactive hqueue
    exact h.finish hactive hqueue

theorem move (h : l.Shows events s) (m : Move) : (s.enterMove l m).Shows events (s.move m).2 := by
  cases m with
  | perform command => exact h.perform command
  | step =>
    have hstep := h.step
    simp only [enterMove, Session.move]
    cases houtcome : s.step with
    | running s' => rwa [houtcome] at hstep
    | finished count s' => rwa [houtcome] at hstep
    | failed fault s' =>
      rw [houtcome] at hstep
      have hended := interruptAll hstep
      rw [interruptAll_interrupt] at hended
      have hidle : s' = { s' with active := [] } := by
        rw [← active_of_failed houtcome]
      rw [hidle]
      exact hended
  | abandon => exact h.interrupt

theorem turn (h : l.Shows events s) (turn : Turn) :
    (s.enterTurn l turn).Shows events (s.turn turn).2 := by
  cases turn with
  | move m => exact h.move m
  | caught =>
    have hstep := h.step
    simp only [enterTurn, Session.turn]
    cases houtcome : s.step with
    | running s' => rwa [houtcome] at hstep
    | finished count s' => rwa [houtcome] at hstep
    | failed fault s' => rwa [houtcome] at hstep
  | callback =>
    have hbegun (n : Nat) : l.start.Shows events (s.calledBack n) :=
      ⟨h.queue, congrArg (_ :: ·) h.active, h.events⟩
    simp only [enterTurn, Session.turn, startCallback]
    rcases s.callbacks with _ | _ | n
    · exact h
    · exact h
    · exact (hbegun n).move .step

end Ledger.Shows

namespace Ledger.Balanced
open Session

variable [CellStore σ] {l : Ledger}

theorem enterCommand (h : l.Balanced) (s : Session σ) (command : Command) :
    (s.enterCommand l command).Balanced := by
  unfold Session.enterCommand
  split
  · exact h.start
  · exact h.clear
  · cases s.batch? command with
    | none => exact h
    | some batch => exact h.issue batch

theorem enterStep (h : l.Balanced) (s : Session σ) : (s.enterStep l).Balanced := by
  unfold Session.enterStep
  split
  · exact h
  split
  · split
    · exact h.enterCommand _ _
    · exact h
  · exact h.tell
  · exact h.visit _ _
  · split
    · exact h.finish
    · exact h.take

theorem enterMove (h : l.Balanced) (s : Session σ) (m : Move) : (s.enterMove l m).Balanced := by
  unfold Session.enterMove
  split
  · exact h.enterCommand s _
  · split
    · exact (h.enterStep s).interruptAll
    · exact h.enterStep s
  · exact h.interrupt

theorem enterTurn (h : l.Balanced) (s : Session σ) (turn : Turn) :
    (s.enterTurn l turn).Balanced := by
  unfold Session.enterTurn
  split
  · exact h.enterMove s _
  · split
    · exact (h.enterStep s).interrupt
    · exact h.enterStep s
  · split
    · exact h.start.enterMove _ _
    · exact h

end Ledger.Balanced

namespace Session

variable [CellStore σ] {s s' : Session σ} {l : Ledger} {events : List Event}

theorem ledger_of_turns (hshows : l.Shows events s) (hbalanced : l.Balanced) (turns : List Turn) :
    (s.enterTurns l turns).Shows events (s.afterTurns turns) ∧ (s.enterTurns l turns).Balanced := by
  induction turns generalizing s l with
  | nil => exact ⟨hshows, hbalanced⟩
  | cons turn turns ih => exact ih (hshows.turn turn) (hbalanced.enterTurn s turn)

theorem length_active_perform (s : Session σ) (command : Command) :
    s.active.length ≤ (s.perform command).2.active.length := by
  by_cases h : command = .refresh
  · subst h
    exact Nat.le_succ _
  · exact Nat.le_of_eq (congrArg List.length (s.perform_active h).symm)

/-- A refresh returns only when it has read and told all and nothing is queued any more. -/
theorem returns_of_step {n : Nat} (hactive : s.active ≠ [])
    (h : (ofOutcome s.active s.step).1 = .ok (.count n)) :
    s.queue = [] ∧ (ofOutcome s.active s.step).2.queue = [] ∧
      ∃ below, s.active = ⟨none, [], [], n⟩ :: below := by
  refine step_elim (motive := fun outcome => (ofOutcome s.active outcome).1 = .ok (.count n) →
      s.queue = [] ∧ (ofOutcome s.active outcome).2.queue = [] ∧
        ∃ below, s.active = ⟨none, [], [], n⟩ :: below) s
    ?idle ?silent ?obeyed ?refused ?called ?read ?unread ?taken ?ended ?returned h
  case idle =>
    intro hidle
    exact absurd hidle hactive
  case obeyed =>
    intro name calls rest count below command scripts answer s' hs _ hperform hcount
    have hlength := { s with scripts := scripts }.length_active_perform command
    rw [hperform] at hlength
    simp only [hs, List.length_cons] at hlength
    have hmore : s'.active.length ≠ below.length := by omega
    simp [ofOutcome, progress, hs, hmore] at hcount
  case ended =>
    intro count hs hqueue hcount
    obtain rfl : count = n := by simpa [ofOutcome] using hcount
    exact ⟨hqueue, hqueue, [], hs⟩
  case returned =>
    intro count next below hs hqueue hcount
    obtain rfl : count = n := by simpa [ofOutcome, progress, hs] using hcount
    exact ⟨hqueue, hqueue, next :: below, hs⟩
  -- all other steps leave as many refreshes in progress as there were, or fail
  case silent =>
    intro name calls rest count below hs _ hcount
    simp [ofOutcome, progress, hs] at hcount
  case called =>
    intro notice calls rest count below hs hcount
    simp [ofOutcome, progress, hs] at hcount
  case read =>
    intro key rest count below text store hs _ hcount
    simp [ofOutcome, progress, hs] at hcount
  case taken =>
    intro count below batch queue hs _ hcount
    simp [ofOutcome, progress, hs] at hcount
  case refused =>
    intro name calls rest count below command scripts fault s' _ _ _ hcount
    cases hcount
  case unread =>
    intro key rest count below fault store _ _ hcount
    cases hcount

/-- When a refresh returns, the ledger has just entered what it has read. -/
theorem returned_of_step {n : Nat} (hshows : l.Shows events s) (hactive : s.active ≠ [])
    (h : (ofOutcome s.active s.step).1 = .ok (.count n)) :
    s.queue = [] ∧ (ofOutcome s.active s.step).2.queue = [] ∧
      ∃ task below, l.tasks = task :: below ∧ task.visited.length = n ∧
        (s.enterStep l).returned = task.visited :: l.returned := by
  obtain ⟨hbefore, hafter, below, htop⟩ := returns_of_step hactive h
  refine ⟨hbefore, hafter, ?_⟩
  obtain ⟨visited, tasks, htasks, hcount, -⟩ := hshows.resting htop
  refine ⟨_, tasks, htasks, hcount, ?_⟩
  simp [enterStep, htop, hbefore, Ledger.finish, htasks]

theorem step_of_turn {turn : Turn} {answer : Answer} (hturn : turn = .move .step ∨ turn = .caught)
    (h : (s.turn turn).1 = .ok answer) (l : Ledger) :
    s.turn turn = ofOutcome s.active s.step ∧ s.enterTurn l turn = s.enterStep l := by
  rcases hturn with rfl | rfl
  · refine ⟨rfl, ?_⟩
    simp only [Session.turn, Session.move] at h
    simp only [enterTurn, enterMove]
    cases houtcome : s.step with
    | failed fault s' =>
      rw [houtcome] at h
      cases h
    | _ => rfl
  · simp only [Session.turn] at h ⊢
    simp only [enterTurn]
    cases houtcome : s.step with
    | failed fault s' =>
      rw [houtcome] at h
      cases h
    | _ => exact ⟨rfl, rfl⟩

theorem returned_of_turn {turn : Turn} {n : Nat} (hshows : l.Shows events s)
    (hturn : turn = .move .step ∨ turn = .caught) (hactive : s.active ≠ [])
    (h : (s.turn turn).1 = .ok (.count n)) :
    s.queue = [] ∧ (s.turn turn).2.queue = [] ∧
      ∃ task below, l.tasks = task :: below ∧ task.visited.length = n ∧
        (s.enterTurn l turn).returned = task.visited :: l.returned := by
  obtain ⟨hstep, henter⟩ := step_of_turn hturn h l
  rw [hstep] at h ⊢
  rw [henter]
  exact returned_of_step hshows hactive h

/-- A step that is not the last one leaves a refresh in progress. -/
theorem active_of_running (h : s.step = .running s') : s'.active ≠ [] := by
  refine step_elim (motive := fun outcome => outcome = .running s' → s'.active ≠ []) s
    ?idle ?silent ?obeyed ?refused ?called ?read ?unread ?taken ?ended ?returned h
  case obeyed =>
    intro name calls rest count below command scripts answer next hs _ hperform heq hnone
    obtain rfl := Outcome.running.inj heq
    have hlength := { s with scripts := scripts }.length_active_perform command
    rw [hperform] at hlength
    simp [hs, hnone] at hlength
  all_goals
    intros
    rename_i heq
    cases heq <;> exact List.cons_ne_nil _ _

theorem enterTurns_append (s : Session σ) (l : Ledger) (turns others : List Turn) :
    s.enterTurns l (turns ++ others) =
      (s.afterTurns turns).enterTurns (s.enterTurns l turns) others := by
  induction turns generalizing s l with
  | nil => rfl
  | cons turn turns ih => exact ih _ _

/-- A refresh that is carried out to its end returns at the last of its steps. -/
theorem exists_last_step {n : Nat} (hactive : s.active ≠ []) (h : s.settle = (.ok n, s')) :
    ∃ k, let last := s.afterTurns (List.replicate k (.move .step))
      last.active ≠ [] ∧ last.step = .finished n s' := by
  induction s using settle.induct with
  | case1 s next hstep ih =>
    rw [settle_of_running hstep] at h
    obtain ⟨k, hlast⟩ := ih (active_of_running hstep) h
    refine ⟨k + 1, ?_⟩
    have hnext : s.afterTurns (List.replicate (k + 1) (.move .step)) =
        next.afterTurns (List.replicate k (.move .step)) := by
      simp [afterTurns, List.replicate_succ, Session.turn, Session.move, hstep, ofOutcome]
    rwa [hnext]
  | case2 s count next hstep =>
    rw [settle_of_finished hstep] at h
    obtain ⟨rfl, rfl⟩ : count = n ∧ next = s' := by simpa using h
    exact ⟨0, hactive, hstep⟩
  | case3 s fault next hstep =>
    rw [settle_of_failed hstep] at h
    cases h

/-- When a refresh returns, the queue is empty, and what the ledger enters last are as many cells as
the refresh has counted. -/
theorem returned_of_refresh {n : Nat} (hshows : l.Shows events s) (hbalanced : l.Balanced)
    (h : s.refresh = (.ok n, s')) :
    s'.queue = [] ∧ s'.active = [] ∧ ∃ k visited,
      let turns := .move (.perform .refresh) :: List.replicate k (.move .step)
      s' = s.afterTurns turns ∧ (s.enterTurns l turns).returned.head? = some visited ∧
        visited.length = n := by
  obtain ⟨k, hactive, hstep⟩ := exists_last_step (List.cons_ne_nil _ _) h
  let early : List Turn := .move (.perform .refresh) :: List.replicate k (.move .step)
  have hlast : (s.afterTurns early).turn (.move .step) = (.ok (.count n), s') := by
    have hmove : (s.afterTurns early).step = .finished n s' := hstep
    simp [Session.turn, Session.move, hmove, ofOutcome]
  have hturns : .move (.perform .refresh) :: List.replicate (k + 1) (.move .step) =
      early ++ [.move .step] := by
    rw [List.replicate_succ']
    rfl
  have hearly := (ledger_of_turns hshows hbalanced early).1
  obtain ⟨-, hqueue, task, below, -, hlength, hreturned⟩ :=
    returned_of_turn hearly (Or.inl rfl) hactive (congrArg Prod.fst hlast)
  rw [hlast] at hqueue
  refine ⟨hqueue, active_of_finished hstep, k + 1, task.visited, ?_, ?_, hlength⟩
  · rw [hturns, afterTurns, List.foldl_append]
    exact (congrArg Prod.snd hlast).symm
  · rw [hturns, enterTurns_append]
    exact congrArg List.head? hreturned

/-- In a run that starts with an empty queue the ledger, in which each turn is entered, shows what the
session has in its queue, what its refreshes have to do and what was told, and it is balanced: every
place of every batch queued is in one of its accounts and in no other. Whenever a refresh returns the
queue is empty, and the result is the number of cells that this refresh has read itself. -/
theorem refreshes_conserved (s : Session σ) (hqueue : s.queue = []) (hactive : s.active = [])
    (turns : List Turn) :
    let r := s.afterTurns turns
    let l := s.enterTurns .blank turns
    l.Shows s.events r ∧ l.Balanced ∧ l.accounts.Nodup ∧
    (∀ turn n, turn = .move .step ∨ turn = .caught → r.active ≠ [] →
      (r.turn turn).1 = .ok (.count n) →
        r.queue = [] ∧ (r.turn turn).2.queue = [] ∧ ∃ task below, l.tasks = task :: below ∧
          task.visited.length = n ∧ (r.enterTurn l turn).returned = task.visited :: l.returned) ∧
    ∀ n s', r.refresh = (.ok n, s') →
      s'.queue = [] ∧ s'.active = [] ∧ ∃ k visited,
        let refresh := .move (.perform .refresh) :: List.replicate k (.move .step)
        s' = r.afterTurns refresh ∧ (r.enterTurns l refresh).returned.head? = some visited ∧
          visited.length = n := by
  intro r l
  have hblank : Ledger.blank.Shows s.events s :=
    ⟨hqueue, by simp [hactive, Ledger.blank], by simp [Ledger.blank]⟩
  obtain ⟨hshows, hbalanced⟩ := ledger_of_turns hblank Ledger.balanced_blank turns
  refine ⟨hshows, hbalanced, hbalanced.nodup_accounts, ?_, ?_⟩
  · exact fun turn n hturn => returned_of_turn hshows hturn
  · exact fun n s' => returned_of_refresh hshows hbalanced

/-- A refresh of three cells. In its first call a listener fills two more and refreshes these, and
then, in the first call of that refresh, fills another one and clears. -/
def nestedRefresh : List Turn :=
  [.move (.perform (.edit ⟨1, 0⟩ ['=', 'B', '1'])), .move (.perform (.fill ⟨1, 0⟩ ⟨4, 0⟩)),
    .move (.perform (.listen (.named "log")
      [.fill ⟨1, 0⟩ ⟨3, 0⟩, .refresh, .fill ⟨1, 0⟩ ⟨2, 0⟩, .clear]))]

theorem refreshes_conserved_nested :
    let s := start (Sheet.empty 3 true)
    let begun := nestedRefresh ++ .move (.perform .refresh) :: List.replicate 14 (.move .step)
    let r := s.afterTurns begun
    let l := s.enterTurns .blank begun
    let before := s.afterTurns nestedRefresh
    s.queue = [] ∧ s.active = [] ∧ l.Shows s.events r ∧ l.Balanced ∧ l.accounts.Nodup ∧
    (l.visited.length, (l.tasks.map Task.rest).flatten.length, l.cleared.length) = (3, 2, 1) ∧
    (r.active ≠ [] ∧ (r.turn (.move .step)).1 = .ok (.count 2) ∧
      r.queue = [] ∧ (r.turn (.move .step)).2.queue = [] ∧
        ∃ task below, l.tasks = task :: below ∧ task.visited.length = 2 ∧
          (r.enterTurn l (.move .step)).returned = task.visited :: l.returned) ∧
    ∃ s', before.refresh = (.ok 3, s') ∧ s'.queue = [] ∧ s'.active = [] ∧ ∃ k visited,
      let refresh := .move (.perform .refresh) :: List.replicate k (.move .step)
      s' = before.afterTurns refresh ∧
        (before.enterTurns (s.enterTurns .blank nestedRefresh) refresh).returned.head? =
          some visited ∧
        visited.length = 3 := by
  intro s begun r l before
  have hactive : r.active ≠ [] := List.ne_nil_of_length_pos (by decide +kernel)
  have hcount : (r.turn (.move .step)).1 = .ok (.count 2) := by decide +kernel
  have hrefresh : before.refresh = (.ok 3, before.refresh.2) :=
    Prod.ext (settle_of_settled (n := 30) (by decide +kernel)) rfl
  obtain ⟨hshows, hbalanced, honce, hreturned, -⟩ := refreshes_conserved s rfl rfl begun
  obtain ⟨-, -, -, -, hwhole⟩ := refreshes_conserved s rfl rfl nestedRefresh
  exact ⟨rfl, rfl, hshows, hbalanced, honce, by decide +kernel,
    ⟨hactive, hcount, hreturned _ 2 (Or.inl rfl) hactive hcount⟩,
    before.refresh.2, hrefresh, hwhole 3 _ hrefresh⟩

end Session

end FormulaGrid
