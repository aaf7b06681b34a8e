import FormulaGrid.EventLoop
import FormulaGrid.Proofs.Moves

/-!
# Readings for the feed

A session whose only listener is the feed, and that has at most one batch queued, comes to rest by reading
the cells of the batch in their order. It gets as far as the first cell that cannot be read, and each
reading is told to the feed. Nothing but the store has changed then.
-/
namespace FormulaGrid

namespace CellStore

variable {σ : Type} [CellStore σ]

/-- What the feed is told of cells that are read one after the other, as far as the reading gets. -/
def heard (store : σ) : List CellKey → List Notice
  | [] => []
  | key :: keys =>
    match read store key with
    | (.error _, _) => []
    | (.ok text, store) => ⟨.feed, key, text⟩ :: heard store keys

end CellStore

namespace Session
open CellStore

variable {σ : Type} [CellStore σ] {s : Session σ} {keys : List CellKey}

/-- The session in which cells have been read and the feed was told of them. -/
def readOut (s : Session σ) (keys : List CellKey) : Session σ :=
  { s with
    store := (readAll s.store keys).2
    events := s.events ++ (heard s.store keys).map .told }

/-- A refresh of which only the feed is told reads the batch in progress to its end, or to a cell that
cannot be read. -/
theorem settle_reading (s : Session σ) (keys : List CellKey) (n : Nat)
    (hlisteners : s.listeners = [.feed]) (hqueue : s.queue = [])
    (hactive : s.active = [⟨none, [], keys, n⟩]) :
    s.settle = ((readAll s.store keys).1.map fun texts => n + texts.length,
      { s.readOut keys with active := [] }) := by
  induction keys generalizing s n with
  | nil =>
    have hstep : s.step = .finished n { s with active := [] } := by
      simp [step, stepBatch, hactive, hqueue]
    rw [settle_of_finished hstep]
    simp [readOut, readAll, heard, Except.map]
  | cons key keys ih =>
    cases hread : CellStore.read s.store key with
    | mk outcome store =>
      cases outcome with
      | error fault =>
        have hstep : s.step = .failed fault { s with store := store, active := [] } := by
          simp [step, stepCell, abort, hactive, hread]
        rw [settle_of_failed hstep]
        simp [readOut, readAll, heard, hread, Except.map]
      | ok text =>
        let notice : Notice := ⟨.feed, key, text⟩
        let calling : Session σ :=
          { s with store := store, active := [⟨none, [notice], keys, n + 1⟩] }
        let called : Session σ :=
          { calling.tell notice with active := [⟨none, [], keys, n + 1⟩] }
        have hstep : s.step = .running calling := by
          simp [step, stepCell, hactive, hread, hlisteners, notice, calling]
        have htold : calling.step = .running called := by
          simp [step, stepCall, notice, calling, called, Listener.speaker?]
        have hrest := ih called (n + 1) hlisteners hqueue rfl
        rw [settle_of_running hstep, settle_of_running htold, hrest]
        cases hlast : readAll store keys with
        | mk outcome last =>
          cases outcome with
          | error fault =>
            simp [readOut, readAll, heard, hread, hlast, Except.map, tell, notice, calling, called]
          | ok texts =>
            simp [readOut, readAll, heard, hread, hlast, Except.map, tell, notice, calling, called]
            omega

/-- Outside of any refresh, without listeners, and with nothing queued or on record. -/
structure Unused (s : Session σ) : Prop where
  active : s.active = []
  listeners : s.listeners = []
  queue : s.queue = []
  events : s.events = []

/-- Outside of any refresh, with the feed as the only listener, and at most one batch queued, which a
callback is going to read. -/
structure Primed (s : Session σ) : Prop where
  active : s.active = []
  listeners : s.listeners = [.feed]
  queue : s.queue.length ≤ 1
  callbacks : s.callbacks = some s.queue.length
  events : s.events = []

/-- Nothing is queued either. -/
structure AtRest (s : Session σ) : Prop extends Primed s where
  empty : s.queue = []

theorem refresh_of_empty (hactive : s.active = []) (hqueue : s.queue = []) :
    s.refresh = (.ok 0, s) := by
  have hsame : { s with active := [] } = s := by rw [← hactive]
  have hstep : (s.perform .refresh).2.step = .finished 0 { s with active := [] } := by
    simp [perform, step, stepBatch, hactive, hqueue, Activation.fresh]
  rw [refresh, settle_of_finished hstep, hsame]

theorem refresh_of_batch (hactive : s.active = []) (hlisteners : s.listeners = [.feed])
    (hqueue : s.queue = [keys]) :
    s.refresh = ((readAll s.store keys).1.map List.length, { s.readOut keys with queue := [] }) := by
  let taken : Session σ := { s with queue := [], active := [⟨none, [], keys, 0⟩] }
  have hstep : (s.perform .refresh).2.step = .running taken := by
    simp [perform, step, stepBatch, hactive, hqueue, Activation.fresh, taken]
  rw [refresh, settle_of_running hstep, settle_reading taken keys 0 hlisteners rfl rfl]
  simp [taken, readOut, hactive]

theorem runCallbacks_of_none (h : s.callbacks = some 0) (n : Nat) : s.runCallbacks n = s := by
  induction n with
  | zero => rfl
  | succ n ih =>
    have hcallback : s.runCallback = s := by simp [runCallback, h]
    rw [runCallbacks, hcallback, ih]

/-- A callback that refreshes a batch leaves the session with its cells read, and a failure on record
if one of them could not be. -/
theorem runCallback_of_batch (hactive : s.active = []) (hlisteners : s.listeners = [.feed])
    (hqueue : s.queue = [keys]) (hcallbacks : s.callbacks = some 1) :
    ∃ failures : List Fault, s.runCallback = { s.readOut keys with
      queue := []
      callbacks := some 0
      events := (s.readOut keys).events ++ failures.map .failed } := by
  have hrefresh := refresh_of_batch (s := { s with callbacks := some 0 }) hactive hlisteners hqueue
  simp only [runCallback, hcallbacks, hrefresh]
  cases (readAll s.store keys).1 with
  | ok texts => exact ⟨[], by simp [Except.map, readOut]⟩
  | error fault => exact ⟨[fault], by simp [Except.map, readOut]⟩

/-- When the loop has come to rest, the queued cells have been read, and nothing is queued or scheduled. -/
theorem takeEvents_idle (h : s.Primed) :
    ∃ failures : List Fault, s.idle.takeEvents =
      ((heard s.store s.queue.flatten).map .told ++ failures.map .failed,
        { s with
          store := (readAll s.store s.queue.flatten).2
          queue := []
          callbacks := some 0 }) := by
  obtain ⟨hactive, hlisteners, hlength, hcallbacks, hevents⟩ := h
  unfold idle
  rcases hqueue : s.queue with _ | ⟨keys, _ | ⟨other, queue⟩⟩
  · have hnone : s.callbacks = some 0 := by rw [hcallbacks, hqueue]; rfl
    rw [runCallbacks_of_none hnone]
    refine ⟨[], Prod.ext hevents ?_⟩
    simp [takeEvents, readAll, hqueue, hnone, hevents]
  · have hone : s.callbacks = some 1 := by rw [hcallbacks, hqueue]; rfl
    obtain ⟨failures, hcallback⟩ := runCallback_of_batch hactive hlisteners hqueue hone
    rw [hone, Option.getD_some, Nat.add_comm, runCallbacks, hcallback, runCallbacks_of_none rfl]
    exact ⟨failures, by simp [takeEvents, readOut, hevents]⟩
  · simp [hqueue] at hlength

theorem listener_of_mem_heard {store : σ} {notice : Notice} (h : notice ∈ heard store keys) :
    notice.listener = .feed := by
  induction keys generalizing store with
  | nil => cases h
  | cons key keys ih =>
    unfold heard at h
    split at h
    · cases h
    · rcases List.mem_cons.mp h with rfl | h
      · rfl
      · exact ih h

end Session

end FormulaGrid
