import FormulaGrid.Proofs.EventData
import FormulaGrid.Proofs.RequestEffects

/-!
# Turns of the service

When the loop has come to rest after a step, only the sheet has changed further: what was filled has been
read again, in the order of the batch, and sent to the clients. What every operation keeps is kept by every
run of such turns.
-/
namespace FormulaGrid

namespace Service
open CellStore Session

variable {s : Service}

/-- All that the feed was told and nothing else is sent to the clients. -/
theorem feedNotices_told {notices : List Notice} (h : ∀ n ∈ notices, n.listener = .feed)
    (failures : List Fault) :
    feedNotices (notices.map .told ++ failures.map .failed) = notices := by
  induction notices with
  | nil => simp [feedNotices]
  | cons n notices ih =>
    obtain ⟨hn, hnotices⟩ := List.forall_mem_cons.mp h
    have hrest := ih hnotices
    simp only [feedNotices, List.map_cons, List.cons_append, List.filterMap_cons, hn, if_true]
      at hrest ⊢
    rw [hrest]

/-- The events of the cells that are waiting to be read. -/
def waiting (s : Service) : List CellEvent :=
  (heard s.sheet s.session.queue.flatten).map fun n => ⟨n.key, n.text⟩

/-- The service in which the queued cells have been read. -/
def rested (s : Service) : Service := s.withQueue (readAll s.sheet s.session.queue.flatten).2 []

/-- When a service has come to rest, the queued cells have been read, and what was heard of them has been
sent to every client. -/
theorem settle_of_primed (h : s.session.Primed) : s.settle =
    (if s.waiting.isEmpty then [] else s.clients.map fun name => (name, s.waiting.map CellEvent.data),
      s.rested) := by
  obtain ⟨failures, hidle⟩ := takeEvents_idle h
  have hdata : (heard s.session.store s.session.queue.flatten).map
      (fun n => EventText.cell n.key n.text) = s.waiting.map CellEvent.data := by
    simp [waiting, CellEvent.data, sheet]
  simp only [settle, hidle, feedNotices_told (fun _ => listener_of_mem_heard), hdata, List.isEmpty_map]
  rfl

theorem atRest_rested (h : s.session.Primed) : s.rested.session.AtRest where
  toPrimed := ⟨h.active, h.listeners, Nat.zero_le 1, rfl, h.events⟩
  empty := rfl

theorem rested_of_atRest (h : s.session.AtRest) : s.rested = s := by
  have hempty := h.empty
  have hcallbacks := h.callbacks
  obtain ⟨settings, ⟨store, queue, active, listeners, scripts, callbacks, events⟩, clients⟩ := s
  simp_all [rested, withQueue, readAll, sheet]

theorem act_request (s : Service) (r : Request) :
    s.act (.request r) = ((s.handle r).1.map .reply, (s.handle r).2) := rfl

theorem act_eq_reply {c : ClientStep} {reply : Reply} :
    (s.act c).1 = .ok (.reply reply) ↔ ∃ r, c = .request r ∧ (s.handle r).1 = .ok reply := by
  cases c with
  | request r =>
    rw [act_request]
    cases h : (s.handle r).1 <;> simp [Except.map, h]
  | connect name => simp [act]
  | disconnect name => simp [act]

theorem act_eq_error {c : ClientStep} {fault : Fault} :
    (s.act c).1 = .error fault ↔ ∃ r, c = .request r ∧ (s.handle r).1 = .error fault := by
  cases c with
  | request r =>
    rw [act_request]
    cases h : (s.handle r).1 <;> simp [Except.map, h]
  | connect name => simp [act]
  | disconnect name => simp [act]

/-- What every operation keeps is kept by a step. -/
theorem act_keeps {invariant : Sheet → Prop} (hkeeps : CellStore.Keeps (fun _ _ => True) invariant)
    (h : invariant s.sheet) (c : ClientStep) : invariant (s.act c).2.sheet := by
  cases c with
  | request r =>
    exact handle_keeps hkeeps (admits_of_forall (fun _ _ => trivial) s r) (refresh_keeps hkeeps h) h
  | connect name => exact h
  | disconnect name => exact h

theorem primed_act (hrest : s.session.AtRest) (c : ClientStep) : (s.act c).2.session.Primed := by
  cases c with
  | request r =>
    obtain ⟨sheet, batches, hlength, -, hleft⟩ := handle_eq_withQueue hrest r
    rw [act_request, hleft]
    exact primed_withQueue hrest sheet hlength
  | connect name => exact hrest.toPrimed
  | disconnect name => exact hrest.toPrimed

theorem act_settings (s : Service) (c : ClientStep) : (s.act c).2.settings = s.settings := by
  cases c with
  | request r => exact s.handle_settings r
  | connect name => rfl
  | disconnect name => rfl

/-- A turn of a service at rest. -/
theorem turn_eq (hrest : s.session.AtRest) (c : ClientStep) :
    s.turn c = ((s.act c).1, (s.act c).2.settle.1, (s.act c).2.rested) := by
  have hsettle := settle_of_primed (primed_act hrest c)
  simp only [turn, hsettle]

theorem atRest_turn (hrest : s.session.AtRest) (c : ClientStep) :
    (s.turn c).2.2.session.AtRest := by
  rw [turn_eq hrest]
  exact atRest_rested (primed_act hrest c)

theorem turn_settings (hrest : s.session.AtRest) (c : ClientStep) :
    (s.turn c).2.2.settings = s.settings := by
  rw [turn_eq hrest]
  exact s.act_settings c

/-- What a step leaves is read in the rest of the turn. -/
theorem turn_keeps {invariant : Sheet → Prop} (hkeeps : CellStore.Keeps (fun _ _ => True) invariant)
    (hrest : s.session.AtRest) (h : invariant s.sheet) (c : ClientStep) :
    invariant (s.turn c).2.2.sheet := by
  rw [turn_eq hrest]
  exact readAll_invariant hkeeps.read _ (act_keeps hkeeps h c)

theorem atRest_start (settings : Settings) {session : Session Sheet} (h : session.Unused) :
    (start settings session).session.AtRest where
  active := h.active
  listeners := by simp [start, Session.listen, declare, enterLoop, h.listeners]
  queue := by simp [start, Session.listen, declare, enterLoop, h.queue]
  callbacks := by simp [start, Session.listen, declare, enterLoop, h.queue]
  events := h.events
  empty := h.queue

/-- A service that opens with an empty sheet. -/
def opened (settings : Settings) : Service :=
  start settings (.start (.empty settings.columns settings.guarded))

theorem atRest_opened (settings : Settings) : (opened settings).session.AtRest :=
  atRest_start settings ⟨rfl, rfl, rfl, rfl⟩

/-- The service after some turns. -/
def afterSteps (s : Service) (steps : List ClientStep) : Service :=
  steps.foldl (fun s c => (s.turn c).2.2) s

theorem afterSteps_cons (s : Service) (c : ClientStep) (steps : List ClientStep) :
    s.afterSteps (c :: steps) = (s.turn c).2.2.afterSteps steps := rfl

theorem afterSteps_append (s : Service) (steps others : List ClientStep) :
    s.afterSteps (steps ++ others) = (s.afterSteps steps).afterSteps others :=
  List.foldl_append

theorem afterSteps_concat (s : Service) (steps : List ClientStep) (c : ClientStep) :
    s.afterSteps (steps ++ [c]) = ((s.afterSteps steps).turn c).2.2 := by
  rw [afterSteps_append]
  rfl

theorem atRest_afterSteps (hrest : s.session.AtRest) (steps : List ClientStep) :
    (s.afterSteps steps).session.AtRest := by
  induction steps generalizing s with
  | nil => exact hrest
  | cons c steps ih => exact ih (atRest_turn hrest c)

theorem afterSteps_settings (hrest : s.session.AtRest) (steps : List ClientStep) :
    (s.afterSteps steps).settings = s.settings := by
  induction steps generalizing s with
  | nil => rfl
  | cons c steps ih => exact (ih (atRest_turn hrest c)).trans (turn_settings hrest c)

/-- Every step of a run meets a condition on the service that it comes to. -/
def Obeys (condition : Service → ClientStep → Prop) (s : Service) : List ClientStep → Prop
  | [] => True
  | c :: steps => condition s c ∧ (s.turn c).2.2.Obeys condition steps

instance decidableObeys (condition : Service → ClientStep → Prop)
    [∀ s c, Decidable (condition s c)] :
    (s : Service) → (steps : List ClientStep) → Decidable (s.Obeys condition steps)
  | _, [] => isTrue trivial
  | s, c :: steps =>
    have := decidableObeys condition (s.turn c).2.2 steps
    inferInstanceAs (Decidable (condition s c ∧ (s.turn c).2.2.Obeys condition steps))

theorem afterSteps_keeps {invariant : Sheet → Prop}
    (hkeeps : CellStore.Keeps (fun _ _ => True) invariant) (hrest : s.session.AtRest)
    (h : invariant s.sheet) (steps : List ClientStep) : invariant (s.afterSteps steps).sheet := by
  induction steps generalizing s with
  | nil => exact h
  | cons c steps ih => exact ih (atRest_turn hrest c) (turn_keeps hkeeps hrest h c)

end Service

end FormulaGrid
