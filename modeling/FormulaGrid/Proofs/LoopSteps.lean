import FormulaGrid.Proofs.ShownCells
import FormulaGrid.Proofs.Steps
import FormulaGrid.Proofs.UnreadableCells

/-!
# Steps of the loop

Between two steps of its loop a service has no refresh in progress and no listener but the feed, while any
number of batches can be queued. Whatever comes next, a step of a client, a callback or the sending of what is
on record, a refresh only reads cells of these batches. So what the writings of requests and all readings
keep is kept by every run, whether or not the loop comes to rest between the requests.
-/
namespace FormulaGrid

/-- What a session comes to by readings: cells have been read, and some batches have been taken. -/
structure Session.ReadsOn (s s' : Session Sheet) : Prop where
  store : ∃ keys, s'.store = s.store.afterReads keys
  queue : s'.queue <:+ s.queue
  listeners : s'.listeners = s.listeners

/-- The feed is the only listener, so that no script is carried out. -/
structure Session.Feeding (s : Session Sheet) : Prop where
  listeners : s.listeners = [.feed]
  silent : ∀ a ∈ s.active, a.speaker = none
  calls : ∀ a ∈ s.active, ∀ notice ∈ a.calls, notice.listener = .feed

/-- A step goes on feeding, or ends, or fails at a number that is too long; all it does is to read. -/
def Outcome.Reads (s : Session Sheet) : Outcome Sheet → Prop
  | .running s' => s'.Feeding ∧ s.ReadsOn s'
  | .finished _ s' => s.ReadsOn s'
  | .failed fault s' => s.ReadsOn s' ∧ fault = .numeralTooLong

namespace Session

variable {s s' t : Session Sheet}

theorem ReadsOn.refl (s : Session Sheet) : s.ReadsOn s := ⟨⟨[], rfl⟩, List.suffix_rfl, rfl⟩

theorem ReadsOn.trans (h : s.ReadsOn s') (h' : s'.ReadsOn t) : s.ReadsOn t := by
  obtain ⟨keys, hkeys⟩ := h.store
  obtain ⟨others, hothers⟩ := h'.store
  refine ⟨⟨keys ++ others, ?_⟩, h'.queue.trans h.queue, h'.listeners.trans h.listeners⟩
  rw [hothers, hkeys, Sheet.afterReads_append]

/-- What a feeding session can do next. -/
theorem Feeding.step (h : s.Feeding) : s.step.Reads s := by
  have hbelow {top : Activation} {below : List Activation} (hactive : s.active = top :: below) :
      (∀ a ∈ below, a.speaker = none) ∧ ∀ a ∈ below, ∀ notice ∈ a.calls, notice.listener = .feed := by
    refine ⟨fun a ha => h.silent a ?_, fun a ha => h.calls a ?_⟩ <;>
      exact hactive ▸ List.mem_cons_of_mem top ha
  have hspeechless {name : String} {calls : List Notice} {rest : List CellKey} {count : Nat}
      {below : List Activation} (hactive : s.active = ⟨some name, calls, rest, count⟩ :: below) : False := by
    have hsilent := h.silent ⟨some name, calls, rest, count⟩ (by simp [hactive])
    cases hsilent
  apply step_elim (motive := Outcome.Reads s) s
  case idle => exact fun _ => ReadsOn.refl s
  case silent =>
    intro name calls rest count below hactive _
    exact (hspeechless hactive).elim
  case obeyed =>
    intro name calls rest count below command scripts answer s' hactive _ _
    exact (hspeechless hactive).elim
  case refused =>
    intro name calls rest count below command scripts fault s' hactive _ _
    exact (hspeechless hactive).elim
  case called =>
    intro notice calls rest count below hactive
    have hfeed := h.calls ⟨none, notice :: calls, rest, count⟩ (by simp [hactive])
    obtain ⟨hsilent, hcalls⟩ := hbelow hactive
    refine ⟨⟨h.listeners, ?_, ?_⟩, ⟨⟨[], rfl⟩, List.suffix_rfl, rfl⟩⟩
    · exact List.forall_mem_cons.mpr ⟨by rw [hfeed notice (by simp)]; rfl, hsilent⟩
    · exact List.forall_mem_cons.mpr ⟨fun n hn => hfeed n (List.mem_cons_of_mem notice hn), hcalls⟩
  case read =>
    intro key rest count below text store hactive hread
    obtain ⟨hsilent, hcalls⟩ := hbelow hactive
    have hstore : store = (s.store.read key).2 := (congrArg Prod.snd hread).symm
    refine ⟨⟨h.listeners, List.forall_mem_cons.mpr ⟨rfl, hsilent⟩, ?_⟩, ?_⟩
    · exact List.forall_mem_cons.mpr ⟨by simp [h.listeners], hcalls⟩
    · exact ⟨⟨[key], hstore⟩, List.suffix_rfl, rfl⟩
  case unread =>
    intro key rest count below fault store _ hread
    have hstore : store = (s.store.read key).2 := (congrArg Prod.snd hread).symm
    exact ⟨⟨⟨[key], hstore⟩, List.suffix_rfl, rfl⟩,
      (Sheet.read_error_iff.mp (congrArg Prod.fst hread)).1⟩
  case taken =>
    intro count below batch queue hactive hqueue
    obtain ⟨hsilent, hcalls⟩ := hbelow hactive
    refine ⟨⟨h.listeners, List.forall_mem_cons.mpr ⟨rfl, hsilent⟩,
      List.forall_mem_cons.mpr ⟨by simp, hcalls⟩⟩, ⟨[], rfl⟩, ?_, rfl⟩
    rw [hqueue]
    exact List.suffix_cons batch queue
  case ended =>
    intro count _ _
    exact ⟨⟨[], rfl⟩, List.suffix_rfl, rfl⟩
  case returned =>
    intro count next below hactive _
    obtain ⟨hsilent, hcalls⟩ := hbelow hactive
    exact ⟨⟨h.listeners, hsilent, hcalls⟩, ⟨[], rfl⟩, List.suffix_rfl, rfl⟩

/-- A refresh that feeds comes to its end by readings, and fails only at a number that is too long. -/
theorem Feeding.settle (h : s.Feeding) : s.ReadsOn s.settle.2 ∧ s.settle.2.active = [] ∧
    ∀ fault, s.settle.1 = .error fault → fault = .numeralTooLong := by
  induction s using settle.induct with
  | case1 s s' hstep ih =>
    have hreads := h.step
    rw [hstep] at hreads
    obtain ⟨hsettled, hidle, hfault⟩ := ih hreads.1
    rw [settle_of_running hstep]
    exact ⟨hreads.2.trans hsettled, hidle, hfault⟩
  | case2 s count s' hstep =>
    have hreads := h.step
    rw [hstep] at hreads
    rw [settle_of_finished hstep]
    exact ⟨hreads, active_of_finished hstep, fun fault hfault => by cases hfault⟩
  | case3 s fault s' hstep =>
    have hreads := h.step
    rw [hstep] at hreads
    rw [settle_of_failed hstep]
    exact ⟨hreads.1, active_of_failed hstep, fun other hother => Except.error.inj hother ▸ hreads.2⟩

/-- Between two steps of the loop: in no refresh, and with no listener but the feed. -/
structure Listening (s : Session Sheet) : Prop where
  active : s.active = []
  listeners : s.listeners = [.feed]

theorem Listening.refresh (h : s.Listening) : s.ReadsOn s.refresh.2 ∧ s.refresh.2.Listening ∧
    ∀ fault, s.refresh.1 = .error fault → fault = .numeralTooLong := by
  have hfeeding : (s.perform .refresh).2.Feeding := by
    refine ⟨h.listeners, ?_, ?_⟩ <;> simp [perform, h.active, Activation.fresh]
  obtain ⟨hreads, hidle, hfault⟩ := hfeeding.settle
  exact ⟨⟨hreads.store, hreads.queue, hreads.listeners⟩, ⟨hidle, hreads.listeners.trans h.listeners⟩, hfault⟩

theorem Listening.runCallback (h : s.Listening) : s.ReadsOn s.runCallback ∧ s.runCallback.Listening := by
  unfold Session.runCallback
  split
  · rename_i n _
    obtain ⟨hreads, hlistening, -⟩ :=
      Listening.refresh (s := { s with callbacks := some n }) ⟨h.active, h.listeners⟩
    split
    · rename_i hrefresh
      rw [hrefresh] at hreads hlistening
      exact ⟨⟨hreads.store, hreads.queue, hreads.listeners⟩, hlistening⟩
    · rename_i hrefresh
      rw [hrefresh] at hreads hlistening
      exact ⟨⟨hreads.store, hreads.queue, hreads.listeners⟩, hlistening.active, hlistening.listeners⟩
  · exact ⟨ReadsOn.refl s, h⟩

end Session

namespace Service
open CellStore Session

/-- What the loop of a service does next. -/
inductive LoopStep where
  | client (c : ClientStep)
  /-- the callback scheduled first has its turn -/
  | callback
  /-- what is on record is sent -/
  | send

variable {s : Service} {steps others : List LoopStep}

def loopStep (s : Service) : LoopStep → Service
  | .client c => (s.act c).2
  | .callback => { s with session := s.session.runCallback }
  | .send => { s with session := s.session.takeEvents.2 }

def afterLoop (s : Service) (steps : List LoopStep) : Service := steps.foldl loopStep s

theorem afterLoop_append (s : Service) (steps others : List LoopStep) :
    s.afterLoop (steps ++ others) = (s.afterLoop steps).afterLoop others :=
  List.foldl_append

theorem afterLoop_concat (s : Service) (steps : List LoopStep) (step : LoopStep) :
    s.afterLoop (steps ++ [step]) = (s.afterLoop steps).loopStep step := by
  rw [afterLoop_append]
  rfl

theorem afterLoop_callbacks (s : Service) (n : Nat) :
    s.afterLoop (List.replicate n .callback) = { s with session := s.session.runCallbacks n } := by
  induction n generalizing s with
  | zero => rfl
  | succ n ih => exact ih { s with session := s.session.runCallback }

/-- A turn is a step of a client, the callbacks until none is left, and the sending of the record. -/
theorem exists_turn_eq_afterLoop (s : Service) (c : ClientStep) :
    ∃ n, (s.turn c).2.2 = s.afterLoop (.client c :: List.replicate n .callback ++ [.send]) := by
  refine ⟨(s.act c).2.session.callbacks.getD 0 + (s.act c).2.session.scripts.weight, ?_⟩
  rw [afterLoop_append]
  have hcallbacks := afterLoop_callbacks (s.act c).2
    ((s.act c).2.session.callbacks.getD 0 + (s.act c).2.session.scripts.weight)
  exact (congrArg (loopStep · .send) hcallbacks).symm

/-- The runs that come to rest after every step of a client are among the runs of the loop. -/
theorem exists_afterSteps_eq_afterLoop (s : Service) (clients : List ClientStep) :
    ∃ steps, s.afterSteps clients = s.afterLoop steps := by
  induction clients generalizing s with
  | nil => exact ⟨[], rfl⟩
  | cons c clients ih =>
    obtain ⟨n, hn⟩ := s.exists_turn_eq_afterLoop c
    obtain ⟨steps, hsteps⟩ := ih (s.turn c).2.2
    refine ⟨.client c :: List.replicate n .callback ++ [.send] ++ steps, ?_⟩
    rw [afterSteps_cons, hsteps, hn, ← afterLoop_append]

/-- What a request does besides the sheet: it queues a batch of filled cells, or takes batches. -/
theorem handle_session (h : s.session.Listening) (r : Request) :
    (s.handle r).2.session.Listening ∧ ∀ batch ∈ (s.handle r).2.session.queue,
      batch ∈ s.session.queue ∨ ∀ key ∈ batch, s.settings.contains key := by
  apply handle_cases (motive := fun handled => handled.2.session.Listening ∧
    ∀ batch ∈ handled.2.session.queue,
      batch ∈ s.session.queue ∨ ∀ key ∈ batch, s.settings.contains key) s r
  case idle => exact fun _ _ => ⟨h, fun _ => Or.inl⟩
  case cell =>
    intro key _
    rw [cellReply_snd]
    exact ⟨⟨h.active, h.listeners⟩, fun _ => Or.inl⟩
  case rows =>
    intro offset limit _ _
    rw [rowsReply_snd]
    exact ⟨⟨h.active, h.listeners⟩, fun _ => Or.inl⟩
  case edit =>
    intro key text _
    rcases s.editReply_snd key text with hleft | hleft
    all_goals
      rw [hleft]
      exact ⟨⟨h.active, h.listeners⟩, fun _ => Or.inl⟩
  case fill =>
    intro source target _ _ hsource htarget
    rw [fillReply_snd]
    unfold Session.fill
    rcases hfill : s.sheet.fill source target with ⟨fault | keys, sheet⟩
    all_goals
      rw [show CellStore.fill s.session.store source target = _ from hfill]
      dsimp only
    · exact ⟨⟨h.active, h.listeners⟩, fun _ => Or.inl⟩
    split
    · refine ⟨⟨h.active, h.listeners⟩, fun batch hbatch => ?_⟩
      rcases List.mem_append.mp hbatch with hbatch | hbatch
      · exact Or.inl hbatch
      · right
        obtain rfl := List.mem_singleton.mp hbatch
        rw [Sheet.keys_of_fill hfill]
        exact fun key hkey => contains_of_mem_filled hsource htarget hkey
    · exact ⟨⟨h.active, h.listeners⟩, fun _ => Or.inl⟩
  case refresh =>
    obtain ⟨hreads, hlistening, -⟩ := h.refresh
    exact ⟨hlistening, fun batch hbatch => Or.inl (hreads.queue.subset hbatch)⟩

/-- A request writes before it reads, and nothing is recorded or forgotten by writing. -/
theorem handle_writes_first (h : s.session.Listening) (r : Request) :
    ∃ w keys, w.graph = s.sheet.graph ∧ (s.handle r).2.sheet = Sheet.afterReads w keys := by
  apply handle_cases (motive := fun handled =>
    ∃ w keys, w.graph = s.sheet.graph ∧ handled.2.sheet = Sheet.afterReads w keys) s r
  case idle =>
    intro outcome _
    exact ⟨s.sheet, [], rfl, rfl⟩
  case cell =>
    intro key _
    rw [cellReply_snd]
    exact ⟨s.sheet, [key], rfl, rfl⟩
  case rows =>
    intro offset limit _ _
    obtain ⟨keys, hkeys⟩ := s.sheet.exists_renderRows_eq_afterReads
      (rowIds offset (min (offset + limit) s.settings.rows))
    rw [rowsReply_snd]
    exact ⟨s.sheet, keys, rfl, hkeys⟩
  case edit =>
    intro key text _
    rcases s.editReply_snd key text with hleft | hleft
    · exact ⟨_, [], s.sheet.edit_graph key text, by rw [hleft]; rfl⟩
    · exact ⟨_, [key], s.sheet.edit_graph key text, by rw [hleft]; rfl⟩
  case fill =>
    intro source target _ _ _ _
    refine ⟨_, [], s.sheet.fill_graph source target, ?_⟩
    rw [fillReply_snd]
    exact s.session.fill_store source target
  case refresh =>
    obtain ⟨⟨⟨keys, hkeys⟩, -, -⟩, -⟩ := h.refresh
    exact ⟨s.sheet, keys, rfl, hkeys⟩

/-- So does every step of the loop. -/
theorem loopStep_writes_first (h : s.session.Listening) (step : LoopStep) :
    ∃ w keys, w.graph = s.sheet.graph ∧ (s.loopStep step).sheet = Sheet.afterReads w keys := by
  cases step with
  | client c =>
    cases c with
    | request r => exact handle_writes_first h r
    | connect name => exact ⟨s.sheet, [], rfl, rfl⟩
    | disconnect name => exact ⟨s.sheet, [], rfl, rfl⟩
  | callback =>
    obtain ⟨⟨⟨keys, hkeys⟩, -, -⟩, -⟩ := h.runCallback
    exact ⟨s.sheet, keys, rfl, hkeys⟩
  | send => exact ⟨s.sheet, [], rfl, rfl⟩

theorem listening_loopStep (h : s.session.Listening) (step : LoopStep) :
    (s.loopStep step).session.Listening := by
  cases step with
  | client c =>
    cases c with
    | request r => exact (handle_session h r).1
    | connect name => exact h
    | disconnect name => exact h
  | callback => exact h.runCallback.2
  | send => exact ⟨h.active, h.listeners⟩

theorem listening_afterLoop (h : s.session.Listening) (steps : List LoopStep) :
    (s.afterLoop steps).session.Listening :=
  List.foldlRecOn steps _ (motive := fun t : Service => t.session.Listening) h
    fun _ ht step _ => listening_loopStep ht step

theorem afterLoop_settings (s : Service) (steps : List LoopStep) :
    (s.afterLoop steps).settings = s.settings := by
  refine List.foldlRecOn steps _ (motive := fun t : Service => t.settings = s.settings) rfl ?_
  intro t ht step _
  cases step with
  | client c => exact (t.act_settings c).trans ht
  | callback => exact ht
  | send => exact ht

/-- Every step of a run of the loop meets a condition on the service that it comes to. -/
def ObeysLoop (condition : Service → LoopStep → Prop) (s : Service) : List LoopStep → Prop
  | [] => True
  | step :: steps => condition s step ∧ (s.loopStep step).ObeysLoop condition steps

instance decidableObeysLoop (condition : Service → LoopStep → Prop)
    [∀ s step, Decidable (condition s step)] :
    (s : Service) → (steps : List LoopStep) → Decidable (s.ObeysLoop condition steps)
  | _, [] => isTrue trivial
  | s, step :: steps =>
    have := decidableObeysLoop condition (s.loopStep step) steps
    inferInstanceAs (Decidable (condition s step ∧ (s.loopStep step).ObeysLoop condition steps))

theorem loopStep_keeps {condition : Sheet → Command → Prop} {invariant : Sheet → Prop}
    (hkeeps : CellStore.Keeps condition invariant) (hl : s.session.Listening) {step : LoopStep}
    (hc : ∀ r, step = .client (.request r) → s.Admits condition r) (h : invariant s.sheet) :
    invariant (s.loopStep step).sheet := by
  have hreadOn {session : Session Sheet} (hreads : s.session.ReadsOn session) :
      invariant session.store := by
    obtain ⟨keys, hkeys⟩ := hreads.store
    rw [hkeys]
    exact List.foldlRecOn keys _ (motive := invariant) h fun _ ht key _ => hkeeps.read key ht
  cases step with
  | client c =>
    cases c with
    | request r => exact handle_keeps hkeeps (hc r rfl) (hreadOn hl.refresh.1) h
    | connect name => exact h
    | disconnect name => exact h
  | callback => exact hreadOn hl.runCallback.1
  | send => exact h

/-- What readings and certain writings keep is kept by a run of the loop whose requests make no others. -/
theorem afterLoop_keeps {condition : Sheet → Command → Prop} {invariant : Sheet → Prop}
    (hkeeps : CellStore.Keeps condition invariant) (hl : s.session.Listening)
    (ho : s.ObeysLoop (fun t step => ∀ r, step = .client (.request r) → t.Admits condition r) steps)
    (h : invariant s.sheet) : invariant (s.afterLoop steps).sheet := by
  induction steps generalizing s with
  | nil => exact h
  | cons step steps ih =>
    exact ih (listening_loopStep hl step) ho.2 (loopStep_keeps hkeeps hl ho.1 h)

theorem ObeysLoop.mono {condition other : Service → LoopStep → Prop} (h : s.ObeysLoop condition steps)
    (himp : ∀ t step, condition t step → other t step) : s.ObeysLoop other steps := by
  induction steps generalizing s with
  | nil => trivial
  | cons step steps ih => exact ⟨himp s step h.1, ih h.2⟩

theorem obeysLoop_of_forall {condition : Service → LoopStep → Prop} (h : ∀ s step, condition s step)
    (s : Service) (steps : List LoopStep) : s.ObeysLoop condition steps := by
  induction steps generalizing s with
  | nil => trivial
  | cons step steps ih => exact ⟨h s step, ih _⟩

/-- A service that opens with an empty sheet, whose cascades go down to a limit. -/
def openedTo (settings : Settings) (limit : Nat) : Service :=
  start settings (.start { Sheet.empty settings.columns settings.guarded with depthLimit := limit })

theorem listening_openedTo (settings : Settings) (limit : Nat) :
    (openedTo settings limit).session.Listening := ⟨rfl, rfl⟩

theorem recordsWritable_afterLoop (settings : Settings) (limit : Nat) (steps : List LoopStep) :
    ((openedTo settings limit).afterLoop steps).sheet.RecordsWritable :=
  afterLoop_keeps Sheet.recordsWritable_kept (listening_openedTo settings limit)
    (obeysLoop_of_forall (fun t _ r _ => admits_of_forall (fun _ _ => trivial) t r) _ steps)
    (Sheet.recordsWritable_empty settings.columns settings.guarded)

end Service

end FormulaGrid
