import FormulaGrid.Proofs.FeedReadings
import FormulaGrid.Proofs.Invalidation
import FormulaGrid.Service

/-!
# Effects of requests

A request that comes to a service at rest can do one of few things. It shows cells of the grid, writes one
of them, fills from one to another, or does nothing; and it leaves nothing queued, unless it has filled a
formula. This holds whether or not it fails.
-/
namespace FormulaGrid

/-- A fill that succeeds answers with the cells of the rectangle but the one it starts from. -/
theorem Sheet.keys_of_fill {s s' : Sheet} {source target : CellKey} {keys : List CellKey}
    (h : s.fill source target = (.ok keys, s')) : keys = filled source target := by
  unfold fill at h
  split at h
  · cases h
  split at h
  · cases h
  unfold fillCells at h
  simp only at h
  split at h
  · cases h
  split at h
  · cases h
  · exact (Except.ok.inj (Prod.mk.inj h).1).symm

namespace Request

def keyFields (key : CellKey) : List (String × Payload) :=
  [("row", .integer key.row), ("col", .integer key.col)]

/-- The request to put a text into a cell. -/
def edit (key : CellKey) (text : Text) : Request :=
  ⟨"PUT", "/grid/cell".toList, [], some (.object (keyFields key ++ [("value", .text text)]))⟩

/-- The request to fill from one cell to another. -/
def fill (source target : CellKey) : Request :=
  ⟨"POST", "/grid/fill".toList, [],
    some (.object [("source", .object (keyFields source)), ("target", .object (keyFields target))])⟩

end Request

/-- A reply that shows no cell. -/
def Reply.isBare : Reply → Bool
  | .rows _ => false
  | .cell _ => false
  | .filled _ _ => false
  | _ => true

namespace Service
open CellStore Session

variable {s : Service}

/-- The service with another sheet and a queue of batches, each of which has scheduled a callback. -/
def withQueue (s : Service) (sheet : Sheet) (batches : List (List CellKey)) : Service :=
  { s with session := { s.session with
      store := sheet, queue := batches, callbacks := some batches.length } }

/-- How a request ends that does nothing: with a bare reply, or because this could not be written. -/
def Idle (outcome : Except Fault Reply) : Prop :=
  outcome = .error .numberNotFinite ∨ ∃ reply, outcome = .ok reply ∧ reply.isBare

theorem withChecked_elim {α : Type} {motive : Handled → Prop} {x : Checked α} {go : α → Handled}
    (idle : ∀ outcome, Idle outcome → motive (outcome, s))
    (checked : ∀ a, x = .ok a → motive (go a)) : motive (s.withChecked x go) := by
  cases x with
  | ok a => exact checked a rfl
  | error flaws =>
    simp only [withChecked, refuseFlaws]
    split
    · exact idle _ (Or.inr ⟨_, rfl, rfl⟩)
    · exact idle _ (Or.inl rfl)

/-- What a request does: nothing, or it shows a cell of the grid or some rows of it, or writes a cell, or
fills from one cell to another, or refreshes what is queued. -/
theorem handle_cases {motive : Handled → Prop} (s : Service) (r : Request)
    (idle : ∀ outcome, Idle outcome → motive (outcome, s))
    (cell : ∀ key, s.settings.contains key → motive (s.cellReply key))
    (rows : ∀ offset limit, 0 ≤ offset → 1 ≤ limit → motive (s.rowsReply offset limit))
    (edit : ∀ key text, s.settings.contains key → motive (s.editReply key text))
    (fill : ∀ source target, Route.ofPath r.path = some .fill →
      r.filledCells = .ok (source, target) → s.settings.contains source →
      s.settings.contains target → motive (s.fillReply source target))
    (refresh : motive s.postRefresh) : motive (s.handle r) := by
  have bare (reply : Reply) (h : reply.isBare) : motive (.ok reply, s) :=
    idle _ (Or.inr ⟨reply, rfl, h⟩)
  unfold handle
  split
  · split
    · exact bare _ rfl
    · exact bare _ rfl
  rename_i route hroute
  split
  case isFalse => exact bare _ rfl
  cases route with
  | grid => exact bare _ rfl
  | events => exact bare _ rfl
  | refresh => exact refresh
  | cell row col =>
    apply withChecked_elim idle
    intro key _
    unfold getCell
    split
    · exact cell key ‹_›
    · exact bare _ rfl
  | rows =>
    apply withChecked_elim idle
    intro window _
    dsimp only [getRows]
    split
    · exact bare _ rfl
    split
    · exact bare _ rfl
    exact rows _ _ (by omega) (by omega)
  | edit =>
    apply withChecked_elim idle
    intro edited _
    dsimp only [putCell]
    split
    · exact edit _ _ ‹_›
    · exact bare _ rfl
  | fill =>
    apply withChecked_elim idle
    intro filled hfilled
    dsimp only [postFill]
    split
    · exact bare _ rfl
    rename_i hsource
    split
    · exact bare _ rfl
    rename_i htarget
    exact fill _ _ hroute hfilled (by simpa using hsource) (by simpa using htarget)

/-- At rest there is nothing to refresh. -/
theorem handle_elim {motive : Handled → Prop} (hrest : s.session.AtRest) (r : Request)
    (idle : ∀ outcome, Idle outcome → motive (outcome, s))
    (cell : ∀ key, s.settings.contains key → motive (s.cellReply key))
    (rows : ∀ offset limit, 0 ≤ offset → 1 ≤ limit → motive (s.rowsReply offset limit))
    (edit : ∀ key text, s.settings.contains key → motive (s.editReply key text))
    (fill : ∀ source target, Route.ofPath r.path = some .fill →
      r.filledCells = .ok (source, target) → s.settings.contains source →
      s.settings.contains target → motive (s.fillReply source target)) :
    motive (s.handle r) := by
  apply handle_cases s r idle cell rows edit fill
  rw [postRefresh, refresh_of_empty hrest.active hrest.empty]
  exact idle _ (Or.inr ⟨.refreshed 0, rfl, rfl⟩)

theorem cellReply_snd (s : Service) (key : CellKey) :
    (s.cellReply key).2 = s.onSheet (s.sheet.read key).2 := by
  unfold cellReply
  split <;> simp_all

theorem rowsReply_snd (s : Service) (offset limit : Int) :
    (s.rowsReply offset limit).2 = s.onSheet (renderRows s.sheet
      (rowIds offset (min (offset + limit) s.settings.rows))).2 := by
  unfold rowsReply
  dsimp only
  split <;> simp_all

/-- What is left of an edit has been read as well, unless the edit has failed. -/
theorem editReply_snd (s : Service) (key : CellKey) (text : Text) :
    let edited := (s.sheet.edit key text).2
    (s.editReply key text).2 = s.onSheet edited ∨
      (s.editReply key text).2 = s.onSheet (edited.read key).2 := by
  intro edited
  unfold editReply
  split
  · exact Or.inl (by simp_all [edited])
  · exact Or.inl (by simp_all [edited])
  · right
    rw [cellReply_snd]
    simp_all [edited, onSheet, sheet]

theorem fillReply_snd (s : Service) (source target : CellKey) :
    (s.fillReply source target).2 =
      { s with session := (s.session.fill source target).2 } := by
  unfold fillReply
  split <;> simp_all

theorem handle_settings (s : Service) (r : Request) : (s.handle r).2.settings = s.settings := by
  apply handle_cases (motive := fun handled => handled.2.settings = s.settings) s r
  case idle => exact fun _ _ => rfl
  case cell =>
    intro key _
    rw [cellReply_snd]
    rfl
  case rows =>
    intro offset limit _ _
    rw [rowsReply_snd]
    rfl
  case edit =>
    intro key text _
    rcases s.editReply_snd key text with hleft | hleft <;> rw [hleft] <;> rfl
  case fill =>
    intro source target _ _ _ _
    rw [fillReply_snd]
  case refresh => rfl

theorem onSheet_eq_withQueue (hrest : s.session.AtRest) (sheet : Sheet) :
    s.onSheet sheet = s.withQueue sheet [] := by
  have hempty := hrest.empty
  have hcallbacks := hrest.callbacks
  obtain ⟨settings, ⟨store, queue, active, listeners, scripts, callbacks, events⟩, clients⟩ := s
  simp_all [onSheet, withQueue]

/-- A fill that has written all its cells answers with their references. -/
theorem fillReply_of_ok {source target : CellKey} {keys : List CellKey} {sheet : Sheet}
    (h : s.sheet.fill source target = (.ok keys, sheet)) :
    (s.fillReply source target).1 = filledReply sheet source keys := by
  have hstore : CellStore.fill s.session.store source target = (.ok keys, sheet) := h
  unfold fillReply Session.fill
  rw [hstore]
  by_cases hqueued : keys ≠ [] ∧ (CellStore.rawText sheet source).isFormula
  · simp only [if_pos hqueued, enqueue]
  · simp only [if_neg hqueued]

theorem primed_withQueue (hrest : s.session.AtRest) (sheet : Sheet) {batches : List (List CellKey)}
    (h : batches.length ≤ 1) : (s.withQueue sheet batches).session.Primed :=
  ⟨hrest.active, hrest.listeners, h, rfl, hrest.events⟩

/-- A fill that fails leaves the sheet as far as it has come, and does not answer with references. -/
theorem fillReply_of_fault {source target : CellKey} {fault : Fault} {sheet : Sheet}
    (h : s.sheet.fill source target = (.error fault, sheet)) :
    (s.fillReply source target).2 = s.onSheet sheet ∧
      ∀ refs isFormula, (s.fillReply source target).1 ≠ .ok (.filled refs isFormula) := by
  have hstore : CellStore.fill s.session.store source target = (.error fault, sheet) := h
  have hfill : s.session.fill source target = (.error fault, { s.session with store := sheet }) := by
    simp [Session.fill, hstore]
  rw [fillReply_snd, hfill]
  refine ⟨rfl, ?_⟩
  intro refs isFormula
  unfold fillReply
  rw [hfill]
  cases fault <;> simp [Reply.circular, Reply.refuse]

/-- What a fill that has not failed leaves queued. -/
def filledBatches (sheet : Sheet) (source : CellKey) (keys : List CellKey) : List (List CellKey) :=
  if keys ≠ [] ∧ (sheet.rawText source).isFormula then [keys] else []

theorem fill_of_ok {source target : CellKey} {keys : List CellKey} {sheet : Sheet}
    (hrest : s.session.AtRest) (h : s.sheet.fill source target = (.ok keys, sheet)) :
    s.fillReply source target =
      (filledReply sheet source keys, s.withQueue sheet (filledBatches sheet source keys)) := by
  have hstore : CellStore.fill s.session.store source target = (.ok keys, sheet) := h
  have hunqueued : { s.session with store := sheet } = (s.withQueue sheet []).session :=
    congrArg session (onSheet_eq_withQueue hrest sheet)
  have hcallbacks : s.session.callbacks.map (· + 1) = some 1 := by
    simp [hrest.callbacks, hrest.empty]
  have hfill : s.session.fill source target =
      (.ok keys, (s.withQueue sheet (filledBatches sheet source keys)).session) := by
    simp only [Session.fill, hstore, Sheet.cellStore_rawText, filledBatches]
    split
    · simp [enqueue, withQueue, hrest.empty, hcallbacks]
    · rw [hunqueued]
  unfold fillReply
  rw [hfill]
  rfl

/-- The cells of a fill from one cell of the grid to another lie in the grid. -/
theorem contains_of_mem_filled {settings : Settings} {source target key : CellKey}
    (hsource : settings.contains source) (htarget : settings.contains target)
    (h : key ∈ Sheet.filled source target) : settings.contains key := by
  have hkey := CellKey.mem_rectangle.mp (List.mem_filter.mp h).1
  simp only [CellKey.mem_span] at hkey
  simp only [Settings.contains, Bool.and_eq_true, decide_eq_true_eq] at *
  omega

theorem Idle.ne_filled {outcome : Except Fault Reply} (h : Idle outcome) (refs : List Text)
    (isFormula : Bool) : outcome ≠ .ok (.filled refs isFormula) := by
  rcases h with rfl | ⟨reply, rfl, hbare⟩
  · simp
  · rintro heq
    obtain rfl := Except.ok.inj heq
    cases hbare

/-- A cell is answered when it has been read and can then be shown. -/
theorem cellReply_eq_ok {key : CellKey} {reply : Reply} : (s.cellReply key).1 = .ok reply ↔
    ∃ text sheet v, s.sheet.read key = (.ok text, sheet) ∧ view sheet key text = .ok v ∧
      reply = .cell v := by
  unfold cellReply
  cases s.sheet.read key with
  | mk outcome sheet =>
    cases outcome with
    | error fault => simp
    | ok text => cases hview : view sheet key text <;> simp [hview, Except.map, eq_comm]

theorem cellReply_ok {key : CellKey} {reply : Reply} (h : (s.cellReply key).1 = .ok reply) :
    ∃ v, reply = .cell v := by
  obtain ⟨text, sheet, v, -, -, hreply⟩ := cellReply_eq_ok.mp h
  exact ⟨v, hreply⟩

/-- A window is answered when its cells have been read and can then be shown. -/
theorem rowsReply_eq_ok {offset limit last : Int} {reply : Reply}
    (hlast : min (offset + limit) s.settings.rows = last) :
    (s.rowsReply offset limit).1 = .ok reply ↔
      ∃ table sheet rows, renderRows s.sheet (rowIds offset last) = (.ok table, sheet) ∧
        rowViews sheet (rowIds offset last) table = .ok rows ∧
        reply = .rows ⟨offset, rows, decide (last < s.settings.rows), max last offset⟩ := by
  subst hlast
  unfold rowsReply
  dsimp only
  cases hrender : renderRows s.sheet (rowIds offset (min (offset + limit) s.settings.rows)) with
  | mk outcome sheet =>
    cases outcome with
    | error fault => simp
    | ok table =>
      cases hrows : rowViews sheet (rowIds offset (min (offset + limit) s.settings.rows)) table with
      | error fault => simp [hrows, Except.map]
      | ok rows => simp [hrows, Except.map, eq_comm]

theorem rowsReply_ok {offset limit : Int} {reply : Reply}
    (h : (s.rowsReply offset limit).1 = .ok reply) : ∃ batch, reply = .rows batch := by
  obtain ⟨table, sheet, rows, -, -, hreply⟩ := (rowsReply_eq_ok rfl).mp h
  exact ⟨_, hreply⟩

theorem editReply_ok {key : CellKey} {text : Text} {reply : Reply}
    (h : (s.editReply key text).1 = .ok reply) : reply = .circular ∨ ∃ v, reply = .cell v := by
  unfold editReply at h
  split at h
  · exact Or.inl (Except.ok.inj h).symm
  · cases h
  · exact Or.inr (cellReply_ok h)

theorem filledReply_eq_ok {sheet : Sheet} {source : CellKey} {keys : List CellKey} {reply : Reply} :
    filledReply sheet source keys = .ok reply ↔ ∃ refs, keys.mapM CellKey.toReference = .ok refs ∧
      reply = .filled refs (sheet.rawText source).isFormula := by
  unfold filledReply
  cases keys.mapM CellKey.toReference with
  | error fault => simp [bind, Except.bind]
  | ok refs => simp [bind, Except.bind, pure, Except.pure, eq_comm]

theorem fillReply_ok {source target : CellKey} {reply : Reply}
    (h : (s.fillReply source target).1 = .ok reply) :
    reply = .circular ∨ ∃ refs isFormula, reply = .filled refs isFormula := by
  unfold fillReply at h
  split at h
  · exact Or.inl (Except.ok.inj h).symm
  · cases h
  · obtain ⟨refs, -, rfl⟩ := filledReply_eq_ok.mp h
    exact Or.inr ⟨refs, _, rfl⟩

theorem postRefresh_ok {reply : Reply} (h : s.postRefresh.1 = .ok reply) :
    ∃ count, reply = .refreshed count := by
  have hreply : s.session.refresh.1.map Reply.refreshed = .ok reply := h
  cases hrefresh : s.session.refresh.1 with
  | error fault =>
    rw [hrefresh] at hreply
    cases hreply
  | ok count =>
    rw [hrefresh] at hreply
    exact ⟨count, (Except.ok.inj hreply).symm⟩

/-- Nothing is left queued, and no formula is said to have been filled into any cell. -/
structure Unqueued (s : Service) (handled : Handled) (sheet : Sheet) : Prop where
  left : handled.2 = s.withQueue sheet []
  unfilled : ∀ refs, handled.1 = .ok (.filled refs true) → refs = []

/-- A formula has been filled from one cell to another, and the cells filled are queued. -/
structure Queued (s : Service) (handled : Handled) (source target : CellKey) (keys : List CellKey)
    (sheet : Sheet) : Prop where
  hasSource : s.settings.contains source
  hasTarget : s.settings.contains target
  filled : s.sheet.fill source target = (.ok keys, sheet)
  isFormula : (sheet.rawText source).isFormula
  reply : handled = (filledReply sheet source keys, s.withQueue sheet [keys])

theorem Queued.contains {handled : Handled} {source target : CellKey} {keys : List CellKey}
    {sheet : Sheet} (h : s.Queued handled source target keys sheet) {key : CellKey} (hkey : key ∈ keys) :
    s.settings.contains key := by
  rw [Sheet.keys_of_fill h.filled] at hkey
  exact contains_of_mem_filled h.hasSource h.hasTarget hkey

/-- How a request leaves a service at rest. -/
def Leaves (s : Service) (handled : Handled) : Prop :=
  (∃ sheet, s.Unqueued handled sheet) ∨
    ∃ source target keys sheet, s.Queued handled source target keys sheet

theorem leaves_of_unfilled {handled : Handled} {sheet : Sheet} (hrest : s.session.AtRest)
    (hleft : handled.2 = s.onSheet sheet)
    (hbare : ∀ refs isFormula, handled.1 ≠ .ok (.filled refs isFormula)) : s.Leaves handled :=
  Or.inl ⟨sheet, hleft.trans (onSheet_eq_withQueue hrest sheet),
    fun refs h => absurd h (hbare refs true)⟩

theorem leaves_fillReply {source target : CellKey} (hrest : s.session.AtRest)
    (hsource : s.settings.contains source) (htarget : s.settings.contains target) :
    s.Leaves (s.fillReply source target) := by
  rcases hfill : s.sheet.fill source target with ⟨fault | keys, sheet⟩
  · obtain ⟨hleft, hbare⟩ := fillReply_of_fault hfill
    exact leaves_of_unfilled hrest hleft hbare
  have hreply := fill_of_ok hrest hfill
  by_cases hformula : keys ≠ [] ∧ (sheet.rawText source).isFormula
  · rw [filledBatches, if_pos hformula] at hreply
    exact Or.inr ⟨source, target, keys, sheet, hsource, htarget, hfill, hformula.2, hreply⟩
  · rw [filledBatches, if_neg hformula] at hreply
    refine Or.inl ⟨sheet, by rw [hreply], ?_⟩
    intro refs h
    rw [hreply] at h
    obtain ⟨refs', hrefs, heq⟩ := filledReply_eq_ok.mp h
    obtain ⟨rfl, hraw⟩ := Reply.filled.inj heq
    obtain rfl : keys = [] := by simpa [← hraw] using hformula
    simpa [pure, Except.pure] using hrefs.symm

/-- A request to a service at rest leaves nothing queued, or has filled a formula and left the cells
queued. -/
theorem handle_leaves (hrest : s.session.AtRest) (r : Request) : s.Leaves (s.handle r) := by
  apply handle_elim (motive := s.Leaves) hrest r
  case idle =>
    intro outcome hidle
    exact leaves_of_unfilled hrest rfl hidle.ne_filled
  case cell =>
    intro key _
    apply leaves_of_unfilled hrest (s.cellReply_snd key)
    intro refs isFormula h
    obtain ⟨v, hv⟩ := cellReply_ok h
    cases hv
  case rows =>
    intro offset limit _ _
    apply leaves_of_unfilled hrest (s.rowsReply_snd offset limit)
    intro refs isFormula h
    obtain ⟨batch, hbatch⟩ := rowsReply_ok h
    cases hbatch
  case edit =>
    intro key text _
    have hbare : ∀ refs isFormula, (s.editReply key text).1 ≠ .ok (.filled refs isFormula) := by
      intro refs isFormula h
      rcases editReply_ok h with hcircular | ⟨v, hv⟩
      · cases hcircular
      · cases hv
    rcases s.editReply_snd key text with hleft | hleft
    · exact leaves_of_unfilled hrest hleft hbare
    · exact leaves_of_unfilled hrest hleft hbare
  case fill =>
    intro source target _ _ hsource htarget
    exact leaves_fillReply hrest hsource htarget

/-- A request changes the sheet only, and leaves one batch of cells of the grid queued at most. -/
theorem handle_eq_withQueue (hrest : s.session.AtRest) (r : Request) :
    ∃ sheet batches, batches.length ≤ 1 ∧ (∀ batch ∈ batches, ∀ key ∈ batch, s.settings.contains key) ∧
      (s.handle r).2 = s.withQueue sheet batches := by
  rcases handle_leaves hrest r with ⟨sheet, hleaves⟩ | ⟨source, target, keys, sheet, hleaves⟩
  · exact ⟨sheet, [], Nat.zero_le 1, by simp, hleaves.left⟩
  · refine ⟨sheet, [keys], Nat.le_refl 1, ?_, by rw [hleaves.reply]⟩
    intro batch hbatch key hkey
    obtain rfl := List.mem_singleton.mp hbatch
    exact hleaves.contains hkey

/-- What a request can write in the grid meets a condition. -/
structure Admits (condition : Sheet → Command → Prop) (s : Service) (r : Request) : Prop where
  edit : ∀ key text, s.handle r = s.editReply key text → s.settings.contains key →
    condition s.sheet (.edit key text)
  fill : ∀ source target, s.handle r = s.fillReply source target →
    Route.ofPath r.path = some .fill → s.settings.contains source → s.settings.contains target →
    condition s.sheet (.fill source target)

theorem admits_of_forall {condition : Sheet → Command → Prop}
    (h : ∀ sheet command, condition sheet command) (s : Service) (r : Request) :
    s.Admits condition r :=
  ⟨fun _ _ _ _ => h _ _, fun _ _ _ _ _ _ => h _ _⟩

/-- What readings and certain writings keep is kept by a request, if a refresh keeps it. -/
theorem handle_keeps {condition : Sheet → Command → Prop} {invariant : Sheet → Prop}
    (hkeeps : CellStore.Keeps condition invariant) {r : Request} (hr : s.Admits condition r)
    (hrefresh : invariant s.session.refresh.2.store) (h : invariant s.sheet) :
    invariant (s.handle r).2.sheet := by
  apply handle_cases (motive := fun handled => s.handle r = handled → invariant handled.2.sheet)
    s r ?idle ?cell ?rows ?edit ?fill ?refresh rfl
  case idle =>
    intro outcome _ _
    exact h
  case cell =>
    intro key _ _
    rw [cellReply_snd]
    exact hkeeps.read key h
  case rows =>
    intro offset limit _ _ _
    rw [rowsReply_snd]
    exact renderRows_invariant hkeeps.read _ h
  case edit =>
    intro key text hkey heq
    have hedited : invariant (s.sheet.edit key text).2 :=
      hkeeps.edit key text h (hr.edit key text heq hkey)
    rcases s.editReply_snd key text with hleft | hleft
    · rw [hleft]
      exact hedited
    · rw [hleft]
      exact hkeeps.read key hedited
  case fill =>
    intro source target hroute _ hsource htarget heq
    have hfilled : (s.fillReply source target).2.sheet = (s.sheet.fill source target).2 := by
      rw [fillReply_snd]
      exact s.session.fill_store source target
    rw [hfilled]
    exact hkeeps.fill source target h (hr.fill source target heq hroute hsource htarget)
  case refresh =>
    intro _
    exact hrefresh

/-- What every operation keeps is kept by every refresh. -/
theorem refresh_keeps {invariant : Sheet → Prop}
    (hkeeps : CellStore.Keeps (fun _ _ => True) invariant) {session : Session Sheet}
    (h : invariant session.store) : invariant session.refresh.2.store := by
  have hexecuted : invariant (session.execute .refresh).2.store :=
    hkeeps.execute h fun _ => obeys_of_forall (fun _ _ => trivial) session _
  exact hexecuted

end Service

end FormulaGrid
