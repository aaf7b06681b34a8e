import FormulaGrid.Proofs.LoopSteps

/-!
# Grid bounds

The service checks the cells of every request, so a sheet that starts empty never holds a text, a result
or a record of a cell outside the grid, however far its formulas refer outside. References that are
answered read back as the cells that they stand for.
-/
namespace FormulaGrid

/-- Writings of cells in the grid. -/
def Settings.allows (settings : Settings) : Command → Prop
  | .edit key _ => settings.contains key
  | .fill source target => settings.contains source ∧ settings.contains target
  | _ => True

namespace Sheet

variable {s : Sheet} {settings : Settings} {key k source target : CellKey} {keys : List CellKey}
  {text : Text}

/-- Every cell that has a text, a result or a record lies in the grid. -/
structure Within (settings : Settings) (s : Sheet) : Prop where
  columns : s.columns = settings.columns
  raw : ∀ key, key ∈ s.raw → settings.contains key
  computed : ∀ key, key ∈ s.computed → settings.contains key
  forward : ∀ key, key ∈ s.graph.forward → settings.contains key

theorem within_empty (settings : Settings) (guarded : Bool) :
    (empty settings.columns guarded).Within settings where
  columns := rfl
  raw _ h := absurd h Std.ExtTreeMap.not_mem_empty
  computed _ h := absurd h Std.ExtTreeMap.not_mem_empty
  forward _ h := absurd h Std.ExtTreeMap.not_mem_empty

theorem mem_raw_of_parse {formula : Formula} (h : Formula.parse (s.rawText key) = some formula) :
    key ∈ s.raw := by
  apply Decidable.byContradiction
  intro hnot
  rw [rawText, Std.ExtTreeMap.getElem?_eq_none hnot] at h
  cases h

/-- Only a formula gets a result or a record, and the empty text is none. -/
theorem Within.read (h : s.Within settings) (key : CellKey) : (s.read key).2.Within settings := by
  rcases s.read_cases key with hsame | ⟨formula, e, hp, -, hmemo⟩
  · rw [hsame]
    exact h
  have hkey : settings.contains key := h.raw key (mem_raw_of_parse hp)
  rw [hmemo]
  refine ⟨h.columns, h.raw, ?_, ?_⟩
  · intro k hk
    rcases Std.ExtTreeMap.mem_insert.mp hk with heq | hk
    · rwa [← Std.LawfulEqOrd.eq_of_compare heq]
    · exact h.computed k hk
  · intro k hk
    rcases Std.ExtTreeMap.mem_insert.mp hk with heq | hk
    · rwa [← Std.LawfulEqOrd.eq_of_compare heq]
    · exact h.forward k hk

theorem Within.write {s' : Sheet} (h : s.Within settings) (hw : Wrote keys s s')
    (hraw : ∀ k, k ∈ s'.raw → k ∈ s.raw ∨ settings.contains k) : s'.Within settings where
  columns := (congrArg Prod.fst hw.settings).trans h.columns
  raw k hk := (hraw k hk).elim (h.raw k) id
  computed := by
    intro k hk
    obtain ⟨text, htext⟩ := Option.isSome_iff_exists.mp (Std.ExtTreeMap.mem_iff_isSome_getElem?.mp hk)
    apply h.computed k
    rw [Std.ExtTreeMap.mem_iff_isSome_getElem?, hw.kept htext]
    rfl
  forward := by
    rw [hw.graph]
    exact h.forward

theorem Within.edit (h : s.Within settings) (hkey : settings.contains key) (text : Text) :
    (s.edit key text).2.Within settings := by
  by_cases hcol : s.hasColumn key.col
  · rw [edit_of_hasColumn hcol]
    apply h.write ((wrote_stored s key text).drop _)
    intro k hk
    rcases Std.ExtTreeMap.mem_insert.mp hk with heq | hk
    · exact Or.inr (by rwa [← Std.LawfulEqOrd.eq_of_compare heq])
    · exact Or.inl hk
  · rw [edit_of_not_hasColumn hcol]
    exact h

theorem mem_writeAll_raw (h : k ∈ (writeAll source text s keys).2.raw) : k ∈ s.raw ∨ k ∈ keys := by
  induction keys generalizing s with
  | nil => exact Or.inl h
  | cons key keys ih =>
    unfold writeAll at h
    split at h
    · rcases ih h with hk | hk
      · rcases Std.ExtTreeMap.mem_insert.mp hk with heq | hk
        · exact Or.inr (by simp [Std.LawfulEqOrd.eq_of_compare heq])
        · exact Or.inl hk
      · exact Or.inr (List.mem_cons_of_mem key hk)
    · exact Or.inl h

theorem mem_fillCells_raw (h : k ∈ (s.fillCells source target).2.raw) :
    k ∈ s.raw ∨ k ∈ filled source target := by
  rcases writeAll_outcome source (s.rawText source) (filled source target) s with hall | hall
  · rw [fillCells_of_ok hall] at h
    exact mem_writeAll_raw h
  · rw [fillCells_of_error hall] at h
    exact mem_writeAll_raw h

theorem Within.fill (h : s.Within settings) (hsource : settings.contains source)
    (htarget : settings.contains target) : (s.fill source target).2.Within settings := by
  apply h.write (s.wrote_fill source target)
  intro k hk
  unfold Sheet.fill at hk
  split at hk
  · exact Or.inl hk
  split at hk
  · exact Or.inl hk
  · exact (mem_fillCells_raw hk).imp_right (Service.contains_of_mem_filled hsource htarget)

theorem within_kept : CellStore.Keeps (fun _ => settings.allows) (Within settings) where
  read key h := h.read key
  edit _ text h hkey := h.edit hkey text
  invalidate {s} _ h := h.write (wrote_drop s _) fun _ => Or.inl
  fill _ _ h hcells := h.fill hcells.1 hcells.2
  clear h := ⟨h.columns, (within_empty settings true).raw, (within_empty settings true).computed,
    (within_empty settings true).forward⟩

theorem fill_fault {fault : Fault} (hsource : s.hasColumn source.col) (htarget : s.hasColumn target.col)
    (h : (s.fill source target).1 = .error fault) : fault = .numeralTooLong ∨ fault = .circular := by
  rw [fill_of_hasColumn hsource htarget] at h
  rcases writeAll_outcome source (s.rawText source) (filled source target) s with hall | hall
  · rw [fillCells_of_ok hall] at h
    exact Or.inr (verdict_fault (RefShift.map_eq_error h))
  · rw [fillCells_of_error hall] at h
    exact Or.inl (Except.error.inj h).symm

end Sheet

/-- Only a number too long makes a computation fail. -/
def TooLongOnly {α : Type} (x : Except Fault α) : Prop :=
  ∀ fault, x = .error fault → fault = .numeralTooLong

section TooLong

variable {α β : Type} {x : Except Fault α}

theorem tooLongOnly_ok (a : α) : TooLongOnly (.ok a) := by
  intro fault h
  cases h

theorem TooLongOnly.bind {f : α → Except Fault β} (hx : TooLongOnly x) (hf : ∀ a, TooLongOnly (f a)) :
    TooLongOnly (x >>= f) := by
  intro fault h
  cases x with
  | error other =>
    obtain rfl := Except.error.inj h
    exact hx other rfl
  | ok a => exact hf a fault h

theorem TooLongOnly.map (hx : TooLongOnly x) (f : α → β) : TooLongOnly (x.map f) :=
  hx.bind fun a => tooLongOnly_ok (f a)

theorem tooLongOnly_mapM {f : α → Except Fault β} (hf : ∀ a, TooLongOnly (f a)) (items : List α) :
    TooLongOnly (items.mapM f) := by
  induction items with
  | nil => exact tooLongOnly_ok []
  | cons a items ih =>
    rw [List.mapM_cons]
    exact (hf a).bind fun b => ih.bind fun others => tooLongOnly_ok (b :: others)

theorem tooLongOnly_toReference (key : CellKey) : TooLongOnly key.toReference := by
  apply TooLongOnly.map
  intro fault h
  unfold IntegerText.print at h
  split at h
  · cases h
  · exact (Except.error.inj h).symm

end TooLong

namespace Service
open CellStore

variable {s : Service} {settings : Settings} {key source target : CellKey} {r : Request}

theorem tooLongOnly_view (sheet : Sheet) (key : CellKey) (text : Text) :
    TooLongOnly (view sheet key text) :=
  (tooLongOnly_toReference key).bind fun _ =>
    (tooLongOnly_mapM tooLongOnly_toReference _).bind fun _ => tooLongOnly_ok _

theorem tooLongOnly_rowViews (sheet : Sheet) (ids : List Int) (table : List (List Text)) :
    TooLongOnly (rowViews sheet ids table) :=
  tooLongOnly_mapM (fun _ => (tooLongOnly_mapM (fun _ => tooLongOnly_view sheet _ _) _).bind
    fun _ => tooLongOnly_ok _) _

theorem tooLongOnly_filledReply (sheet : Sheet) (source : CellKey) (keys : List CellKey) :
    TooLongOnly (filledReply sheet source keys) :=
  (tooLongOnly_mapM tooLongOnly_toReference keys).bind fun _ => tooLongOnly_ok _

theorem tooLongOnly_cellReply (s : Service) (key : CellKey) : TooLongOnly (s.cellReply key).1 := by
  unfold cellReply
  cases hread : s.sheet.read key with
  | mk outcome sheet =>
    cases outcome with
    | error other =>
      intro fault h
      obtain rfl := Except.error.inj h
      exact (Sheet.read_error_iff.mp (congrArg Prod.fst hread)).1
    | ok text => exact (tooLongOnly_view sheet key text).map _

theorem tooLongOnly_rowsReply (s : Service) (offset limit : Int) :
    TooLongOnly (s.rowsReply offset limit).1 := by
  unfold rowsReply
  dsimp only
  cases hrender : renderRows s.sheet (rowIds offset (min (offset + limit) s.settings.rows)) with
  | mk outcome sheet =>
    cases outcome with
    | error other =>
      intro fault h
      obtain rfl := Except.error.inj h
      exact (Sheet.renderRows_error_iff _ |>.mp (congrArg Prod.fst hrender)).1
    | ok table => exact (tooLongOnly_rowViews sheet _ table).map _

theorem tooLongOnly_editReply (hcol : s.sheet.hasColumn key.col) (text : Text) :
    TooLongOnly (s.editReply key text).1 := by
  unfold editReply
  cases hedit : s.sheet.edit key text with
  | mk outcome sheet =>
    cases outcome with
    | error other =>
      have hcircular : other = .circular := by
        rw [Sheet.edit_of_hasColumn hcol, Sheet.verdict] at hedit
        have houtcome := congrArg Prod.fst hedit
        dsimp only at houtcome
        split at houtcome
        · exact (Except.error.inj houtcome).symm
        · cases houtcome
      subst hcircular
      exact tooLongOnly_ok _
    | ok done => exact tooLongOnly_cellReply _ key

theorem tooLongOnly_fillReply (hsource : s.sheet.hasColumn source.col)
    (htarget : s.sheet.hasColumn target.col) : TooLongOnly (s.fillReply source target).1 := by
  rcases hfill : s.sheet.fill source target with ⟨fault | keys, sheet⟩
  · have hstore : CellStore.fill s.session.store source target = (.error fault, sheet) := hfill
    unfold fillReply Session.fill
    rw [hstore]
    rcases Sheet.fill_fault hsource htarget (congrArg Prod.fst hfill) with rfl | rfl
    · intro fault h
      exact (Except.error.inj h).symm
    · exact tooLongOnly_ok _
  · rw [fillReply_of_ok hfill]
    exact tooLongOnly_filledReply sheet source keys

theorem hasColumn_of_contains (hcolumns : s.sheet.columns = s.settings.columns)
    (h : s.settings.contains key) : s.sheet.hasColumn key.col := by
  simp only [Settings.contains, Sheet.hasColumn, hcolumns, Bool.and_eq_true, decide_eq_true_eq] at *
  omega

/-- A request fails only at a number that is too long or not finite. -/
theorem handle_fault (hl : s.session.Listening) (hcolumns : s.sheet.columns = s.settings.columns)
    {fault : Fault} (h : (s.handle r).1 = .error fault) :
    fault = .numeralTooLong ∨ fault = .numberNotFinite := by
  revert h
  apply handle_cases (motive := fun handled => handled.1 = .error fault →
    fault = .numeralTooLong ∨ fault = .numberNotFinite) s r
  case idle =>
    rintro outcome (rfl | ⟨reply, rfl, -⟩) heq
    · exact Or.inr (Except.error.inj heq).symm
    · cases heq
  case cell =>
    intro key _ heq
    exact Or.inl (s.tooLongOnly_cellReply key fault heq)
  case rows =>
    intro offset limit _ _ heq
    exact Or.inl (s.tooLongOnly_rowsReply offset limit fault heq)
  case edit =>
    intro key text hkey heq
    exact Or.inl (tooLongOnly_editReply (hasColumn_of_contains hcolumns hkey) text fault heq)
  case fill =>
    intro source target _ _ hsource htarget heq
    exact Or.inl (tooLongOnly_fillReply (hasColumn_of_contains hcolumns hsource)
      (hasColumn_of_contains hcolumns htarget) fault heq)
  case refresh =>
    intro heq
    exact Or.inl (TooLongOnly.map hl.refresh.2.2 Reply.refreshed fault heq)

/-- A refused request changes nothing, unless it is refused for a circular reference. -/
theorem handle_of_refused {status : Nat} {detail : Text}
    (h : (s.handle r).1 = .ok (.refused status detail)) (hstatus : status ≠ 409) :
    (s.handle r).2 = s := by
  have hcircular : Reply.refused status detail ≠ .circular := by
    rintro heq
    exact hstatus (Reply.refused.inj heq).1
  revert h
  apply handle_cases (motive := fun handled => handled.1 = .ok (.refused status detail) →
    handled.2 = s) s r
  case idle =>
    intro outcome _ _
    rfl
  case cell =>
    intro key _ heq
    obtain ⟨v, hv⟩ := cellReply_ok heq
    cases hv
  case rows =>
    intro offset limit _ _ heq
    obtain ⟨batch, hbatch⟩ := rowsReply_ok heq
    cases hbatch
  case edit =>
    intro key text _ heq
    rcases editReply_ok heq with hedit | ⟨v, hv⟩
    · exact absurd hedit hcircular
    · cases hv
  case fill =>
    intro source target _ _ _ _ heq
    rcases fillReply_ok heq with hfill | ⟨refs, isFormula, hfill⟩
    · exact absurd hfill hcircular
    · cases hfill
  case refresh =>
    intro heq
    obtain ⟨count, hcount⟩ := postRefresh_ok heq
    cases hcount

/-- The references that a fill answers with are those of the cells that it fills. -/
theorem mapM_ofReference_of_filled {refs : List Text} {isFormula : Bool}
    (h : (s.handle r).1 = .ok (.filled refs isFormula)) :
    ∃ source target, r.filledCells = .ok (source, target) ∧
      refs.mapM CellKey.ofReference = .ok (Sheet.filled source target) := by
  revert h
  apply handle_cases (motive := fun handled => handled.1 = .ok (.filled refs isFormula) →
    ∃ source target, r.filledCells = .ok (source, target) ∧
      refs.mapM CellKey.ofReference = .ok (Sheet.filled source target)) s r
  case idle =>
    intro outcome hidle heq
    exact absurd heq (hidle.ne_filled refs isFormula)
  case cell =>
    intro key _ heq
    obtain ⟨v, hv⟩ := cellReply_ok heq
    cases hv
  case rows =>
    intro offset limit _ _ heq
    obtain ⟨batch, hbatch⟩ := rowsReply_ok heq
    cases hbatch
  case edit =>
    intro key text _ heq
    rcases editReply_ok heq with hedit | ⟨v, hv⟩
    · cases hedit
    · cases hv
  case fill =>
    intro source target _ hcells hsource htarget heq
    refine ⟨source, target, hcells, ?_⟩
    rcases hfill : s.sheet.fill source target with ⟨fault | keys, sheet⟩
    · exact absurd heq ((fillReply_of_fault hfill).2 refs isFormula)
    rw [fillReply_of_ok hfill] at heq
    obtain ⟨written, hwritten, hreply⟩ := filledReply_eq_ok.mp heq
    obtain ⟨rfl, -⟩ := Reply.filled.inj hreply
    obtain rfl := Sheet.keys_of_fill hfill
    apply CellKey.mapM_ofReference _ hwritten
    intro key hkey
    have hcontains := contains_of_mem_filled hsource htarget hkey
    simp only [Settings.contains, Bool.and_eq_true, decide_eq_true_eq] at hcontains
    omega
  case refresh =>
    intro heq
    obtain ⟨count, hcount⟩ := postRefresh_ok heq
    cases hcount

/-- The references in a view read back as its cell and as the cells recorded as read. -/
theorem Shows.ofReference {sheet : Sheet} {v : CellView} (h : s.Shows sheet v)
    (hwritable : sheet.RecordsWritable) : CellKey.ofReference v.ref = .ok v.key ∧
      v.dependencies.mapM CellKey.ofReference = .ok (sheet.dependencies v.key) := by
  obtain ⟨text, hview⟩ := h.view
  obtain ⟨ref, dependencies, href, hdependencies, hv⟩ := view_eq_ok.mp hview
  have hrefs : v.ref = ref ∧ v.dependencies = dependencies := by
    rw [hv]
    exact ⟨rfl, rfl⟩
  rw [hrefs.1, hrefs.2]
  refine ⟨CellKey.ofReference_of_toReference h.row h.col href, ?_⟩
  exact CellKey.mapM_ofReference (fun cell hcell => ⟨(hwritable _ cell hcell).row,
    (hwritable _ cell hcell).col⟩) hdependencies

/-- A service whose sheet and whose queue hold cells of the grid only. -/
structure Within (settings : Settings) (s : Service) : Prop where
  sheet : s.sheet.Within settings
  queue : ∀ batch ∈ s.session.queue, ∀ key ∈ batch, settings.contains key

theorem admits_allows (h : s.settings = settings) (r : Request) :
    s.Admits (fun _ => settings.allows) r where
  edit _ _ _ hkey := h ▸ hkey
  fill _ _ _ _ hsource htarget := h ▸ ⟨hsource, htarget⟩

theorem within_openedTo (settings : Settings) (limit : Nat) : (openedTo settings limit).Within settings where
  sheet := ⟨rfl, (Sheet.within_empty settings true).raw, (Sheet.within_empty settings true).computed,
    (Sheet.within_empty settings true).forward⟩
  queue _ h := absurd h List.not_mem_nil

/-- A step of the loop writes and queues cells of the grid only. -/
theorem Within.loopStep (h : s.Within settings) (hsettings : s.settings = settings)
    (hl : s.session.Listening) (step : LoopStep) : (s.loopStep step).Within settings where
  sheet := loopStep_keeps Sheet.within_kept hl (fun r _ => admits_allows hsettings r) h.sheet
  queue := by
    cases step with
    | client c =>
      cases c with
      | request r =>
        intro batch hbatch
        exact ((handle_session hl r).2 batch hbatch).elim (h.queue batch) (hsettings ▸ id)
      | connect name => exact h.queue
      | disconnect name => exact h.queue
    | callback => exact fun batch hbatch => h.queue batch (hl.runCallback.1.queue.subset hbatch)
    | send => exact h.queue

theorem within_afterLoop (settings : Settings) (limit : Nat) (steps : List LoopStep) :
    ((openedTo settings limit).afterLoop steps).Within settings := by
  induction steps using List.reverseRecOn with
  | nil => exact within_openedTo settings limit
  | append_singleton steps step ih =>
    rw [afterLoop_concat]
    exact ih.loopStep (afterLoop_settings _ steps)
      (listening_afterLoop (listening_openedTo settings limit) steps) step

/-- The requests of a run stay inside the grid, whatever its size and whatever they ask for, and whether or
not the loop has come to rest before them. Neither the sheet nor the queue ever holds a cell outside; no
request fails because of a column out of range; one that is refused for anything but a circular reference
changes nothing; and the references in an answer read back as the cells that they stand for. -/
theorem requests_stay_inside (settings : Settings) (limit : Nat) :
    (∀ clients : List ClientStep, ∃ steps,
      (openedTo settings limit).afterSteps clients = (openedTo settings limit).afterLoop steps) ∧
    ∀ (steps : List LoopStep) (c : ClientStep),
      let s := (openedTo settings limit).afterLoop steps
      let after := (s.act c).2
      s.Within settings ∧ after.Within settings ∧
      (∀ col, (s.act c).1 ≠ .error (.columnOutOfRange col)) ∧
      (∀ status detail, (s.act c).1 = .ok (.reply (.refused status detail)) → status ≠ 409 →
        after = s ∧ (s.session.AtRest → (s.turn c).2.2 = s)) ∧
      (∀ reply, (s.act c).1 = .ok (.reply reply) → ∀ v ∈ reply.views,
        CellKey.ofReference v.ref = .ok v.key ∧
          v.dependencies.mapM CellKey.ofReference = .ok (after.sheet.dependencies v.key)) ∧
      ∀ refs isFormula, (s.act c).1 = .ok (.reply (.filled refs isFormula)) →
        ∃ r source target, c = .request r ∧ r.filledCells = .ok (source, target) ∧
          refs.mapM CellKey.ofReference = .ok (Sheet.filled source target) := by
  refine ⟨fun clients => exists_afterSteps_eq_afterLoop _ clients, ?_⟩
  intro steps c s after
  have hl : s.session.Listening := listening_afterLoop (listening_openedTo settings limit) steps
  have hsettings : s.settings = settings := afterLoop_settings _ steps
  have hwithin : s.Within settings := within_afterLoop settings limit steps
  refine ⟨hwithin, hwithin.loopStep hsettings hl (.client c), ?_, ?_, ?_, ?_⟩
  · intro col h
    obtain ⟨r, rfl, hr⟩ := act_eq_error.mp h
    rcases handle_fault hl (by rw [hwithin.sheet.columns, hsettings]) hr with hfault | hfault
    · cases hfault
    · cases hfault
  · intro status detail h hstatus
    obtain ⟨r, rfl, hr⟩ := act_eq_reply.mp h
    have hsame : after = s := handle_of_refused hr hstatus
    refine ⟨hsame, ?_⟩
    intro hrest
    rw [turn_eq hrest, show (s.act (.request r)).2 = s from hsame, rested_of_atRest hrest]
  · intro reply h v hv
    obtain ⟨r, rfl, hr⟩ := act_eq_reply.mp h
    have hrecords : after.sheet.RecordsWritable := by
      have hall := recordsWritable_afterLoop settings limit (steps ++ [.client (.request r)])
      rw [afterLoop_concat] at hall
      exact hall
    exact (shows_of_mem_views hr hv).ofReference hrecords
  · intro refs isFormula h
    obtain ⟨r, rfl, hr⟩ := act_eq_reply.mp h
    obtain ⟨source, target, hcells, hrefs⟩ := mapM_ofReference_of_filled hr
    exact ⟨r, source, target, rfl, hcells, hrefs⟩

/-- A formula and a fill upwards, whose reference leaves the grid. -/
def upwards : List LoopStep :=
  [.client (.request (.edit ⟨2, 0⟩ ['=', 'A', '1'])), .client (.request (.fill ⟨2, 0⟩ ⟨1, 0⟩))]

/-- The reference to row 0 is shown and reads back while the filled cell is still queued, but nothing is
kept of that row. -/
theorem requests_stay_inside_upwards :
    let settings : Settings := ⟨3, 2, 50, false⟩
    let get : Request := ⟨"GET", "/grid/cells/1/0".toList, [], none⟩
    let v : CellView := ⟨⟨1, 0⟩, ['A', '1'], ['=', 'A', '0'], ['0'], true, [['A', '0']]⟩
    let s := (openedTo settings 1000).afterLoop upwards
    s.session.queue = [[⟨1, 0⟩]] ∧ (s.act (.request get)).1 = .ok (.reply (.cell v)) ∧
    v.dependencies.mapM CellKey.ofReference = .ok [⟨0, 0⟩] ∧
    v.dependencies.mapM CellKey.ofReference =
      .ok ((s.act (.request get)).2.sheet.dependencies v.key) ∧
    (s.act (.request get)).2.Within settings := by
  intro settings get v s
  have hqueue : s.session.queue = [[⟨1, 0⟩]] := by decide +kernel
  have hreply : (s.act (.request get)).1 = .ok (.reply (.cell v)) := by decide +kernel
  obtain ⟨-, hwithin, -, -, hviews, -⟩ := (requests_stay_inside settings 1000).2 upwards (.request get)
  exact ⟨hqueue, hreply, by decide +kernel, (hviews _ hreply v (List.mem_singleton_self v)).2, hwithin⟩

end Service

end FormulaGrid
