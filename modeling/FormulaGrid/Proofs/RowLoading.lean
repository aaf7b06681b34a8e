import FormulaGrid.Proofs.FieldIntegers
import FormulaGrid.Proofs.ShownCells
import FormulaGrid.Proofs.UnreadableCells

/-!
# Loading the rows

A client loads the grid window by window: it asks for the next window from where the last one ended, as
long as there are more rows, each time with a limit of its choice. It receives every row once and in
order, whatever others do in between, and has all of them after no more requests than there are rows.
-/
namespace FormulaGrid

namespace Request

/-- The request for a window of rows. -/
def rows (offset limit : Int) : Request :=
  ⟨"GET", "/grid/rows".toList,
    [("offset", IntegerText.written offset), ("limit", IntegerText.written limit)], none⟩

/-- The request asks for a window of rows, with a limit that it gives or leaves to the settings. -/
def AsksRows (r : Request) (settings : Settings) (offset limit : Int) : Prop :=
  r.method = "GET" ∧ Route.ofPath r.path = some .rows ∧
    ∃ given, r.window = .ok (offset, given) ∧ given.getD settings.batch = limit

end Request

namespace Service
open CellStore IntegerText

variable {s : Service} {offset limit last : Int}

theorem rowIds_append {first middle last : Int} (h : first ≤ middle) (h' : middle ≤ last) :
    rowIds first middle ++ rowIds middle last = rowIds first last := by
  have hcount : (last - first).toNat = (middle - first).toNat + (last - middle).toNat := by omega
  rw [rowIds, rowIds, rowIds, hcount, List.range_add, List.map_append, List.map_map]
  congr 1
  apply List.map_congr_left
  intro i _
  simp only [Function.comp_apply]
  omega

/-- The numbers of the rows that some batches deliver. -/
def delivered (batches : List RowBatch) : List Int :=
  batches.flatMap fun batch => batch.rows.map RowView.row

/-- What a client receives that loads the rows after some offset with so many requests at most. -/
structure Loads (total offset : Int) (planned : Nat) (batches : List RowBatch) : Prop where
  inOrder : delivered batches <+: rowIds offset total
  bounded : batches.length ≤ max 1 (total - offset).toNat
  advances : ∀ batch ∈ batches, batch.hasMore → batch.rows ≠ []
  complete : ∀ batch ∈ batches.getLast?, batch.hasMore = false →
    delivered batches = rowIds offset total
  ends : max 1 (total - offset).toNat ≤ planned → ∃ batch ∈ batches.getLast?, batch.hasMore = false

variable {total : Int} {planned : Nat} {batch : RowBatch} {batches : List RowBatch}

theorem loads_nil (total offset : Int) : Loads total offset 0 [] where
  inOrder := List.nil_prefix
  bounded := Nat.zero_le _
  advances := by simp
  complete := by simp
  ends h := by omega

/-- A window that comes to the last row is the last one. -/
theorem loads_singleton (hrows : batch.rows.map RowView.row = rowIds offset total)
    (hmore : batch.hasMore = false) (planned : Nat) : Loads total offset planned [batch] where
  inOrder := by simp [delivered, hrows]
  bounded := Nat.le_max_left _ _
  advances := by simp [hmore]
  complete := by simp [delivered, hrows]
  ends _ := ⟨batch, by simp, hmore⟩

/-- A window that ends before the last row has rows, and the ones after it are loaded next. -/
theorem Loads.cons (h : Loads total last planned batches)
    (hrows : batch.rows.map RowView.row = rowIds offset last) (hmore : batch.hasMore)
    (hoffset : offset < last) (hlast : last < total) :
    Loads total offset (planned + 1) (batch :: batches) := by
  have hsplit : rowIds offset last ++ rowIds last total = rowIds offset total :=
    rowIds_append (by omega) (by omega)
  have hdelivered : delivered (batch :: batches) = rowIds offset last ++ delivered batches := by
    simp [delivered, hrows]
  have hnext : ∀ final, final ∈ (batch :: batches).getLast? → final.hasMore = false →
      final ∈ batches.getLast? := by
    intro final hfinal hnone
    cases batches with
    | nil =>
      obtain rfl : batch = final := by simpa using hfinal
      simp [hmore] at hnone
    | cons first others => simpa [List.getLast?_cons_cons] using hfinal
  refine ⟨?_, ?_, ?_, ?_, ?_⟩
  · rw [hdelivered, ← hsplit]
    exact (List.prefix_append_right_inj _).mpr h.inOrder
  · have hbounded := h.bounded
    simp only [List.length_cons]
    omega
  · intro other hother hasMore
    rcases List.mem_cons.mp hother with rfl | hother
    · intro hnone
      have hmem : offset + 1 ∈ rowIds offset last := mem_rowIds.mpr (by omega)
      simp [← hrows, hnone] at hmem
    · exact h.advances other hother hasMore
  · intro final hfinal hnone
    rw [hdelivered, h.complete final (hnext final hfinal hnone) hnone, hsplit]
  · intro hplanned
    obtain ⟨final, hfinal, hnone⟩ := h.ends (by omega)
    refine ⟨final, ?_, hnone⟩
    cases batches with
    | nil => cases hfinal
    | cons first others => simpa [List.getLast?_cons_cons] using hfinal

/-- The cells of a window can all be read. -/
def Legible (s : Service) (offset limit : Int) : Prop :=
  ∀ row ∈ rowIds offset (min (offset + limit) s.settings.rows),
    ∀ key ∈ rowKeys s.sheet.columns row, (s.sheet.read key).1.isOk

theorem route_rows : Route.ofPath "/grid/rows".toList = some .rows := by decide

theorem window_rows (hoffset : 0 ≤ offset) (hprintable : Printable offset) (hlimit : 1 ≤ limit)
    (hmax : limit ≤ maxBatch) : (Request.rows offset limit).window = .ok (offset, some limit) := by
  have hlimits : Printable limit := by
    have hbound : Printable maxBatch := length_toDigits_le_iff.mp (by decide)
    exact hbound.of_le (by omega) hmax
  have hread : readField? (written offset) = some offset := readField?_written hoffset hprintable
  have hread' : readField? (written limit) = some limit := readField?_written (by omega) hlimits
  simp [Request.window, Request.rows, Request.queryInteger, Request.integerAt, Checked.both,
    Checked.ofOption, hread, hread', List.lookup_cons, Except.map]

theorem handle_of_asksRows {r : Request} (hr : r.AsksRows s.settings offset limit)
    (hoffset : 0 ≤ offset) (hlimit : 1 ≤ limit) (hmax : limit ≤ maxBatch) :
    s.handle r = s.rowsReply offset limit := by
  obtain ⟨hmethod, hroute, given, hwindow, rfl⟩ := hr
  have hgiven : ¬(offset < 0 ∨ given.getD s.settings.batch < 1) := by omega
  have hsmall : ¬maxBatch < given.getD s.settings.batch := by omega
  have hanswer : s.handle r = s.answer r .rows := by
    rw [handle, hroute]
    exact if_pos hmethod
  rw [hanswer, answer, hwindow]
  simp only [withChecked, getRows, if_neg hgiven, if_neg hsmall]

theorem handle_rows (hoffset : 0 ≤ offset) (hprintable : Printable offset) (hlimit : 1 ≤ limit)
    (hmax : limit ≤ maxBatch) : s.handle (.rows offset limit) = s.rowsReply offset limit :=
  handle_of_asksRows ⟨rfl, route_rows, _, window_rows hoffset hprintable hlimit hmax, rfl⟩
    hoffset hlimit hmax

/-- A window with legible cells is answered with its rows. -/
theorem rowsReply_of_legible (hlast : min (offset + limit) s.settings.rows = last)
    (hoffset : 0 ≤ offset) (hrows : Printable s.settings.rows)
    (hrecords : s.sheet.RecordsWritable) (hlegible : s.Legible offset limit) :
    ∃ rows, (s.rowsReply offset limit).1 =
        .ok (.rows ⟨offset, rows, decide (last < s.settings.rows), max last offset⟩) ∧
      rows.map RowView.row = rowIds offset last := by
  simp only [Legible, hlast] at hlegible
  cases hrender : renderRows s.sheet (rowIds offset last) with
  | mk outcome sheet =>
    cases outcome with
    | error fault =>
      obtain ⟨-, row, hrow, key, hkey, hunreadable⟩ :=
        (Sheet.renderRows_error_iff _).mp (congrArg Prod.fst hrender)
      have hread := hlegible row hrow key hkey
      rw [Sheet.read_of_unreadable hunreadable] at hread
      cases hread
    | ok table =>
      obtain ⟨rfl, hlength, hwidths⟩ := Sheet.renderRows_ok hrender
      have hrecords' : (s.sheet.afterReads _).RecordsWritable :=
        hrecords.afterReads ((rowIds offset last).flatMap (rowKeys s.sheet.columns))
      obtain ⟨rows, hshown⟩ : ∃ rows, rowViews (s.sheet.afterReads _) (rowIds offset last) table =
          .ok rows := by
        apply exists_mapM_ok
        rintro ⟨row, texts⟩ hmem
        have hrow := mem_rowIds.mp (List.of_mem_zip hmem).1
        exact exists_rowView (by omega) (hrows.of_le (by omega) (by omega)) hrecords' texts
      exact ⟨rows, (rowsReply_eq_ok hlast).mpr ⟨table, _, rows, hrender, hshown, rfl⟩,
        rowViews_rows hlength hshown⟩

/-- A request for a window, and the service that it comes to. -/
structure Ask where
  service : Service
  offset : Int
  limit : Int

namespace Ask

def request (a : Ask) : ClientStep := .request (.rows a.offset a.limit)

def answer (a : Ask) : Except Fault StepAnswer := (a.service.act a.request).1

end Ask

/-- The requests after an answer: they go on from where its batch has ended, if more rows follow. -/
def continued (next : Int → List Ask) : Except Fault StepAnswer → List Ask
  | .ok (.reply (.rows batch)) => if batch.hasMore then next batch.nextOffset else []
  | _ => []

/-- The requests by which a client loads the rows after an offset. Before each of them others carry out
some steps, and each has a limit of its own. The client goes on from where the batch before has ended, and
stops at the first one after which there are no more rows. -/
def asks (s : Service) (offset : Int) : List (List ClientStep × Int) → List Ask
  | [] => []
  | (steps, limit) :: plan =>
    let ask : Ask := ⟨s.afterSteps steps, offset, limit⟩
    ask :: continued (fun offset => (ask.service.turn ask.request).2.2.asks offset plan) ask.answer

theorem asks_cons {steps : List ClientStep} {plan : List (List ClientStep × Int)}
    (h : (Ask.mk (s.afterSteps steps) offset limit).answer = .ok (.reply (.rows batch))) :
    s.asks offset ((steps, limit) :: plan) = ⟨s.afterSteps steps, offset, limit⟩ ::
      if batch.hasMore then (s.afterSteps (steps ++ [.request (.rows offset limit)])).asks
        batch.nextOffset plan else [] := by
  rw [asks, h, afterSteps_concat]
  rfl

/-- From any offset at which there are still rows, and from the first one at all events, the client loads
the rows after it. -/
theorem loads_asks {plan : List (List ClientStep × Int)} (hrest : s.session.AtRest)
    (hrows : Printable s.settings.rows) (hrecords : s.sheet.RecordsWritable) (hoffset : 0 ≤ offset)
    (hstart : offset < s.settings.rows ∨ offset = 0)
    (hlimits : ∀ ask ∈ plan, 1 ≤ ask.2 ∧ ask.2 ≤ maxBatch)
    (hlegible : ∀ ask ∈ s.asks offset plan, ask.service.Legible ask.offset ask.limit) :
    ∃ batches : List RowBatch,
      (s.asks offset plan).map Ask.answer = batches.map (fun b => .ok (.reply (.rows b))) ∧
      Loads s.settings.rows offset plan.length batches := by
  induction plan generalizing s offset with
  | nil => exact ⟨[], rfl, loads_nil _ _⟩
  | cons first plan ih =>
    obtain ⟨steps, limit⟩ := first
    obtain ⟨⟨hlimit, hmax⟩, hlimits⟩ := List.forall_mem_cons.mp hlimits
    have hsettings : (s.afterSteps steps).settings = s.settings := afterSteps_settings hrest steps
    have hprintable : Printable offset := by
      rcases hstart with hstart | rfl
      · exact hrows.of_le hoffset (by omega)
      · exact length_toDigits_le_iff.mp (by decide)
    have hfirst : (s.afterSteps steps).Legible offset limit :=
      hlegible ⟨s.afterSteps steps, offset, limit⟩ (by rw [asks]; exact List.mem_cons_self)
    obtain ⟨last, hlast⟩ : ∃ last, min (offset + limit) s.settings.rows = last := ⟨_, rfl⟩
    obtain ⟨rows, hreply, hids⟩ := rowsReply_of_legible (by rw [hsettings, hlast]) hoffset
      (by rwa [hsettings])
      (afterSteps_keeps Sheet.recordsWritable_kept hrest hrecords steps) hfirst
    rw [hsettings] at hreply
    have hanswer : (Ask.mk (s.afterSteps steps) offset limit).answer = .ok (.reply (.rows
        ⟨offset, rows, decide (last < s.settings.rows), max last offset⟩)) := by
      apply act_eq_reply.mpr
      exact ⟨_, rfl, by rw [handle_rows hoffset hprintable hlimit hmax, hreply]⟩
    rw [asks_cons hanswer] at hlegible ⊢
    by_cases hmore : last < s.settings.rows
    · have hnext : max last offset = last := by omega
      simp only [hmore, decide_true, if_true, hnext] at hlegible hanswer ⊢
      have hsettings' := afterSteps_settings hrest (steps ++ [.request (.rows offset limit)])
      obtain ⟨batches, hanswers, hloads⟩ := ih (atRest_afterSteps hrest _) (by rwa [hsettings'])
        (afterSteps_keeps Sheet.recordsWritable_kept hrest hrecords _) (by omega)
        (Or.inl (by rwa [hsettings'])) hlimits
        fun ask hask => hlegible ask (List.mem_cons_of_mem _ hask)
      rw [hsettings'] at hloads
      refine ⟨⟨offset, rows, true, last⟩ :: batches, ?_, hloads.cons hids rfl (by omega) hmore⟩
      rw [List.map_cons, List.map_cons, hanswer, hanswers]
    · have hend : last = s.settings.rows := by omega
      refine ⟨[⟨offset, rows, decide (last < s.settings.rows), max last offset⟩], ?_, ?_⟩
      · simp [hmore, hanswer]
      · exact loads_singleton (by rw [hids, hend]) (by simp [hmore]) _

theorem rowIds_zero (total : Int) :
    rowIds 0 total = (List.range total.toNat).map fun (i : Nat) => (i : Int) + 1 := by
  simp only [rowIds, Int.sub_zero]
  apply List.map_congr_left
  intro i _
  omega

/-- The loader covers the grid exactly once, whatever limits it uses and whatever is done between its
requests, as long as the cells of the windows can be read. Every request is answered with a batch, and no
batch is empty that more rows follow. The rows received are the first ones, in order; they are all there
are when no more follow, and it comes to that within as many requests as there are rows, or within one. -/
theorem rows_loaded_once {env : Environment} {settings : Settings}
    {plan : List (List ClientStep × Int)} (henv : Settings.ofEnvironment env = .ok settings)
    (hlimits : ∀ ask ∈ plan, 1 ≤ ask.2 ∧ ask.2 ≤ 500)
    (hlegible : ∀ ask ∈ (opened settings).asks 0 plan, ask.service.Legible ask.offset ask.limit) :
    let all : List Int := (List.range settings.rows.toNat).map fun (i : Nat) => (i : Int) + 1
    ∃ batches : List RowBatch,
      ((opened settings).asks 0 plan).map Ask.answer =
        batches.map (fun b => .ok (.reply (.rows b))) ∧
      delivered batches <+: all ∧
      batches.length ≤ max 1 settings.rows.toNat ∧
      (∀ b ∈ batches, b.hasMore → b.rows ≠ []) ∧
      (∀ b ∈ batches.getLast?, b.hasMore = false → delivered batches = all) ∧
      (max 1 settings.rows.toNat ≤ plan.length → ∃ b ∈ batches.getLast?, b.hasMore = false) := by
  intro all
  have hall : rowIds 0 settings.rows = all := rowIds_zero settings.rows
  obtain ⟨batches, hanswers, hloads⟩ := loads_asks (atRest_opened settings)
    (Settings.printable_rows henv) (Sheet.recordsWritable_empty settings.columns settings.guarded)
    (Int.le_refl 0) (Or.inr rfl) hlimits hlegible
  have hcount : ((opened settings).settings.rows - 0).toNat = settings.rows.toNat := by
    rw [Int.sub_zero]
    rfl
  obtain ⟨hinOrder, hbounded, hadvances, hcomplete, hends⟩ := hloads
  rw [hcount] at hbounded hends
  rw [show (opened settings).settings.rows = settings.rows from rfl, hall] at hinOrder hcomplete
  exact ⟨batches, hanswers, hinOrder, hbounded, hadvances, hcomplete, hends⟩

instance (s : Service) (offset limit : Int) : Decidable (s.Legible offset limit) :=
  inferInstanceAs (Decidable (∀ row ∈ rowIds offset (min (offset + limit) s.settings.rows),
    ∀ key ∈ rowKeys s.sheet.columns row, (s.sheet.read key).1.isOk))

/-- Windows of two rows and of one, with an edit and a fill in between. -/
def threeRows : List (List ClientStep × Int) :=
  [([.request (.edit ⟨1, 0⟩ ['=', 'B', '1'])], 2),
    ([.request (.edit ⟨3, 1⟩ ['7']), .request (.fill ⟨3, 1⟩ ⟨2, 1⟩)], 1), ([], 500)]

theorem rows_loaded_once_between :
    let env : Environment := [("GRID_TOTAL_ROWS", ['3']), ("GRID_TOTAL_COLUMNS", ['2'])]
    let settings : Settings := ⟨3, 2, 50, false⟩
    Settings.ofEnvironment env = .ok settings ∧
    (∀ ask ∈ threeRows, 1 ≤ ask.2 ∧ ask.2 ≤ 500) ∧
    (∀ ask ∈ (opened settings).asks 0 threeRows, ask.service.Legible ask.offset ask.limit) ∧
    ((opened settings).asks 0 threeRows).length = 2 ∧
    ∃ batches : List RowBatch,
      ((opened settings).asks 0 threeRows).map Ask.answer =
        batches.map (fun b => .ok (.reply (.rows b))) ∧
      delivered batches = [1, 2, 3] := by
  intro env settings
  have henv : Settings.ofEnvironment env = .ok settings := by decide +kernel
  have hlimits : ∀ ask ∈ threeRows, 1 ≤ ask.2 ∧ ask.2 ≤ 500 := by decide
  have hlegible : ∀ ask ∈ (opened settings).asks 0 threeRows,
      ask.service.Legible ask.offset ask.limit := by decide +kernel
  obtain ⟨batches, hanswers, -, -, -, hcomplete, hends⟩ := rows_loaded_once henv hlimits hlegible
  obtain ⟨final, hfinal, hnone⟩ := hends (by decide)
  exact ⟨henv, hlimits, hlegible, by decide +kernel, batches, hanswers,
    hcomplete final hfinal hnone⟩

end Service

end FormulaGrid
