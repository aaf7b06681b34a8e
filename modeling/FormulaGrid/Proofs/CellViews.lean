import FormulaGrid.Proofs.EventFeed
import FormulaGrid.Proofs.RowLoading
import FormulaGrid.Proofs.UnguardedWrites

/-!
# Views of cells

A window of rows is read as a whole before any of its cells is looked up again, a single cell is looked up
as soon as it has been read. Both show the same view of a cell, since reading other cells changes neither
its text nor what is recorded for it.
-/
namespace FormulaGrid

theorem mapM_congr_forall₂ {α β γ : Type} {f : α → Except Fault γ} {g : β → Except Fault γ}
    {items : List α} {others : List β} (h : List.Forall₂ (fun a b => f a = g b) items others) :
    items.mapM f = others.mapM g := by
  induction h with
  | nil => rfl
  | cons hfirst _ ih => rw [List.mapM_cons, List.mapM_cons, hfirst, ih]

namespace Sheet
open CellStore

variable {s : Sheet} {key k : CellKey} {keys : List CellKey}

theorem evaluateCell_dependencies {s' : Sheet} (hraw : s'.rawText = s.rawText)
    (h : s'.dependencies key = s.dependencies key) :
    (s'.evaluateCell key).2.dependencies key = (s.evaluateCell key).2.dependencies key := by
  unfold evaluateCell
  rw [hraw]
  split
  · exact h
  split
  · rw [memoize_dependencies, memoize_dependencies, if_pos rfl, if_pos rfl]
  · exact h
  · exact h

theorem memoize_read_self {e : Evaluated} (h : e.text ≠ []) :
    ((s.memoize k e).read k).2 = s.memoize k e := by
  have hcached : (s.memoize k e).cached k = some e.text := by
    rw [cached, memoize_computed, if_pos rfl]
  unfold read
  rw [hcached]
  cases htext : e.text with
  | nil => exact absurd htext h
  | cons c t => rfl

theorem memoize_read_dependencies (h : key ≠ k) (e : Evaluated) :
    ((s.memoize k e).read key).2.dependencies key = (s.read key).2.dependencies key := by
  have hcached : (s.memoize k e).cached key = s.cached key := by
    rw [cached, memoize_computed, if_neg h, cached]
  have hrecorded : (s.memoize k e).dependencies key = s.dependencies key := by
    rw [memoize_dependencies, if_neg h]
  unfold read
  rw [hcached]
  split
  · exact evaluateCell_dependencies rfl hrecorded
  · exact evaluateCell_dependencies rfl hrecorded
  · exact hrecorded

/-- Reading one cell makes no difference to what is recorded when another is read, or the same again. -/
theorem read_read_dependencies (s : Sheet) (key k : CellKey) :
    ((s.read k).2.read key).2.dependencies key = (s.read key).2.dependencies key := by
  rcases s.read_eq_memoize k with hsame | ⟨e, htext, hread⟩
  · rw [hsame]
  · by_cases hkey : key = k
    · rw [hkey, hread, memoize_read_self htext]
    · rw [hread]
      exact memoize_read_dependencies hkey e

theorem read_dependencies_of_ne (h : key ≠ k) : (s.read k).2.dependencies key = s.dependencies key := by
  rcases s.read_cases k with hsame | ⟨formula, e, -, -, hmemo⟩
  · rw [hsame]
  · rw [hmemo, memoize_dependencies, if_neg h]

theorem afterReads_dependencies_of_not_mem (h : key ∉ keys) :
    (s.afterReads keys).dependencies key = s.dependencies key := by
  induction keys generalizing s with
  | nil => rfl
  | cons k keys ih =>
    obtain ⟨hne, hkeys⟩ := not_or.mp (mt List.mem_cons.mpr h)
    rw [afterReads_cons, ih hkeys, read_dependencies_of_ne hne]

/-- What is recorded of a cell that has been read among others is what reading it alone records. -/
theorem afterReads_dependencies (h : key ∈ keys) :
    (s.afterReads keys).dependencies key = (s.read key).2.dependencies key := by
  induction keys generalizing s with
  | nil => cases h
  | cons k keys ih =>
    rw [afterReads_cons]
    by_cases hlater : key ∈ keys
    · rw [ih hlater, read_read_dependencies]
    · obtain rfl : key = k := (List.mem_cons.mp h).resolve_right hlater
      exact afterReads_dependencies_of_not_mem hlater

theorem afterReads_raw (s : Sheet) (keys : List CellKey) : (s.afterReads keys).raw = s.raw :=
  List.foldlRecOn keys _ (motive := fun t : Sheet => t.raw = s.raw) rfl
    fun t h key _ => (t.read_raw key).trans h

theorem read_afterReads (s : Sheet) (keys : List CellKey) (key : CellKey) :
    ((s.afterReads keys).read key).1 = (s.read key).1 := by
  induction keys generalizing s with
  | nil => rfl
  | cons k keys ih => rw [afterReads_cons, ih, read_read]

theorem readAll_cons_fst (s : Sheet) (key : CellKey) (keys : List CellKey) :
    (readAll s (key :: keys)).1 = do
      let text ← (s.read key).1
      let texts ← (readAll (s.read key).2 keys).1
      return text :: texts := by
  rw [readAll, cellStore_read]
  rcases s.read key with ⟨fault | text, next⟩
  · rfl
  · dsimp only
    rcases readAll next keys with ⟨fault | texts, last⟩ <;> rfl

theorem renderRows_cons_fst (s : Sheet) (row : Int) (rows : List Int) :
    (renderRows s (row :: rows)).1 = do
      let texts ← (readAll s (rowKeys s.columns row)).1
      let table ← (renderRows (readAll s (rowKeys s.columns row)).2 rows).1
      return texts :: table := by
  have hcolumns : CellStore.columns s = s.columns := rfl
  rw [renderRows, hcolumns]
  rcases readAll s (rowKeys s.columns row) with ⟨fault | texts, next⟩
  · rfl
  · dsimp only
    rcases renderRows next rows with ⟨fault | table, last⟩ <;> rfl

/-- Cells that are read one after the other have the texts that each displays by itself. -/
theorem readAll_fst (s : Sheet) (keys : List CellKey) :
    (readAll s keys).1 = keys.mapM fun key => (s.read key).1 := by
  induction keys generalizing s with
  | nil => rfl
  | cons key keys ih => simp only [readAll_cons_fst, List.mapM_cons, ih, read_read]

theorem renderRows_fst (s : Sheet) (rows : List Int) : (renderRows s rows).1 =
    rows.mapM fun row => (rowKeys s.columns row).mapM fun key => (s.read key).1 := by
  induction rows generalizing s with
  | nil => rfl
  | cons row rows ih =>
    obtain ⟨read, hread⟩ := s.exists_readAll_eq_afterReads (rowKeys s.columns row)
    simp only [renderRows_cons_fst, List.mapM_cons, hread, ih, readAll_fst, read_afterReads,
      afterReads_columns]

end Sheet

namespace Route

variable {piece t : Text}

theorem segments_of_not_mem (h : '/' ∉ piece) : segments piece = [piece] := by
  induction piece with
  | nil => rfl
  | cons c piece ih =>
    obtain ⟨hc, hpiece⟩ := not_or.mp (mt List.mem_cons.mpr h)
    rw [segments, if_neg (Ne.symm hc), ih hpiece]

theorem segments_append (h : '/' ∉ piece) : segments (piece ++ '/' :: t) = piece :: segments t := by
  induction piece with
  | nil => rfl
  | cons c piece ih =>
    obtain ⟨hc, hpiece⟩ := not_or.mp (mt List.mem_cons.mpr h)
    rw [List.cons_append, segments, if_neg (Ne.symm hc), ih hpiece]

theorem fixed?_cells (hne : t ≠ []) (h : '\n' ∉ t) : fixed? ("/grid/cells/".toList ++ t) = none := by
  have hkept : dropLineFeed ("/grid/cells/".toList ++ t) = "/grid/cells/".toList ++ t := by
    rw [dropLineFeed, List.getLast?_append_of_ne_nil _ hne, if_neg]
    intro hlast
    exact h (List.mem_of_getLast? hlast)
  unfold fixed?
  rw [hkept]
  split
  case h_7 => rfl
  all_goals
    rename_i heq
    have hpath := congrArg String.toList heq
    simp at hpath

end Route

namespace Request
open IntegerText

/-- The request asks for a single cell. -/
def AsksCell (r : Request) (key : CellKey) : Prop :=
  r.method = "GET" ∧ ∃ row col, Route.ofPath r.path = some (.cell row col) ∧ pathKey row col = .ok key

/-- The request for a single cell. -/
def cell (key : CellKey) : Request :=
  ⟨"GET", "/grid/cells/".toList ++ (written key.row ++ '/' :: written key.col), [], none⟩

theorem asksCell_cell {key : CellKey} (hrow : 0 ≤ key.row) (hprintable : Printable key.row)
    (hcol : 0 ≤ key.col) (hprintable' : Printable key.col) : (cell key).AsksCell key := by
  have hdigits {n : Int} (hn : 0 ≤ n) : ∀ c ∈ written n, c.isDigit := by
    rw [written_of_nonneg hn]
    exact fun c hc => Nat.isDigit_of_mem_toDigits (by decide) (by decide) hc
  have hne {n : Int} (hn : 0 ≤ n) : written n ≠ [] := by
    rw [written_of_nonneg hn]
    exact Nat.toDigits_ne_nil
  have hplain {n : Int} (hn : 0 ≤ n) {c : Char} (hc : c.isDigit = false) : c ∉ written n :=
    fun hmem => by simp [hdigits hn c hmem] at hc
  have hfixed : Route.fixed? (cell key).path = none := by
    apply Route.fixed?_cells (by simp)
    simp [hplain hrow, hplain hcol]
  have hsegments : Route.segments (cell key).path =
      [[], "grid".toList, "cells".toList, written key.row, written key.col] := by
    have hpath : (cell key).path = [] ++ '/' :: ("grid".toList ++ '/' :: ("cells".toList ++
        '/' :: (written key.row ++ '/' :: written key.col))) := rfl
    rw [hpath, Route.segments_append (by decide), Route.segments_append (by decide),
      Route.segments_append (by decide), Route.segments_append (hplain hrow (by decide)),
      Route.segments_of_not_mem (hplain hcol (by decide))]
  refine ⟨rfl, written key.row, written key.col, ?_, ?_⟩
  · simp [Route.ofPath, hfixed, Route.cell?, hsegments, hne hrow, hne hcol]
  · simp [pathKey, integerAt, Checked.both, Checked.ofOption, readField?_written hrow hprintable,
      readField?_written hcol hprintable', Except.map]

end Request

namespace Service
open CellStore IntegerText

variable {s : Service} {sheet : Sheet} {key : CellKey} {keys : List CellKey} {text : Text}
  {offset limit last : Int}

theorem handle_of_asksCell {q : Request} (hq : q.AsksCell key) (hkey : s.settings.contains key) :
    s.handle q = s.cellReply key := by
  obtain ⟨hmethod, row, col, hroute, hpath⟩ := hq
  have hanswer : s.handle q = s.answer q (.cell row col) := by
    rw [handle, hroute]
    exact if_pos hmethod
  rw [hanswer, answer, hpath]
  simp only [withChecked, getCell, if_pos hkey]

/-- The view of a cell that is read by itself. -/
def shown (sheet : Sheet) (key : CellKey) : Except Fault CellView := do
  let text ← (sheet.read key).1
  view (sheet.read key).2 key text

theorem cellReply_fst (s : Service) (key : CellKey) :
    (s.cellReply key).1 = (shown s.sheet key).map .cell := by
  unfold cellReply shown
  rcases s.sheet.read key with ⟨fault | text, sheet⟩ <;> rfl

theorem view_congr {sheet' : Sheet} (hraw : sheet'.raw = sheet.raw)
    (h : sheet'.dependencies key = sheet.dependencies key) (text : Text) :
    view sheet' key text = view sheet key text := by
  simp only [view, Sheet.rawText, hraw, h]

theorem shown_read (sheet : Sheet) (k key : CellKey) : shown (sheet.read k).2 key = shown sheet key := by
  have hraw : ((sheet.read k).2.read key).2.raw = (sheet.read key).2.raw := by
    simp only [Sheet.read_raw]
  unfold shown
  rw [Sheet.read_read]
  simp only [view_congr hraw (sheet.read_read_dependencies key k)]

/-- Reading cells changes the view of no cell. -/
theorem shown_afterReads (sheet : Sheet) (keys : List CellKey) :
    shown (sheet.afterReads keys) = shown sheet := by
  induction keys generalizing sheet with
  | nil => rfl
  | cons k keys ih =>
    rw [Sheet.afterReads_cons, ih]
    exact funext (shown_read sheet k)

/-- A cell read among others is viewed as if it had been read by itself. -/
theorem view_afterReads (hkey : key ∈ keys) (htext : (sheet.read key).1 = .ok text) :
    view (sheet.afterReads keys) key text = shown sheet key := by
  have hraw : (sheet.afterReads keys).raw = (sheet.read key).2.raw := by
    rw [Sheet.afterReads_raw, Sheet.read_raw]
  rw [shown, htext, view_congr hraw (Sheet.afterReads_dependencies hkey)]
  rfl

/-- A row whose cells are read one by one. -/
def shownRow (sheet : Sheet) (row : Int) : Except Fault RowView :=
  ((rowKeys sheet.columns row).mapM (shown sheet)).map (⟨row, ·⟩)

theorem forall₂_zipIdx {α : Type} {related : α → Text → Prop} {f : Nat → α} {texts : List Text}
    {start count : Nat} (h : List.Forall₂ related ((List.range' start count).map f) texts) :
    List.Forall₂ (fun a line => a = f line.2 ∧ related a line.1) ((List.range' start count).map f)
      (texts.zipIdx start) := by
  induction count generalizing start texts with
  | zero =>
    cases h
    exact .nil
  | succ count ih =>
    rw [List.range'_succ, List.map_cons] at h ⊢
    cases h with
    | cons hfirst hrest => exact .cons ⟨rfl, hfirst⟩ (ih hrest)

/-- A row of a table, whose cells have been read among others, is shown as a row of single cells. -/
theorem rowView_afterReads {row : Int} {texts : List Text}
    (hkeys : rowKeys sheet.columns row ⊆ keys)
    (htexts : (rowKeys sheet.columns row).mapM (fun key => (sheet.read key).1) = .ok texts) :
    rowView (sheet.afterReads keys) row texts = shownRow sheet row := by
  have hread : List.Forall₂ (fun key text => key ∈ keys ∧ (sheet.read key).1 = .ok text)
      (rowKeys sheet.columns row) texts :=
    (List.forall₂_and_left _ _).mpr ⟨fun _ => @hkeys _, mapM_eq_ok.mp htexts⟩
  have hlines : List.Forall₂ (fun key line => shown sheet key =
      view (sheet.afterReads keys) ⟨row, line.2⟩ line.1) (rowKeys sheet.columns row)
        texts.zipIdx := by
    rw [rowKeys, List.range_eq_range'] at hread ⊢
    apply (forall₂_zipIdx hread).imp
    rintro key line ⟨rfl, hkey, htext⟩
    exact (view_afterReads hkey htext).symm
  rw [shownRow, mapM_congr_forall₂ hlines]
  rfl

/-- A table whose cells have been read one after the other is shown as rows of single cells. -/
theorem rowViews_afterReads {ids : List Int} {table : List (List Text)}
    (hkeys : ids.flatMap (rowKeys sheet.columns) ⊆ keys)
    (htable : ids.mapM (fun row => (rowKeys sheet.columns row).mapM fun key => (sheet.read key).1) =
      .ok table) : rowViews (sheet.afterReads keys) ids table = ids.mapM (shownRow sheet) := by
  rw [mapM_eq_ok] at htable
  rw [rowViews]
  induction htable with
  | nil => rfl
  | cons htexts _ ih =>
    rw [List.flatMap_cons, List.append_subset] at hkeys
    simp only [List.zip_cons_cons, List.mapM_cons, rowView_afterReads hkeys.1 htexts, ih hkeys.2]

/-- A window with legible cells is answered with rows of single cells. -/
theorem rowsReply_shown (hlast : min (offset + limit) s.settings.rows = last)
    (hoffset : 0 ≤ offset) (hrows : Printable s.settings.rows)
    (hrecords : s.sheet.RecordsWritable) (hlegible : s.Legible offset limit) :
    ∃ rows, (s.rowsReply offset limit).1 =
        .ok (.rows ⟨offset, rows, decide (last < s.settings.rows), max last offset⟩) ∧
      (rowIds offset last).mapM (shownRow s.sheet) = .ok rows := by
  obtain ⟨rows, hreply, -⟩ := rowsReply_of_legible hlast hoffset hrows hrecords hlegible
  refine ⟨rows, hreply, ?_⟩
  obtain ⟨table, sheet, rows', hrender, hshown, hbatch⟩ := (rowsReply_eq_ok hlast).mp hreply
  obtain rfl : rows = rows' := by
    simpa using hbatch
  have htable := congrArg Prod.fst hrender
  rw [Sheet.renderRows_fst] at htable
  rw [← rowViews_afterReads (List.Subset.refl _) htable, ← (Sheet.renderRows_ok hrender).1]
  exact hshown

/-- The states that a service with an empty sheet comes to: by what clients do, by commands to its
session, and by the callbacks and messages of its loop, which may still wait when the next request comes. -/
inductive Arises (settings : Settings) : Service → Prop where
  | opened : Arises settings (opened settings)
  | act {s : Service} (h : Arises settings s) (c : ClientStep) : Arises settings (s.act c).2
  | command {s : Service} (h : Arises settings s) (command : Command) :
      Arises settings { s with session := (s.session.execute command).2 }
  | callback {s : Service} (h : Arises settings s) :
      Arises settings { s with session := s.session.runCallback }
  | send {s : Service} (h : Arises settings s) :
      Arises settings { s with session := s.session.takeEvents.2 }

theorem Arises.settings_eq {settings : Settings} (h : Arises settings s) : s.settings = settings := by
  induction h with
  | opened => rfl
  | @act s _ c ih => exact (s.act_settings c).trans ih
  | command _ _ ih => exact ih
  | callback _ ih => exact ih
  | send _ ih => exact ih

theorem runCallback_keeps {invariant : Sheet → Prop}
    (hkeeps : CellStore.Keeps (fun _ _ => True) invariant) {session : Session Sheet}
    (h : invariant session.store) : invariant session.runCallback.store := by
  unfold Session.runCallback
  split
  · rename_i n hn
    have hrefreshed : invariant { session with callbacks := some n }.refresh.2.store :=
      refresh_keeps hkeeps h
    split
    · simp_all
    · simp_all
  · exact h

/-- What every operation keeps holds of the sheet in every state. -/
theorem Arises.keeps {settings : Settings} {invariant : Sheet → Prop}
    (hkeeps : CellStore.Keeps (fun _ _ => True) invariant)
    (hempty : invariant (.empty settings.columns settings.guarded)) (h : Arises settings s) :
    invariant s.sheet := by
  induction h with
  | opened => exact hempty
  | act _ c ih => exact act_keeps hkeeps ih c
  | @command s _ command ih =>
    exact hkeeps.execute ih fun _ => Session.obeys_of_forall (fun _ _ => trivial) s.session _
  | callback _ ih => exact runCallback_keeps hkeeps ih
  | send _ ih => exact ih

theorem Arises.recordsWritable {settings : Settings} (h : Arises settings s) :
    s.sheet.RecordsWritable :=
  h.keeps Sheet.recordsWritable_kept (Sheet.recordsWritable_empty _ _)

theorem Arises.columns_eq {settings : Settings} (h : Arises settings s) :
    s.sheet.columns = settings.columns :=
  congrArg Prod.fst
    (h.keeps (Sheet.settings_kept (Sheet.empty settings.columns settings.guarded).settings) rfl)

/-- The texts of the cells and what is queued for a refresh are the same. -/
structure Unwritten (s t : Service) : Prop where
  raw : t.sheet.raw = s.sheet.raw
  queue : t.session.queue = s.session.queue

theorem unwritten_cellReply (s : Service) (key : CellKey) : s.Unwritten (s.cellReply key).2 := by
  rw [cellReply_snd]
  exact ⟨s.sheet.read_raw key, rfl⟩

theorem rowsReply_snd_eq_afterReads (s : Service) (offset limit : Int) :
    ∃ keys, (s.rowsReply offset limit).2 = s.onSheet (s.sheet.afterReads keys) := by
  obtain ⟨keys, hkeys⟩ := s.sheet.exists_renderRows_eq_afterReads
    (rowIds offset (min (offset + limit) s.settings.rows))
  exact ⟨keys, by rw [rowsReply_snd, hkeys]⟩

/-- Cells that were read before make no difference to an answer. -/
theorem cellReply_afterReads (s : Service) (keys : List CellKey) (key : CellKey) :
    ((s.onSheet (s.sheet.afterReads keys)).cellReply key).1 = (s.cellReply key).1 := by
  have hsheet : (s.onSheet (s.sheet.afterReads keys)).sheet = s.sheet.afterReads keys := rfl
  rw [cellReply_fst, cellReply_fst, hsheet, shown_afterReads]

theorem shownRow_afterReads (sheet : Sheet) (keys : List CellKey) :
    shownRow (sheet.afterReads keys) = shownRow sheet := by
  funext row
  rw [shownRow, shownRow, shown_afterReads, Sheet.afterReads_columns]

theorem Legible.afterReads (h : s.Legible offset limit) (keys : List CellKey) :
    (s.onSheet (s.sheet.afterReads keys)).Legible offset limit := by
  intro row hrow key hkey
  have hsheet : (s.onSheet (s.sheet.afterReads keys)).sheet = s.sheet.afterReads keys := rfl
  rw [hsheet, Sheet.afterReads_columns] at hkey
  rw [hsheet, Sheet.read_afterReads]
  exact h row hrow key hkey

theorem rowsReply_afterReads (hoffset : 0 ≤ offset) (hrows : Printable s.settings.rows)
    (hrecords : s.sheet.RecordsWritable) (hlegible : s.Legible offset limit) (keys : List CellKey) :
    ((s.onSheet (s.sheet.afterReads keys)).rowsReply offset limit).1 = (s.rowsReply offset limit).1 := by
  obtain ⟨rows, hreply, hshown⟩ := rowsReply_shown rfl hoffset hrows hrecords hlegible
  obtain ⟨rows', hreply', hshown'⟩ := rowsReply_shown (s := s.onSheet (s.sheet.afterReads keys)) rfl
    hoffset hrows (hrecords.afterReads keys) (hlegible.afterReads keys)
  have hsame : rows' = rows := by
    have hrow : shownRow (s.onSheet (s.sheet.afterReads keys)).sheet = shownRow s.sheet :=
      shownRow_afterReads s.sheet keys
    rw [hrow] at hshown'
    exact Except.ok.inj (hshown'.symm.trans hshown)
  rw [hreply, hreply', hsame]
  rfl

theorem shown_key {v : CellView} (h : shown sheet key = .ok v) : v.key = key := by
  unfold shown at h
  cases htext : (sheet.read key).1 with
  | error fault =>
    rw [htext] at h
    cases h
  | ok text =>
    rw [htext] at h
    exact view_key h

theorem shownRow_eq_ok {row : Int} {v : RowView} : shownRow sheet row = .ok v ↔
    v.row = row ∧
      List.Forall₂ (fun key v => shown sheet key = .ok v) (rowKeys sheet.columns row) v.cells := by
  rw [← mapM_eq_ok, shownRow]
  obtain ⟨row', cells⟩ := v
  cases (rowKeys sheet.columns row).mapM (shown sheet) <;> simp [Except.map, eq_comm]

/-- A view of a cell in the batch that a request is answered with is what a request for the cell alone is
answered with, before or after. -/
structure ShownAlone (s : Service) (r : Request) (batch : RowBatch) (v : CellView) (q : Request) :
    Prop where
  before : (s.handle q).1 = .ok (.cell v)
  after : ((s.handle r).2.handle q).1 = .ok (.cell v)
  batch : ((s.handle q).2.handle r).1 = .ok (.rows batch)
  unwritten : s.Unwritten (s.handle q).2

theorem shownAlone_of_asksCell {r q : Request} {batch : RowBatch} {v : CellView}
    (hr : r.AsksRows s.settings offset limit) (hoffset : 0 ≤ offset) (hlimit : 1 ≤ limit)
    (hmax : limit ≤ maxBatch) (hrows : Printable s.settings.rows)
    (hrecords : s.sheet.RecordsWritable) (hlegible : s.Legible offset limit)
    (hbatch : (s.handle r).1 = .ok (.rows batch)) (hq : q.AsksCell key)
    (hkey : s.settings.contains key) (hv : shown s.sheet key = .ok v) :
    s.ShownAlone r batch v q := by
  have hcell : (s.cellReply key).1 = .ok (.cell v) := by
    rw [cellReply_fst, hv]
    rfl
  have hasked : s.handle q = s.cellReply key := handle_of_asksCell hq hkey
  have hloaded : s.handle r = s.rowsReply offset limit :=
    handle_of_asksRows hr hoffset hlimit hmax
  obtain ⟨keys, hkeys⟩ := s.rowsReply_snd_eq_afterReads offset limit
  constructor
  case before => rw [hasked, hcell]
  case after =>
    have hlater : (s.onSheet (s.sheet.afterReads keys)).handle q =
        (s.onSheet (s.sheet.afterReads keys)).cellReply key := handle_of_asksCell hq hkey
    rw [hloaded, hkeys, hlater, cellReply_afterReads, hcell]
  case batch =>
    have hlater : (s.onSheet (s.sheet.afterReads [key])).handle r =
        (s.onSheet (s.sheet.afterReads [key])).rowsReply offset limit :=
      handle_of_asksRows hr hoffset hlimit hmax
    have hone : (s.cellReply key).2 = s.onSheet (s.sheet.afterReads [key]) := s.cellReply_snd key
    rw [hasked, hone, hlater, rowsReply_afterReads hoffset hrows hrecords hlegible, ← hloaded, hbatch]
  case unwritten =>
    rw [hasked]
    exact s.unwritten_cellReply key

/-- The window of rows and the single cells show the same views. Of a service in any state that arises, a
window whose cells can be read is answered with its rows. Each row has the view of every one of its cells
that a request for this cell alone is answered with, whether it comes before the window or after; and
neither request changes the text of a cell or what is queued. -/
theorem window_shows_single_cells {env : Environment} {settings : Settings} {r : Request}
    (henv : Settings.ofEnvironment env = .ok settings) (hs : Arises settings s)
    (hr : r.AsksRows settings offset limit) (hoffset : 0 ≤ offset) (hlimit : 1 ≤ limit ∧ limit ≤ 500)
    (hlegible : s.Legible offset limit) :
    ∃ batch, (s.handle r).1 = .ok (.rows batch) ∧ s.Unwritten (s.handle r).2 ∧
      List.Forall₂ (fun row (shown : RowView) => shown.row = row ∧
          List.Forall₂ (fun key v => v.key = key ∧ (Request.cell key).AsksCell key ∧
              ∀ q : Request, q.AsksCell key → s.ShownAlone r batch v q)
            (rowKeys settings.columns row) shown.cells)
        (rowIds offset (min (offset + limit) settings.rows)) batch.rows := by
  obtain ⟨hrows, hcolumns⟩ := Settings.printable_size henv
  have hrecords := hs.recordsWritable
  have hwidth := hs.columns_eq
  obtain rfl := hs.settings_eq
  obtain ⟨rows, hreply, hshown⟩ := rowsReply_shown rfl hoffset hrows hrecords hlegible
  have hloaded : s.handle r = s.rowsReply offset limit :=
    handle_of_asksRows hr hoffset hlimit.1 hlimit.2
  have hbatch := (congrArg Prod.fst hloaded).trans hreply
  refine ⟨_, hbatch, ?_, ?_⟩
  · obtain ⟨keys, hkeys⟩ := s.rowsReply_snd_eq_afterReads offset limit
    rw [hloaded, hkeys]
    exact ⟨s.sheet.afterReads_raw keys, rfl⟩
  have hviews := (List.forall₂_and_left _ _).mpr
    ⟨fun row hrow => mem_rowIds.mp hrow, mapM_eq_ok.mp hshown⟩
  apply hviews.imp
  rintro row shown ⟨⟨hfirst, hlast⟩, hrow⟩
  obtain ⟨hid, hcells⟩ := shownRow_eq_ok.mp hrow
  rw [hwidth] at hcells
  refine ⟨hid, ?_⟩
  apply ((List.forall₂_and_left _ _).mpr ⟨fun _ hkey => hkey, hcells⟩).imp
  rintro key v ⟨hkey, hv⟩
  obtain ⟨col, hcol, rfl⟩ := List.mem_map.mp hkey
  rw [List.mem_range] at hcol
  have hrow : 0 ≤ row ∧ row ≤ s.settings.rows := by omega
  have hcol : (0 : Int) ≤ col ∧ (col : Int) ≤ s.settings.columns := by omega
  have hcontains : s.settings.contains ⟨row, col⟩ := by
    simp only [Settings.contains, Bool.and_eq_true, decide_eq_true_eq]
    omega
  refine ⟨shown_key hv, ?_, ?_⟩
  · exact Request.asksCell_cell hrow.1 (hrows.of_le hrow.1 hrow.2) hcol.1
      (hcolumns.of_le hcol.1 hcol.2)
  · intro q hq
    exact shownAlone_of_asksCell hr hoffset hlimit.1 hlimit.2 hrows hrecords hlegible hbatch hq
      hcontains hv

/-- A formula has been filled down, and the cell below waits to be refreshed. -/
def filledDown : Service :=
  (((opened ⟨3, 2, 50, true⟩).act (.request (.edit ⟨1, 0⟩ ['=', 'B', '1']))).2.act
    (.request (.fill ⟨1, 0⟩ ⟨2, 0⟩))).2

theorem window_shows_single_cells_filled :
    let env : Environment := [("GRID_TOTAL_ROWS", ['3']), ("GRID_TOTAL_COLUMNS", ['2']),
      ("GRID_CYCLE_GUARD", "true".toList)]
    let v : CellView := ⟨⟨2, 0⟩, ['A', '2'], ['=', 'B', '2'], ['0'], true, [['B', '2']]⟩
    Settings.ofEnvironment env = .ok ⟨3, 2, 50, true⟩ ∧ Arises ⟨3, 2, 50, true⟩ filledDown ∧
    (Request.rows 1 1).AsksRows ⟨3, 2, 50, true⟩ 1 1 ∧ filledDown.Legible 1 1 ∧
    filledDown.session.queue = [[⟨2, 0⟩]] ∧
    ∃ batch, (filledDown.handle (.rows 1 1)).1 = .ok (.rows batch) ∧
      v ∈ batch.rows.flatMap RowView.cells ∧
      filledDown.ShownAlone (.rows 1 1) batch v (.cell ⟨2, 0⟩) := by
  intro env v
  have henv : Settings.ofEnvironment env = .ok ⟨3, 2, 50, true⟩ := by decide +kernel
  have harises : Arises ⟨3, 2, 50, true⟩ filledDown := (Arises.opened.act _).act _
  have hasks : (Request.rows 1 1).AsksRows ⟨3, 2, 50, true⟩ 1 1 :=
    ⟨rfl, route_rows, some 1, window_rows (by decide) (length_toDigits_le_iff.mp (by decide))
      (by decide) (by decide), rfl⟩
  have hlegible : filledDown.Legible 1 1 := by decide +kernel
  obtain ⟨batch, hbatch, -, hrows⟩ :=
    window_shows_single_cells henv harises hasks (by decide) (by decide) hlegible
  have hids : rowIds 1 (min (1 + 1) 3) = [2] := by decide
  have hkeys : rowKeys 2 2 = [⟨2, 0⟩, ⟨2, 1⟩] := by decide
  rw [hids] at hrows
  obtain ⟨shown, others, ⟨-, hcells⟩, -, hshown⟩ := List.forall₂_cons_left_iff.mp hrows
  rw [hkeys] at hcells
  obtain ⟨first, second, ⟨-, hasked, halone⟩, -, hfirst⟩ := List.forall₂_cons_left_iff.mp hcells
  have hcell : (filledDown.handle (.cell ⟨2, 0⟩)).1 = .ok (.cell v) := by decide +kernel
  have hview : first = v := by
    simpa using (halone _ hasked).before.symm.trans hcell
  subst hview
  refine ⟨henv, harises, hasks, hlegible, by decide +kernel, batch, hbatch, ?_, halone _ hasked⟩
  simp [hshown, hfirst]

end Service

end FormulaGrid
