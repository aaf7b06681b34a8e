import FormulaGrid.Proofs.ServiceTurns
import FormulaGrid.Proofs.WritableCells

/-!
# Shown cells

A request that shows cells has read them, possibly after it has edited one, and shows them as they are
when all of them have been read.
-/
namespace FormulaGrid

namespace Sheet
open CellStore

variable {s : Sheet} {rows : List Int} {keys : List CellKey} {texts : List Text}
  {table : List (List Text)}

/-- The sheet after cells have been read one after the other. -/
def afterReads (s : Sheet) (keys : List CellKey) : Sheet :=
  keys.foldl (fun s key => (s.read key).2) s

theorem afterReads_cons (s : Sheet) (key : CellKey) (keys : List CellKey) :
    s.afterReads (key :: keys) = (s.read key).2.afterReads keys := rfl

theorem afterReads_append (s : Sheet) (keys others : List CellKey) :
    s.afterReads (keys ++ others) = (s.afterReads keys).afterReads others :=
  List.foldl_append

theorem afterReads_columns (s : Sheet) (keys : List CellKey) :
    (s.afterReads keys).columns = s.columns := by
  induction keys generalizing s with
  | nil => rfl
  | cons key keys ih => exact (ih (s.read key).2).trans (congrArg Prod.fst (s.read_settings key))

theorem RecordsWritable.afterReads (h : s.RecordsWritable) (keys : List CellKey) :
    (s.afterReads keys).RecordsWritable :=
  List.foldlRecOn keys _ h fun _ hs key _ => hs.read key

theorem readAll_ok {s' : Sheet} (h : readAll s keys = (.ok texts, s')) :
    s' = s.afterReads keys ∧ texts.length = keys.length := by
  induction keys generalizing s texts with
  | nil =>
    obtain ⟨htexts, rfl⟩ := Prod.mk.inj h
    obtain rfl := Except.ok.inj htexts
    exact ⟨rfl, rfl⟩
  | cons key keys ih =>
    unfold readAll at h
    rw [cellStore_read] at h
    split at h
    · cases h
    rename_i text next hread
    split at h
    · cases h
    rename_i others last hrest
    obtain ⟨htexts, rfl⟩ := Prod.mk.inj h
    obtain rfl := Except.ok.inj htexts
    obtain ⟨rfl, hlength⟩ := ih hrest
    exact ⟨by rw [afterReads_cons, hread], by simp [hlength]⟩

/-- A table has been read row by row, and each row of it has a text for each column. -/
theorem renderRows_ok {s' : Sheet} (h : renderRows s rows = (.ok table, s')) :
    s' = s.afterReads (rows.flatMap (rowKeys s.columns)) ∧ table.length = rows.length ∧
      ∀ texts ∈ table, texts.length = s.columns.toNat := by
  induction rows generalizing s table with
  | nil =>
    obtain ⟨htable, rfl⟩ := Prod.mk.inj h
    obtain rfl := Except.ok.inj htable
    exact ⟨rfl, rfl, by simp⟩
  | cons row rows ih =>
    have hcolumns : CellStore.columns s = s.columns := rfl
    unfold renderRows at h
    rw [hcolumns] at h
    split at h
    · cases h
    rename_i texts next hread
    split at h
    · cases h
    rename_i others last hrest
    obtain ⟨htable, rfl⟩ := Prod.mk.inj h
    obtain rfl := Except.ok.inj htable
    obtain ⟨rfl, hwidth⟩ := readAll_ok hread
    obtain ⟨rfl, hlength, hwidths⟩ := ih hrest
    rw [afterReads_columns] at hwidths ⊢
    refine ⟨by rw [List.flatMap_cons, afterReads_append], by simp [hlength], ?_⟩
    exact List.forall_mem_cons.mpr ⟨by simp [hwidth, rowKeys], hwidths⟩

theorem exists_readAll_eq_afterReads (s : Sheet) (keys : List CellKey) :
    ∃ read, (readAll s keys).2 = s.afterReads read := by
  induction keys generalizing s with
  | nil => exact ⟨[], rfl⟩
  | cons key keys ih =>
    unfold readAll
    rw [cellStore_read]
    cases hread : s.read key with
    | mk outcome next =>
      cases outcome with
      | error fault => exact ⟨[key], by rw [afterReads_cons, hread]; rfl⟩
      | ok text =>
        obtain ⟨read, hrest⟩ := ih next
        refine ⟨key :: read, ?_⟩
        rw [afterReads_cons, hread, ← hrest]
        cases hall : readAll next keys with
        | mk outcome last => cases outcome <;> simp [hall]

theorem exists_renderRows_eq_afterReads (s : Sheet) (rows : List Int) :
    ∃ read, (renderRows s rows).2 = s.afterReads read := by
  induction rows generalizing s with
  | nil => exact ⟨[], rfl⟩
  | cons row rows ih =>
    obtain ⟨first, hfirst⟩ := s.exists_readAll_eq_afterReads (rowKeys (CellStore.columns s) row)
    unfold renderRows
    cases hread : readAll s (rowKeys (CellStore.columns s) row) with
    | mk outcome next =>
      rw [hread] at hfirst
      cases outcome with
      | error fault => exact ⟨first, hfirst⟩
      | ok texts =>
        obtain ⟨read, hrest⟩ := ih next
        refine ⟨first ++ read, ?_⟩
        rw [afterReads_append, ← hfirst, ← hrest]
        cases hall : renderRows next rows with
        | mk outcome last => cases outcome <;> simp [hall]

end Sheet

/-- The cells that a reply shows. -/
def Reply.views : Reply → List CellView
  | .cell view => [view]
  | .rows batch => batch.rows.flatMap RowView.cells
  | _ => []

theorem Reply.views_of_isBare {reply : Reply} (h : reply.isBare) : reply.views = [] := by
  cases reply <;> first | rfl | cases h

namespace Service
open CellStore

variable {s : Service} {sheet : Sheet} {key : CellKey} {text : Text} {v : CellView}

theorem view_eq_ok : view sheet key text = .ok v ↔ ∃ ref dependencies,
    key.toReference = .ok ref ∧ (sheet.dependencies key).mapM CellKey.toReference = .ok dependencies ∧
      v = ⟨key, ref, sheet.rawText key, text, (sheet.rawText key).isFormula, dependencies⟩ := by
  unfold view
  cases key.toReference with
  | error fault => simp [bind, Except.bind]
  | ok ref =>
    cases (sheet.dependencies key).mapM CellKey.toReference with
    | error fault => simp [bind, Except.bind]
    | ok dependencies => simp [bind, Except.bind, pure, Except.pure, eq_comm]

theorem exists_view (hkey : key.Writable) (hrecords : sheet.RecordsWritable) (text : Text) :
    ∃ v, view sheet key text = .ok v := by
  obtain ⟨dependencies, hdependencies⟩ := CellKey.exists_mapM_toReference (hrecords key)
  exact ⟨_, view_eq_ok.mpr ⟨_, dependencies, hkey.toReference, hdependencies, rfl⟩⟩

theorem view_key (h : view sheet key text = .ok v) : v.key = key := by
  obtain ⟨ref, dependencies, -, -, rfl⟩ := view_eq_ok.mp h
  rfl

theorem mem_rowIds {offset last row : Int} : row ∈ rowIds offset last ↔ offset < row ∧ row ≤ last := by
  simp only [rowIds, List.mem_map, List.mem_range]
  constructor
  · rintro ⟨i, hi, rfl⟩
    omega
  · intro h
    exact ⟨(row - offset - 1).toNat, by omega, by omega⟩

theorem rowView_eq_ok {row : Int} {texts : List Text} {shown : RowView} :
    rowView sheet row texts = .ok shown ↔ ∃ cells,
      texts.zipIdx.mapM (fun line => view sheet ⟨row, line.2⟩ line.1) = .ok cells ∧
        shown = ⟨row, cells⟩ := by
  have hrow : rowView sheet row texts =
      (texts.zipIdx.mapM fun line => view sheet ⟨row, line.2⟩ line.1).map (⟨row, ·⟩) := rfl
  rw [hrow]
  cases texts.zipIdx.mapM (fun line => view sheet ⟨row, line.2⟩ line.1) <;>
    simp [Except.map, eq_comm]

/-- A row is shown with a view of the cell in each column that has a text. -/
theorem exists_view_of_rowView {row : Int} {texts : List Text} {shown : RowView}
    (h : rowView sheet row texts = .ok shown) : shown.row = row ∧ ∀ v ∈ shown.cells,
      ∃ text, view sheet v.key text = .ok v ∧ v.key ∈ rowKeys texts.length row := by
  obtain ⟨cells, hcells, rfl⟩ := rowView_eq_ok.mp h
  refine ⟨rfl, ?_⟩
  intro v hv
  obtain ⟨⟨text, col⟩, hmem, hview⟩ := exists_of_mem_mapM hcells hv
  have hkey := view_key hview
  have hcol := List.mem_zipIdx hmem
  refine ⟨text, by rwa [hkey], ?_⟩
  rw [hkey, rowKeys, List.mem_map]
  exact ⟨col, by simp; omega, rfl⟩

theorem exists_rowView {row : Int} (hrow : 0 ≤ row) (hprintable : IntegerText.Printable row)
    (hrecords : sheet.RecordsWritable) (texts : List Text) :
    ∃ shown, rowView sheet row texts = .ok shown := by
  obtain ⟨cells, hcells⟩ : ∃ cells,
      texts.zipIdx.mapM (fun line => view sheet ⟨row, line.2⟩ line.1) = .ok cells :=
    exists_mapM_ok fun line _ =>
      exists_view ⟨hrow, Int.natCast_nonneg line.2, hprintable⟩ hrecords line.1
  exact ⟨⟨row, cells⟩, rowView_eq_ok.mpr ⟨cells, hcells, rfl⟩⟩

/-- The rows of a table are those read, and each view shows a cell of them. -/
theorem exists_view_of_rowViews {ids : List Int} {table : List (List Text)} {rows : List RowView}
    (hwidths : ∀ texts ∈ table, texts.length = sheet.columns.toNat)
    (h : rowViews sheet ids table = .ok rows) (hv : v ∈ rows.flatMap RowView.cells) :
    ∃ text, view sheet v.key text = .ok v ∧ v.key ∈ ids.flatMap (rowKeys sheet.columns) := by
  obtain ⟨shown, hshown, hv⟩ := List.mem_flatMap.mp hv
  obtain ⟨⟨row, texts⟩, hmem, hrow⟩ := exists_of_mem_mapM h hshown
  obtain ⟨hrow', hviews⟩ := exists_view_of_rowView hrow
  obtain ⟨text, hview, hkey⟩ := hviews v hv
  have hzip := List.of_mem_zip hmem
  refine ⟨text, hview, List.mem_flatMap.mpr ⟨row, hzip.1, ?_⟩⟩
  have hwidth : (texts.length : Int).toNat = sheet.columns.toNat := by
    rw [hwidths texts hzip.2, Int.toNat_natCast]
  rwa [rowKeys, ← hwidth]

/-- A table with a line of texts for each row is shown with these rows. -/
theorem rowViews_rows {ids : List Int} {table : List (List Text)} {rows : List RowView}
    (hlength : table.length = ids.length) (h : rowViews sheet ids table = .ok rows) :
    rows.map RowView.row = ids := by
  have hzip : (ids.zip table).map Prod.fst = ids := List.map_fst_zip (by omega)
  rw [← hzip]
  clear hzip
  unfold rowViews at h
  rw [mapM_eq_ok] at h
  generalize ids.zip table = lines at h ⊢
  induction h with
  | nil => rfl
  | cons hrow _ ih => rw [List.map_cons, List.map_cons, ih, (exists_view_of_rowView hrow).1]

/-- The sheet as a request finds it, or after an edit in the grid. -/
def Edited (s : Service) (w : Sheet) : Prop :=
  w = s.sheet ∨ ∃ key text, s.settings.contains key ∧ s.sheet.edit key text = (.ok (), w)

/-- A view of a cell on the sheet that a request leaves, on which the cell has been read. -/
structure Shows (s : Service) (sheet : Sheet) (v : CellView) : Prop where
  row : 0 ≤ v.key.row
  col : 0 ≤ v.key.col
  view : ∃ text, view sheet v.key text = .ok v
  read : ∃ w keys, s.Edited w ∧ v.key ∈ keys ∧ sheet = w.afterReads keys

theorem shows_of_cellReply {t : Service} {reply : Reply} (hkey : s.settings.contains key)
    (hedited : s.Edited t.sheet) (h : (t.cellReply key).1 = .ok reply) (hv : v ∈ reply.views) :
    s.Shows (t.cellReply key).2.sheet v := by
  obtain ⟨text, sheet, shown, hread, hview, rfl⟩ := cellReply_eq_ok.mp h
  have hsheet : (t.cellReply key).2.sheet = sheet := by
    rw [cellReply_snd, hread]
    rfl
  obtain rfl : v = shown := List.mem_singleton.mp hv
  obtain rfl := view_key hview
  simp only [Settings.contains, Bool.and_eq_true, decide_eq_true_eq] at hkey
  rw [hsheet]
  refine ⟨by omega, by omega, ⟨text, hview⟩, t.sheet, [v.key], hedited, by simp, ?_⟩
  rw [Sheet.afterReads_cons, hread]
  rfl

theorem shows_of_rowsReply {offset limit : Int} {reply : Reply} (hoffset : 0 ≤ offset)
    (h : (s.rowsReply offset limit).1 = .ok reply) (hv : v ∈ reply.views) :
    s.Shows (s.rowsReply offset limit).2.sheet v := by
  obtain ⟨table, sheet, rows, hrender, hrows, rfl⟩ := (rowsReply_eq_ok rfl).mp h
  have hsheet : (s.rowsReply offset limit).2.sheet = sheet := by
    rw [rowsReply_snd, hrender]
    rfl
  obtain ⟨rfl, -, hwidths⟩ := Sheet.renderRows_ok hrender
  rw [hsheet]
  obtain ⟨text, hview, hkey⟩ := exists_view_of_rowViews
    (by rwa [Sheet.afterReads_columns]) hrows (by simpa [Reply.views] using hv)
  rw [Sheet.afterReads_columns] at hkey
  obtain ⟨row, hrow, hcol⟩ := List.mem_flatMap.mp hkey
  obtain ⟨col, -, heq⟩ := List.mem_map.mp hcol
  have hbound := (mem_rowIds.mp hrow).1
  refine ⟨?_, ?_, ⟨text, hview⟩, s.sheet, _, Or.inl rfl, hkey, rfl⟩
  · rw [← heq]
    show 0 ≤ row
    omega
  · rw [← heq]
    exact Int.natCast_nonneg col

/-- Whatever a request shows has been read. -/
theorem shows_of_mem_views {r : Request} {reply : Reply} (h : (s.handle r).1 = .ok reply)
    (hv : v ∈ reply.views) : s.Shows (s.handle r).2.sheet v := by
  revert h
  apply handle_cases (motive := fun handled => handled.1 = .ok reply → s.Shows handled.2.sheet v) s r
  case idle =>
    intro outcome hidle heq
    rcases hidle with rfl | ⟨bare, rfl, hbare⟩
    · cases heq
    · obtain rfl := Except.ok.inj heq
      rw [Reply.views_of_isBare hbare] at hv
      cases hv
  case cell =>
    intro key hkey heq
    exact shows_of_cellReply hkey (Or.inl rfl) heq hv
  case rows =>
    intro offset limit hoffset _ heq
    exact shows_of_rowsReply hoffset heq hv
  case edit =>
    intro key text hkey
    unfold editReply
    split
    · intro heq
      obtain rfl := Except.ok.inj heq
      cases hv
    · intro heq
      cases heq
    · rename_i sheet hedit
      intro heq
      have hedited : s.Edited (s.onSheet sheet).sheet := Or.inr ⟨key, text, hkey, hedit⟩
      exact shows_of_cellReply hkey hedited heq hv
  case fill =>
    intro source target _ _ _ _
    unfold fillReply
    split
    · intro heq
      obtain rfl := Except.ok.inj heq
      cases hv
    · intro heq
      cases heq
    · intro heq
      obtain ⟨refs, -, rfl⟩ := filledReply_eq_ok.mp heq
      cases hv
  case refresh =>
    intro heq
    obtain ⟨count, rfl⟩ := postRefresh_ok heq
    cases hv

end Service

end FormulaGrid
