import FormulaGrid.Proofs.CompletedWrites
import FormulaGrid.Proofs.TornFills

/-!
# Filled rectangles

A fill that succeeds writes the cells of the rectangle but the one it starts from, row by row, whichever
corner the drag began at. Each new text depends on the text of the first cell and on the distance from there
alone, so that no written cell matters to another. Of the rest of the session only the results that the
written cells reach are gone, and a formula queues one batch.
-/
namespace FormulaGrid

namespace CellKey

variable {a b key : CellKey}

/-- The order of the cells row by row, and from left to right in each row. -/
def Before (a b : CellKey) : Prop := a.row < b.row ∨ a.row = b.row ∧ a.col < b.col

theorem Before.ne (h : Before a b) : a ≠ b := by
  rintro rfl
  rcases h with h | ⟨-, h⟩ <;> omega

theorem pairwise_span (i j : Int) : (span i j).Pairwise (· < ·) := by
  rw [span, List.pairwise_map]
  exact List.pairwise_lt_range.imp fun h => by omega

theorem pairwise_rectangle (a b : CellKey) : (rectangle a b).Pairwise Before := by
  rw [rectangle, List.pairwise_flatMap]
  constructor
  · intro row _
    rw [List.pairwise_map]
    exact (pairwise_span a.col b.col).imp fun h => Or.inr ⟨rfl, h⟩
  · apply (pairwise_span a.row b.row).imp
    intro row row' hrow key hkey other hother
    obtain ⟨col, -, rfl⟩ := List.mem_map.mp hkey
    obtain ⟨col', -, rfl⟩ := List.mem_map.mp hother
    exact Or.inl hrow

theorem nodup_rectangle (a b : CellKey) : (rectangle a b).Nodup :=
  (pairwise_rectangle a b).imp Before.ne

theorem mem_rectangle_left (a b : CellKey) : a ∈ rectangle a b :=
  mem_rectangle.mpr ⟨mem_span.mpr (by omega), mem_span.mpr (by omega)⟩

end CellKey

namespace Sheet
open CellKey

variable {s : Sheet} {source target key k : CellKey} {keys : List CellKey} {text : Text}

theorem mem_filled : key ∈ filled source target ↔ key ∈ rectangle source target ∧ key ≠ source := by
  simp [filled]

theorem length_filled (source target : CellKey) :
    (filled source target).length + 1 = (rectangle source target).length := by
  have herase : filled source target = (rectangle source target).erase source := by
    rw [(nodup_rectangle source target).erase_eq_filter, filled]
    apply List.filter_congr
    intro key _
    by_cases hkey : key = source <;> simp [hkey]
  rw [herase, List.length_erase_add_one (mem_rectangle_left source target)]

/-- Something is written exactly when the rectangle has more than one cell. -/
theorem filled_ne_nil_iff : filled source target ≠ [] ↔ 1 < (rectangle source target).length := by
  rw [← length_filled, ← List.length_pos_iff]
  omega

/-- All texts are made if writing does not stop, and then they are written. -/
theorem exists_filledText (h : (writeAll source text s keys).1 = .ok ()) (hkey : key ∈ keys) :
    ∃ new, filledText source key text = .ok new := by
  cases hfilled : filledText source key text with
  | ok new => exact ⟨new, rfl⟩
  | error fault =>
    obtain rfl := filledText_fault hfilled
    rw [writeAll_error_iff.mpr ⟨key, hkey, hfilled⟩] at h
    cases h

theorem filledFirst_of_writeAll (h : (writeAll source text s keys).1 = .ok ()) :
    filledFirst source text keys = keys := by
  rw [filledFirst, List.takeWhile_eq_self_iff]
  intro key hkey
  obtain ⟨new, hnew⟩ := exists_filledText h hkey
  rw [hnew]
  rfl

theorem writeAll_raw_of_ok (h : (writeAll source text s keys).1 = .ok ()) :
    (writeAll source text s keys).2.raw[k]? =
      if k ∈ keys then (filledText source k text).toOption else s.raw[k]? := by
  rw [writeAll_raw, filledFirst_of_writeAll h]

/-- A fill that succeeds writes all its cells before it drops the results that they reach. -/
theorem fill_of_ok (h : (s.fill source target).1 = .ok keys) :
    keys = filled source target ∧ (writeAll source (s.rawText source) s keys).1 = .ok () ∧
      (s.cascadeAll keys).overflow = false ∧ (s.fill source target).2 =
        { s with
          raw := (writeAll source (s.rawText source) s keys).2.raw
          computed := (s.drop (s.cascadeAll keys).cells).computed } := by
  by_cases hsource : s.hasColumn source.col
  case neg => simp [fill, hsource] at h
  by_cases htarget : s.hasColumn target.col
  case neg => simp [fill, hsource, htarget] at h
  rw [fill_of_hasColumn hsource htarget] at h ⊢
  rcases writeAll_outcome source (s.rawText source) (filled source target) s with hall | hall
  · rw [fillCells_of_ok hall] at h
    dsimp only at h
    have hover : (s.cascadeAll (filled source target)).overflow = false :=
      not_overflow_of_fill (by rw [h]; simp)
    rw [verdict_of_not_overflow hover] at h
    obtain rfl := Except.ok.inj h
    refine ⟨rfl, hall, hover, ?_⟩
    rw [fillCells_of_ok hall, writeAll_frame]
    rfl
  · rw [fillCells_of_error hall] at h
    cases h

/-- What a fill that succeeds makes of the texts and of the results. -/
theorem exists_fill (h : (s.fill source target).1 = .ok keys) :
    ∃ raw computed, (s.fill source target).2 = { s with raw := raw, computed := computed } ∧
      (∀ key ∈ keys, ∃ new, raw[key]? = some new ∧ filledText source key (s.rawText source) = .ok new) ∧
      (∀ key ∉ keys, raw[key]? = s.raw[key]?) ∧
      ∀ key result, computed[key]? = some result ↔
        s.computed[key]? = some result ∧ ¬∃ written ∈ keys, s.graph.Reaches written key := by
  obtain ⟨-, hall, hover, hfill⟩ := fill_of_ok h
  have hraw := fun key => writeAll_raw_of_ok (k := key) hall
  generalize (writeAll source (s.rawText source) s keys).2.raw = raw at hfill hraw
  refine ⟨raw, _, hfill, ?_, ?_, ?_⟩
  · intro key hkey
    obtain ⟨new, hnew⟩ := exists_filledText hall hkey
    refine ⟨new, ?_, hnew⟩
    rw [hraw, if_pos hkey, hnew]
    rfl
  · intro key hkey
    rw [hraw, if_neg hkey]
  · intro key result
    rw [drop_computed_iff, mem_cascadeAll hover]

end Sheet

namespace Session
open Sheet CellKey

variable {s : Session Sheet} {source target : CellKey} {keys : List CellKey}

/-- A fill that succeeds leaves all but the store as it is, and queues what it wrote if that is a formula. -/
theorem perform_fill_of_ok (h : (s.store.fill source target).1 = .ok keys) :
    (s.perform (.fill source target)).2 =
      let after := { s with store := (s.store.fill source target).2 }
      if keys ≠ [] ∧ (after.store.rawText source).isFormula then after.enqueue keys else after := by
  simp only [perform, answering, Session.fill, cellStore_fill]
  cases hstore : s.store.fill source target with
  | mk outcome store =>
    rw [hstore] at h
    obtain rfl : outcome = .ok keys := h
    dsimp only
    split
    · rename_i hqueued
      exact (if_pos hqueued).symm
    · rename_i hplain
      exact (if_neg hplain).symm

/-- A fill writes exactly the rectangle. If it succeeds, with the guard or without, it answers with the
cells of the rectangle but the one it starts from, each once, row by row. Afterwards each of them has the
text of the first cell, with the references of a formula shifted by the distance between the two; all other
cells have the texts that they had, and the graph is the same. Of the results exactly those are dropped that
a written cell reaches through its readers. One batch is queued, and scheduled in an event loop, if a formula
was copied into at least one cell. -/
theorem fill_writes_rectangle {s : Session Sheet} {source target : CellKey}
    (h : ∀ fault, (s.perform (.fill source target)).1 ≠ .error fault) :
    let text := s.store.rawText source
    let queued := text.isFormula ∧ 1 < (rectangle source target).length
    ∃ keys raw computed,
      s.perform (.fill source target) = (.ok (.keys keys),
        { s with
          store := { s.store with raw := raw, computed := computed }
          queue := if queued then s.queue ++ [keys] else s.queue
          callbacks := if queued then s.callbacks.map (· + 1) else s.callbacks }) ∧
      (∀ key, key ∈ keys ↔ key ≠ source ∧
        min source.row target.row ≤ key.row ∧ key.row ≤ max source.row target.row ∧
        min source.col target.col ≤ key.col ∧ key.col ≤ max source.col target.col) ∧
      keys.Nodup ∧ keys.Pairwise Before ∧
      (∀ key ∈ keys, ∃ new, raw[key]? = some new ∧
        (if text.isFormula then RefShift.shift text (key.row - source.row) (key.col - source.col)
          else .ok text) = .ok new) ∧
      (∀ key ∉ keys, raw[key]? = s.store.raw[key]?) ∧
      ∀ key result, computed[key]? = some result ↔
        s.store.computed[key]? = some result ∧ ¬∃ written ∈ keys, s.store.graph.Reaches written key := by
  intro text queued
  obtain ⟨keys, hkeys⟩ : ∃ keys, (s.store.fill source target).1 = .ok keys := by
    cases hfill : (s.store.fill source target).1 with
    | ok keys => exact ⟨keys, rfl⟩
    | error fault => exact absurd (perform_fill_error_iff.mpr hfill) (h fault)
  obtain ⟨rfl, -, -, -⟩ := fill_of_ok hkeys
  obtain ⟨raw, computed, hstore, hwritten, hkept, hresults⟩ := exists_fill hkeys
  have hpairwise : (filled source target).Pairwise Before := (pairwise_rectangle source target).filter _
  refine ⟨filled source target, raw, computed, ?_, ?_, hpairwise.imp Before.ne, hpairwise, hwritten, hkept,
    hresults⟩
  · have htext : (s.store.fill source target).2.rawText source = text := by
      rw [hstore, rawText, hkept source (by simp [mem_filled])]
      rfl
    apply Prod.ext
    · rw [perform_fill_answer, hkeys]
      rfl
    · rw [perform_fill_of_ok hkeys]
      have hqueued : filled source target ≠ [] ∧ text.isFormula ↔ queued := by
        rw [filled_ne_nil_iff, And.comm]
      simp only [htext, hqueued]
      by_cases hq : queued
      · simp only [if_pos hq, hstore]
        rfl
      · simp only [if_neg hq, hstore]
  · intro key
    rw [mem_filled, mem_rectangle, mem_span, mem_span]
    tauto

/-- A formula in the lower right corner, and a result that a cell above it was read for. -/
def cornerMoves : List Move :=
  [.perform (.edit ⟨1, 0⟩ ['5']), .perform (.edit ⟨1, 2⟩ ['=', 'A', '1']), .perform (.read ⟨1, 2⟩),
    .perform (.edit ⟨2, 1⟩ ['=', 'C', '2'])]

theorem fill_writes_rectangle_backwards :
    let s := (start (Sheet.empty 3 true)).after cornerMoves
    s.store.cached ⟨1, 2⟩ = some ['5'] ∧
      (∀ fault, (s.perform (.fill ⟨2, 1⟩ ⟨1, 0⟩)).1 ≠ .error fault) ∧
      ∃ keys after, s.perform (.fill ⟨2, 1⟩ ⟨1, 0⟩) = (.ok (.keys keys), after) ∧
        keys.Pairwise Before ∧ (⟨1, 0⟩ : CellKey) ∈ keys ∧ (⟨2, 1⟩ : CellKey) ∉ keys ∧
        after.store.raw[(⟨1, 0⟩ : CellKey)]? = some ['=', 'B', '1'] ∧
        after.store.raw[(⟨2, 1⟩ : CellKey)]? = some ['=', 'C', '2'] ∧
        after.store.computed[(⟨1, 2⟩ : CellKey)]? = none ∧ after.queue = [keys] := by
  intro s
  have hok : (s.perform (.fill ⟨2, 1⟩ ⟨1, 0⟩)).1.isOk := by decide +kernel
  have hfault : ∀ fault, (s.perform (.fill ⟨2, 1⟩ ⟨1, 0⟩)).1 ≠ .error fault := by
    intro fault herror
    simp [herror, Except.isOk, Except.toBool] at hok
  obtain ⟨keys, raw, computed, hperform, hkeys, -, hpairwise, hwritten, hkept, hresults⟩ :=
    fill_writes_rectangle hfault
  have hfirst : (⟨1, 0⟩ : CellKey) ∈ keys := (hkeys ⟨1, 0⟩).mpr (by decide)
  have hsource : (⟨2, 1⟩ : CellKey) ∉ keys := fun h => ((hkeys ⟨2, 1⟩).mp h).1 rfl
  have hreached : s.store.graph.Reaches ⟨1, 0⟩ ⟨1, 2⟩ :=
    Relation.ReflTransGen.single (by decide +kernel)
  refine ⟨by decide +kernel, hfault, keys, _, hperform, hpairwise, hfirst, hsource, ?_, ?_, ?_, ?_⟩
  · obtain ⟨new, hnew, hshift⟩ := hwritten ⟨1, 0⟩ hfirst
    have htext : s.store.rawText ⟨2, 1⟩ = ['=', 'C', '2'] := by decide +kernel
    have hmoved : RefShift.shift ['=', 'C', '2'] (1 - 2) (0 - 1) = .ok ['=', 'B', '1'] := by
      decide +kernel
    rw [htext, if_pos (by rfl), hmoved] at hshift
    rwa [← Except.ok.inj hshift] at hnew
  · exact (hkept ⟨2, 1⟩ hsource).trans (by decide +kernel)
  · apply Option.eq_none_iff_forall_ne_some.mpr
    intro result hresult
    exact ((hresults ⟨1, 2⟩ result).mp hresult).2 ⟨⟨1, 0⟩, hfirst, hreached⟩
  · have hqueued : (s.store.rawText ⟨2, 1⟩).isFormula ∧
        1 < (rectangle ⟨2, 1⟩ ⟨1, 0⟩).length := by decide +kernel
    have hqueue : s.queue = [] := by decide +kernel
    simp only [if_pos hqueued, hqueue, List.nil_append]

end Session

end FormulaGrid
