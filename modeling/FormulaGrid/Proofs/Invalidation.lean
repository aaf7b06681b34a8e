import FormulaGrid.Command
import FormulaGrid.Proofs.ExactResults
import FormulaGrid.Proofs.ShiftedText

/-!
# Invalidation

What a sheet keeps when cells are written. An invalidation of several cells drops the cells of one
cascade that starts from each of them in turn, as far as that gets.
-/
namespace FormulaGrid

namespace Sheet
open DependencyGraph

variable {s s' : Sheet} {key k source target : CellKey} {keys : List CellKey} {text : Text}

theorem getElem?_foldl_erase (computed : CellMap Text) (keys : List CellKey) (k : CellKey) :
    (keys.foldl (fun computed key => computed.erase key) computed)[k]? =
      if k ∈ keys then none else computed[k]? := by
  induction keys generalizing computed with
  | nil => simp
  | cons key keys ih =>
    rw [List.foldl_cons, ih]
    by_cases hk : k = key
    · simp [hk]
    · simp [Std.ExtTreeMap.getElem?_erase, hk, Ne.symm hk]

theorem drop_computed (s : Sheet) (keys : List CellKey) (k : CellKey) :
    (s.drop keys).computed[k]? = if k ∈ keys then none else s.computed[k]? :=
  getElem?_foldl_erase s.computed keys k

theorem drop_computed_iff :
    (s.drop keys).computed[k]? = some text ↔ s.computed[k]? = some text ∧ k ∉ keys := by
  rw [drop_computed]
  split <;> simp_all

theorem drop_append (s : Sheet) (keys others : List CellKey) :
    s.drop (keys ++ others) = (s.drop keys).drop others := by
  simp [drop, List.foldl_append]

/-- The cascade that starts from several cells, one after the other. -/
def cascadeAll (s : Sheet) (keys : List CellKey) : Cascade :=
  followAll (s.graph.cascade s.guarded s.depthLimit) keys

/-- How an invalidation ends. -/
def verdict (cascade : Cascade) : Except Fault Unit :=
  if cascade.overflow then .error .circular else .ok ()

theorem verdict_of_overflow {cascade : Cascade} (h : cascade.overflow) :
    verdict cascade = .error .circular := by
  rw [verdict, if_pos h]

theorem verdict_of_not_overflow {cascade : Cascade} (h : cascade.overflow = false) :
    verdict cascade = .ok () := by
  rw [verdict, h, if_neg Bool.false_ne_true]

theorem not_overflow_of_verdict {cascade : Cascade} (h : verdict cascade ≠ .error .circular) :
    cascade.overflow = false := by
  rw [Bool.eq_false_iff]
  exact fun hover => h (verdict_of_overflow hover)

/-- Whatever a cascade comes to, one of the cells that it starts from reaches it. -/
theorem reaches_of_mem_cascadeAll (h : k ∈ (s.cascadeAll keys).cells) :
    ∃ key ∈ keys, s.graph.Reaches key k :=
  reaches_of_mem_followAll (fun _ _ => reaches_of_mem_cascade) h

/-- A cascade that does not overflow comes to all that is reached. -/
theorem mem_cascadeAll (h : (s.cascadeAll keys).overflow = false) :
    k ∈ (s.cascadeAll keys).cells ↔ ∃ key ∈ keys, s.graph.Reaches key k := by
  refine (mem_followAll_of_not_overflow h).trans (exists_congr fun key => and_congr_right fun hkey => ?_)
  exact mem_cascade_iff (followAll_not_overflow.mp h key hkey)

theorem invalidate_eq (s : Sheet) (key : CellKey) :
    s.invalidate key = (verdict (s.cascadeAll [key]), s.drop (s.cascadeAll [key]).cells) := by
  rw [cascadeAll, followAll_singleton]
  rfl

theorem invalidateAll_eq (s : Sheet) (keys : List CellKey) :
    s.invalidateAll keys = (verdict (s.cascadeAll keys), s.drop (s.cascadeAll keys).cells) := by
  induction keys generalizing s with
  | nil => rfl
  | cons key keys ih =>
    have hstart : (s.drop (s.graph.cascade s.guarded s.depthLimit key).cells).cascadeAll keys =
        s.cascadeAll keys := rfl
    simp only [invalidateAll, invalidate]
    by_cases h : (s.graph.cascade s.guarded s.depthLimit key).overflow
    · simp [h, cascadeAll, followAll, verdict]
    · have hall : s.cascadeAll (key :: keys) =
          ⟨(s.graph.cascade s.guarded s.depthLimit key).cells ++ (s.cascadeAll keys).cells,
            (s.cascadeAll keys).overflow⟩ := by
        simp [cascadeAll, followAll, h]
      simp [h, ih, hstart, hall, verdict, drop_append]

theorem wrote_drop (s : Sheet) (keys : List CellKey) : Wrote [] s (s.drop keys) where
  settings := rfl
  graph := rfl
  rawText _ _ := rfl
  kept := by
    intro k text h
    rw [drop_computed] at h
    split at h
    · cases h
    · exact h

/-- Writing and then dropping results is writing. -/
theorem Wrote.drop (h : Wrote keys s s') (dropped : List CellKey) :
    Wrote keys s (s'.drop dropped) where
  settings := h.settings
  graph := h.graph
  rawText := h.rawText
  kept hk := h.kept ((wrote_drop s' dropped).kept hk)

/-- The sheet with a new text in a cell, before the readers of the cell are invalidated. -/
def stored (s : Sheet) (key : CellKey) (text : Text) : Sheet :=
  { s with raw := s.raw.insert key text, computed := s.computed.erase key }

theorem rawText_insert_of_ne {raw : CellMap Text} (h : k ≠ key) :
    (raw.insert key text)[k]?.getD [] = raw[k]?.getD [] := by
  simp [Std.ExtTreeMap.getElem?_insert, Ne.symm h]

theorem stored_computed (s : Sheet) (key k : CellKey) (text : Text) :
    (s.stored key text).computed[k]? = if k = key then none else s.computed[k]? := by
  by_cases hk : k = key
  · simp [stored, hk]
  · simp [stored, Std.ExtTreeMap.getElem?_erase, hk, Ne.symm hk]

theorem wrote_stored (s : Sheet) (key : CellKey) (text : Text) :
    Wrote [key] s (s.stored key text) where
  settings := rfl
  graph := rfl
  rawText k hk := rawText_insert_of_ne (by simpa using hk)
  kept := by
    intro k t h
    rw [stored_computed] at h
    split at h
    · cases h
    · exact h

theorem edit_of_hasColumn (h : s.hasColumn key.col) (text : Text) :
    s.edit key text = (verdict (s.cascadeAll [key]),
      (s.stored key text).drop (s.cascadeAll [key]).cells) := by
  have hedit : s.edit key text = (s.stored key text).invalidate key := by
    rw [edit, if_pos h]
    rfl
  rw [hedit, invalidate_eq]
  rfl

theorem edit_rawText (h : s.hasColumn key.col) (text : Text) :
    (s.edit key text).2.rawText key = text := by
  have hraw : (s.edit key text).2.raw = s.raw.insert key text := by
    rw [edit_of_hasColumn h]
    rfl
  simp [rawText, hraw]

theorem edit_of_not_hasColumn (h : ¬s.hasColumn key.col) (text : Text) :
    s.edit key text = (.error (.columnOutOfRange key.col), s) := by
  rw [edit, if_neg h]

/-- The cells that a fill writes. -/
def filled (source target : CellKey) : List CellKey :=
  (CellKey.rectangle source target).filter (· ≠ source)

theorem wrote_writeAll (source : CellKey) (text : Text) (keys : List CellKey) (s : Sheet) :
    Wrote keys s (writeAll source text s keys).2 := by
  induction keys generalizing s with
  | nil => exact ⟨rfl, rfl, fun _ _ => rfl, id⟩
  | cons key keys ih =>
    simp only [writeAll]
    cases filledText source key text with
    | error fault => exact ⟨rfl, rfl, fun _ _ => rfl, id⟩
    | ok filledText =>
      have hrest := ih { s with raw := s.raw.insert key filledText }
      refine ⟨hrest.settings, hrest.graph, ?_, hrest.kept⟩
      intro k hk
      rw [List.mem_cons, not_or] at hk
      rw [hrest.rawText k hk.2]
      exact rawText_insert_of_ne hk.1

theorem filledText_fault {fault : Fault} (h : filledText source key text = .error fault) :
    fault = .numeralTooLong := by
  unfold filledText at h
  split at h
  · exact RefShift.shift_fault h
  · cases h

theorem writeAll_fault {fault : Fault} (h : (writeAll source text s keys).1 = .error fault) :
    fault = .numeralTooLong := by
  induction keys generalizing s with
  | nil => cases h
  | cons key keys ih =>
    simp only [writeAll] at h
    cases hfilled : filledText source key text with
    | error other =>
      rw [hfilled] at h
      obtain rfl := Except.error.inj h
      exact filledText_fault hfilled
    | ok filledText =>
      rw [hfilled] at h
      exact ih h

/-- Writing changes nothing but texts. -/
theorem writeAll_frame (source : CellKey) (text : Text) (keys : List CellKey) (s : Sheet) :
    (writeAll source text s keys).2 = { s with raw := (writeAll source text s keys).2.raw } := by
  induction keys generalizing s with
  | nil => rfl
  | cons key keys ih =>
    simp only [writeAll]
    cases filledText source key text with
    | error fault => rfl
    | ok filled => rw [ih]

theorem writeAll_outcome (source : CellKey) (text : Text) (keys : List CellKey) (s : Sheet) :
    (writeAll source text s keys).1 = .ok () ∨ (writeAll source text s keys).1 = .error .numeralTooLong := by
  cases h : (writeAll source text s keys).1 with
  | ok done => exact Or.inl rfl
  | error fault => exact Or.inr (congrArg _ (writeAll_fault h))

theorem verdict_fault {cascade : Cascade} {fault : Fault} (h : verdict cascade = .error fault) :
    fault = .circular := by
  unfold verdict at h
  split at h
  · exact (Except.error.inj h).symm
  · cases h

theorem fill_of_hasColumn (hsource : s.hasColumn source.col) (htarget : s.hasColumn target.col) :
    s.fill source target = s.fillCells source target := by simp [fill, hsource, htarget]

theorem fillCells_of_error {fault : Fault}
    (h : (writeAll source (s.rawText source) s (filled source target)).1 = .error fault) :
    s.fillCells source target =
      (.error fault, (writeAll source (s.rawText source) s (filled source target)).2) := by
  have hkeys : (CellKey.rectangle source target).filter (· ≠ source) = filled source target := rfl
  rw [fillCells, hkeys]
  cases hall : writeAll source (s.rawText source) s (filled source target) with
  | mk outcome s' =>
    rw [hall] at h
    obtain rfl : outcome = .error fault := h
    rfl

/-- A fill that has written all its cells drops the results that these reach. -/
theorem fillCells_of_ok
    (h : (writeAll source (s.rawText source) s (filled source target)).1 = .ok ()) :
    s.fillCells source target =
      ((verdict (s.cascadeAll (filled source target))).map fun _ => filled source target,
        (writeAll source (s.rawText source) s (filled source target)).2.drop
          (s.cascadeAll (filled source target)).cells) := by
  have hkeys : (CellKey.rectangle source target).filter (· ≠ source) = filled source target := rfl
  have hstart : (writeAll source (s.rawText source) s (filled source target)).2.cascadeAll
      (filled source target) = s.cascadeAll (filled source target) := by
    rw [writeAll_frame]
    rfl
  rw [fillCells, hkeys]
  cases hall : writeAll source (s.rawText source) s (filled source target) with
  | mk outcome s' =>
    rw [hall] at h hstart
    obtain rfl : outcome = .ok () := h
    simp only [invalidateAll_eq, hstart]
    cases verdict (s.cascadeAll (filled source target)) <;> rfl

/-- The cells that a command writes; one that is refused writes none. -/
def written (s : Sheet) : Command → List CellKey
  | .edit key _ => if s.hasColumn key.col then [key] else []
  | .fill source target =>
    if s.hasColumn source.col && s.hasColumn target.col then filled source target else []
  | _ => []

/-- A fill is refused, or tears at an integer that is too long, or writes all its cells and then
invalidates them. -/
theorem fill_cases (s : Sheet) (source target : CellKey) :
    (∃ col, s.written (.fill source target) = [] ∧
      s.forget.fill source target = (.error (.columnOutOfRange col), s.forget) ∧
      s.fill source target = (.error (.columnOutOfRange col), s)) ∨
    (∃ s', Wrote (s.written (.fill source target)) s s' ∧
      s.fill source target = (.error .numeralTooLong, s')) ∨
    ∃ keys raw, s.written (.fill source target) = keys ∧ Wrote keys s { s with raw := raw } ∧
      s.forget.fill source target = (.ok keys, { s.forget with raw := raw }) ∧
      s.fill source target = ((verdict (s.cascadeAll keys)).map fun _ => keys,
        { s with raw := raw }.drop (s.cascadeAll keys).cells) := by
  by_cases hsource : s.hasColumn source.col
  case neg =>
    refine Or.inl ⟨source.col, ?_, ?_, ?_⟩
    · simp [written, hsource]
    · simp [PlainSheet.fill, forget_hasColumn, hsource]
    · simp [fill, hsource]
  by_cases htarget : s.hasColumn target.col
  case neg =>
    refine Or.inl ⟨target.col, ?_, ?_, ?_⟩
    · simp [written, htarget]
    · simp [PlainSheet.fill, forget_hasColumn, hsource, htarget]
    · simp [fill, hsource, htarget]
  have hwritten : s.written (.fill source target) = filled source target := by
    simp [written, hsource, htarget]
  have hkeys : (CellKey.rectangle source target).filter (· ≠ source) = filled source target := rfl
  have hwrote := wrote_writeAll source (s.rawText source) (filled source target) s
  rw [hwritten, fill_of_hasColumn hsource htarget]
  rcases writeAll_outcome source (s.rawText source) (filled source target) s with hall | hall
  · have hframe := writeAll_frame source (s.rawText source) (filled source target) s
    obtain ⟨hplain, -⟩ :=
      (writeAll_copy source (s.rawText source) (filled source target) s).1 _ (Prod.ext hall rfl)
    refine Or.inr (Or.inr ⟨filled source target, _, rfl, by rwa [hframe] at hwrote, ?_, ?_⟩)
    · have hraw : s.forget.raw = s.raw := rfl
      simp only [PlainSheet.fill, forget_hasColumn, hsource, htarget, hkeys]
      simp [forget_rawText, hraw, hplain]
    · rw [fillCells_of_ok hall, ← hframe]
  · exact Or.inr (Or.inl ⟨_, hwrote, fillCells_of_error hall⟩)

theorem wrote_fill (s : Sheet) (source target : CellKey) :
    Wrote (s.written (.fill source target)) s (s.fill source target).2 := by
  rcases s.fill_cases source target with ⟨col, hwritten, _, hfill⟩ | ⟨s', hwrote, hfill⟩ |
    ⟨keys, raw, hwritten, hwrote, _, hfill⟩
  · rw [hfill]
    exact ⟨rfl, rfl, fun _ _ => rfl, id⟩
  · rw [hfill]
    exact hwrote
  · rw [hfill, hwritten]
    exact hwrote.drop _

theorem written_edit (h : s.hasColumn key.col) (text : Text) :
    s.written (.edit key text) = [key] := by
  simp [written, h]

theorem edit_settings (s : Sheet) (key : CellKey) (text : Text) :
    (s.edit key text).2.settings = s.settings := by
  unfold edit
  split <;> rfl

theorem fill_settings (s : Sheet) (source target : CellKey) :
    (s.fill source target).2.settings = s.settings := by
  rcases s.fill_cases source target with ⟨col, _, _, h⟩ | ⟨s', hwrote, h⟩ |
    ⟨keys, raw, _, _, _, h⟩
  · rw [h]
  · rw [h]
    exact hwrote.settings
  · rw [h]
    rfl

theorem edit_graph (s : Sheet) (key : CellKey) (text : Text) :
    (s.edit key text).2.graph = s.graph := by
  unfold edit
  split <;> rfl

theorem fill_graph (s : Sheet) (source target : CellKey) :
    (s.fill source target).2.graph = s.graph := by
  rcases s.fill_cases source target with ⟨col, _, _, h⟩ | ⟨s', hwrote, h⟩ |
    ⟨keys, raw, _, _, _, h⟩
  · rw [h]
  · rw [h]
    exact hwrote.graph
  · rw [h]
    rfl

end Sheet

end FormulaGrid
