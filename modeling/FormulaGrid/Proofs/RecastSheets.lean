import FormulaGrid.Proofs.CompletedWrites
import FormulaGrid.Proofs.StoreAbstraction

/-!
# Other settings for cascades

Whether cascades are guarded and how deep they may go matters only to those that overflow. Where none does,
neither before nor after the settings are changed, all operations of a sheet answer alike and come out alike.
-/
namespace FormulaGrid

namespace Sheet
open CellStore DependencyGraph

variable {g : Bool → Bool} {l : Nat → Nat} {s : Sheet} {key source target : CellKey}
  {keys others : List CellKey} {text : Text}

/-- The sheet with other settings for its cascades. -/
def recast (g : Bool → Bool) (l : Nat → Nat) (s : Sheet) : Sheet :=
  { s with guarded := g s.guarded, depthLimit := l s.depthLimit }

/-- No cascade overflows for the change of the settings. -/
def Spares (g : Bool → Bool) (l : Nat → Nat) (s : Sheet) : Prop :=
  ∀ keys, (s.cascadeAll keys).overflow = false → ((s.recast g l).cascadeAll keys).overflow = false

theorem drop_congr (h : ∀ k, k ∈ keys ↔ k ∈ others) : s.drop keys = s.drop others := by
  have hcomputed : (s.drop keys).computed = (s.drop others).computed := by
    apply Std.ExtTreeMap.ext_getElem?
    intro k
    simp only [drop_computed, h k]
  calc s.drop keys = { s with computed := (s.drop keys).computed } := rfl
    _ = { s with computed := (s.drop others).computed } := by rw [hcomputed]

/-- Dropping what a cascade passes comes to the same, on any sheet. -/
theorem Spares.drop (hs : s.Spares g l) (s' : Sheet) (hover : (s.cascadeAll keys).overflow = false) :
    verdict ((s.recast g l).cascadeAll keys) = verdict (s.cascadeAll keys) ∧
      (s'.recast g l).drop ((s.recast g l).cascadeAll keys).cells =
        (s'.drop (s.cascadeAll keys).cells).recast g l := by
  have hrecast := hs keys hover
  constructor
  · rw [verdict_of_not_overflow hover, verdict_of_not_overflow hrecast]
  · exact drop_congr (s := s'.recast g l)
      fun k => (mem_cascadeAll hrecast).trans (mem_cascadeAll hover).symm

theorem read_recast (g : Bool → Bool) (l : Nat → Nat) (s : Sheet) (key : CellKey) :
    (s.recast g l).read key = abstracted (recast g l) (s.read key) := by
  have hcell : (s.recast g l).evaluateCell key = abstracted (recast g l) (s.evaluateCell key) := by
    have htext : (s.recast g l).rawText = s.rawText := rfl
    unfold evaluateCell
    rw [htext]
    split
    · rfl
    · split <;> rfl
  have hcached : (s.recast g l).cached key = s.cached key := rfl
  unfold read
  rw [hcached]
  split
  · exact hcell
  · exact hcell
  · rfl

theorem Spares.invalidate (hs : s.Spares g l) (h : (s.invalidate key).1 ≠ .error .circular) :
    (s.recast g l).invalidate key = abstracted (recast g l) (s.invalidate key) := by
  rw [invalidate_eq] at h
  obtain ⟨hverdict, hdrop⟩ := hs.drop s (not_overflow_of_verdict h)
  rw [invalidate_eq, invalidate_eq, hverdict, hdrop]
  rfl

theorem Spares.edit (hs : s.Spares g l) (h : (s.edit key text).1 ≠ .error .circular) :
    (s.recast g l).edit key text = abstracted (recast g l) (s.edit key text) := by
  by_cases hcol : s.hasColumn key.col
  · rw [edit_of_hasColumn hcol] at h
    obtain ⟨hverdict, hdrop⟩ := hs.drop (s.stored key text) (not_overflow_of_verdict h)
    have hrecast := edit_of_hasColumn (s := s.recast g l) hcol text
    rw [hrecast, edit_of_hasColumn hcol, hverdict, abstracted, ← hdrop]
    rfl
  · have hrecast := edit_of_not_hasColumn (s := s.recast g l) hcol text
    rw [hrecast, edit_of_not_hasColumn hcol]
    rfl

theorem writeAll_recast (source : CellKey) (text : Text) (keys : List CellKey) (s : Sheet) :
    writeAll source text (s.recast g l) keys = abstracted (recast g l) (writeAll source text s keys) := by
  induction keys generalizing s with
  | nil => rfl
  | cons key keys ih =>
    simp only [writeAll]
    cases filledText source key text with
    | error fault => rfl
    | ok filled => exact ih { s with raw := s.raw.insert key filled }

theorem Spares.fillCells (hs : s.Spares g l) (h : (s.fillCells source target).1 ≠ .error .circular) :
    (s.recast g l).fillCells source target = abstracted (recast g l) (s.fillCells source target) := by
  have htext : (s.recast g l).rawText source = s.rawText source := rfl
  have hwritten := writeAll_recast (g := g) (l := l) source (s.rawText source) (filled source target) s
  have hsame : (writeAll source ((s.recast g l).rawText source) (s.recast g l) (filled source target)).1 =
      (writeAll source (s.rawText source) s (filled source target)).1 := by
    rw [htext, hwritten]
    rfl
  rcases writeAll_outcome source (s.rawText source) (filled source target) s with hall | hall
  · rw [fillCells_of_ok hall] at h ⊢
    obtain ⟨hverdict, hdrop⟩ :=
      hs.drop (writeAll source (s.rawText source) s (filled source target)).2 (not_overflow_of_fill h)
    rw [fillCells_of_ok (hsame.trans hall), htext, hwritten, hverdict]
    exact Prod.ext rfl hdrop
  · rw [fillCells_of_error hall, fillCells_of_error (hsame.trans hall), htext, hwritten]
    rfl

theorem Spares.fill (hs : s.Spares g l) (h : (s.fill source target).1 ≠ .error .circular) :
    (s.recast g l).fill source target = abstracted (recast g l) (s.fill source target) := by
  have hcolumn : ∀ col, (s.recast g l).hasColumn col = s.hasColumn col := fun _ => rfl
  unfold Sheet.fill at h ⊢
  simp only [hcolumn]
  split
  · rfl
  split
  · rfl
  · rename_i hsource htarget
    rw [if_neg hsource, if_neg htarget] at h
    exact hs.fillCells h

/-- Where no command overflows, before the change of the settings or after it, the operations of a sheet
stay as they are. -/
theorem recast_abstraction {condition : Sheet → Command → Prop} {invariant : Sheet → Prop}
    (hkeeps : Keeps condition invariant)
    (h : ∀ s command, invariant s → condition s command → s.Spares g l ∧ ¬command.overflows s) :
    Abstraction condition invariant (recast g l) where
  toKeeps := hkeeps
  columns_map _ := rfl
  rawText_map _ _ := rfl
  read_map {s} key _ := s.read_recast g l key
  edit_map {s} _ _ hi hc := (h s _ hi hc).1.edit (mt isCircular_iff.mpr (h s _ hi hc).2)
  invalidate_map {s} _ hi hc := (h s _ hi hc).1.invalidate (mt isCircular_iff.mpr (h s _ hi hc).2)
  fill_map {s} _ _ hi hc := (h s _ hi hc).1.fill (mt isCircular_iff.mpr (h s _ hi hc).2)
  clear_map _ := rfl

end Sheet

end FormulaGrid
