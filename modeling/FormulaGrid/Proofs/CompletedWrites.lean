import FormulaGrid.Proofs.Invalidation
import FormulaGrid.Proofs.Moves

/-!
# Completed writes

A write whose cascade does not overflow has passed all that the written cells reach, their recorded readers
among it. So an operation that neither overflows nor tears keeps a sheet sound, and leaves the texts that a
plain sheet has after the same operation.
-/
namespace FormulaGrid.Sheet
open CellStore DependencyGraph Relation

variable {s s' : Sheet} {key k source target : CellKey} {keys : List CellKey} {text : Text}

/-- An empty sheet with the guard, whose cascades go down to a limit. -/
def guarding (columns : Int) (limit : Nat) : Sheet :=
  { empty columns true with depthLimit := limit }

theorem sound_guarding (columns : Int) (limit : Nat) : (guarding columns limit).Sound :=
  sound_of_none inStep_empty fun _ => Std.ExtTreeMap.getElem?_empty

/-- After the cascade of the written cells no result of theirs is left, nor of a reader. -/
theorem Wrote.overwrote (h : Wrote keys s s') (hover : (s.cascadeAll keys).overflow = false) :
    Overwrote keys s (s'.drop (s.cascadeAll keys).cells) where
  toWrote := h.drop _
  cleared := by
    intro k text hk
    have hcells : k ∉ (s.cascadeAll keys).cells := (drop_computed_iff.mp hk).2
    rw [mem_cascadeAll hover] at hcells
    constructor
    · intro hwritten
      exact hcells ⟨k, hwritten, ReflTransGen.refl⟩
    · intro cell hcell hreader
      exact hcells ⟨cell, hcell, ReflTransGen.single hreader⟩

/-- A sheet does without its results and dependencies what a plain sheet does. -/
def Follows {α : Type} (plain : Except Fault α × PlainSheet) (result : Except Fault α × Sheet) :
    Prop :=
  plain = (result.1, result.2.forget)

theorem read_follows (hs : s.Sound) (key : CellKey) :
    Follows (CellStore.read s.forget key) (s.read key) := by
  have hforget : (s.read key).2.forget = s.forget := by
    have hcolumns : (s.read key).2.columns = s.columns := congrArg Prod.fst (s.read_settings key)
    simp [forget, hcolumns, read_raw]
  rw [Follows, hs.read_shown key, hforget]
  rfl

theorem invalidate_follows (h : (s.invalidate key).1 ≠ .error .circular) :
    Follows (CellStore.invalidate s.forget key) (s.invalidate key) := by
  rw [invalidate_eq] at h ⊢
  rw [Follows, verdict_of_not_overflow (not_overflow_of_verdict h)]
  rfl

theorem edit_follows (h : (s.edit key text).1 ≠ .error .circular) :
    Follows (CellStore.edit s.forget key text) (s.edit key text) := by
  by_cases hcol : s.hasColumn key.col
  · have hplain : s.forget.edit key text = (.ok (), (s.stored key text).forget) := by
      rw [PlainSheet.edit, forget_hasColumn, if_pos hcol]
      rfl
    rw [edit_of_hasColumn hcol] at h ⊢
    rw [Follows, verdict_of_not_overflow (not_overflow_of_verdict h)]
    exact hplain
  · have hplain : s.forget.edit key text = (.error (.columnOutOfRange key.col), s.forget) := by
      rw [PlainSheet.edit, forget_hasColumn, if_neg hcol]
    rw [Follows, edit_of_not_hasColumn hcol]
    exact hplain

/-- A fill that writes all its cells overflows when its cascade does. -/
theorem not_overflow_of_fill {cascade : Cascade}
    (h : ((verdict cascade).map fun _ => keys) ≠ .error .circular) : cascade.overflow = false := by
  rw [Bool.eq_false_iff]
  intro hover
  exact h (by rw [verdict_of_overflow hover]; rfl)

theorem fill_follows (htorn : (s.fill source target).1 ≠ .error .numeralTooLong)
    (h : (s.fill source target).1 ≠ .error .circular) :
    Follows (CellStore.fill s.forget source target) (s.fill source target) := by
  rcases s.fill_cases source target with ⟨col, _, hplain, hfill⟩ | ⟨s', _, hfill⟩ |
    ⟨keys, raw, _, _, hplain, hfill⟩
  · rw [Follows, hfill]
    exact hplain
  · exact absurd (congrArg Prod.fst hfill) htorn
  · rw [hfill] at h
    rw [Follows, hfill, verdict_of_not_overflow (not_overflow_of_fill h)]
    exact hplain

/-- Where no cascade overflows, no command does. -/
theorem not_overflows (h : ∀ keys, (s.cascadeAll keys).overflow = false) (command : Command) :
    ¬command.overflows s := by
  intro hover
  cases command with
  | edit key text =>
    have hcircular : (s.edit key text).1 = .error .circular := isCircular_iff.mp hover
    by_cases hcol : s.hasColumn key.col
    · rw [edit_of_hasColumn hcol, verdict_of_not_overflow (h [key])] at hcircular
      cases hcircular
    · rw [edit_of_not_hasColumn hcol] at hcircular
      cases hcircular
  | invalidate key =>
    have hcircular : (s.invalidate key).1 = .error .circular := isCircular_iff.mp hover
    rw [invalidate_eq, verdict_of_not_overflow (h [key])] at hcircular
    cases hcircular
  | fill source target =>
    have hcircular : (s.fill source target).1 = .error .circular := isCircular_iff.mp hover
    rcases s.fill_cases source target with ⟨col, _, _, hfill⟩ | ⟨s', _, hfill⟩ |
      ⟨keys, raw, _, _, _, hfill⟩
    · rw [hfill] at hcircular
      cases hcircular
    · rw [hfill] at hcircular
      cases hcircular
    · rw [hfill, verdict_of_not_overflow (h keys)] at hcircular
      cases hcircular
  | _ => cases hover

theorem Sound.invalidate (hs : s.Sound) (key : CellKey) : (s.invalidate key).2.Sound := by
  have hwrote := wrote_drop s (s.cascadeAll [key]).cells
  rw [invalidate_eq]
  exact hs.overwrite ⟨hwrote, by simp⟩

theorem Sound.edit (hs : s.Sound) (h : (s.edit key text).1 ≠ .error .circular) :
    (s.edit key text).2.Sound := by
  by_cases hcol : s.hasColumn key.col
  · rw [edit_of_hasColumn hcol] at h ⊢
    exact hs.overwrite ((wrote_stored s key text).overwrote (not_overflow_of_verdict h))
  · rw [edit_of_not_hasColumn hcol]
    exact hs

theorem Sound.fill (hs : s.Sound) (htorn : (s.fill source target).1 ≠ .error .numeralTooLong)
    (h : (s.fill source target).1 ≠ .error .circular) : (s.fill source target).2.Sound := by
  rcases s.fill_cases source target with ⟨col, _, _, hfill⟩ | ⟨s', _, hfill⟩ |
    ⟨keys, raw, _, hwrote, _, hfill⟩
  · rw [hfill]
    exact hs
  · exact absurd (congrArg Prod.fst hfill) htorn
  · rw [hfill] at h ⊢
    exact hs.overwrite (hwrote.overwrote (not_overflow_of_fill h))

theorem read_inStep (h : s.graph.InStep) (key : CellKey) : (s.read key).2.graph.InStep := by
  rcases s.read_cases key with hsame | ⟨_, e, _, _, hmemo⟩
  · rw [hsame]
    exact h
  · rw [hmemo]
    exact h.record key e.dependencies

theorem inStep_kept {condition : Sheet → Command → Prop} :
    Keeps condition fun s => s.graph.InStep where
  read key h := read_inStep h key
  edit {s} key text h _ := (s.edit_graph key text).symm ▸ h
  invalidate _ h := h
  fill {s} source target h _ := (s.fill_graph source target).symm ▸ h
  clear _ := inStep_empty

/-- Whatever is true of the settings stays true. -/
theorem keeps_of_settings {condition : Sheet → Command → Prop} (p : Int × Bool × Nat → Prop) :
    Keeps condition fun s => p s.settings where
  read {s} key h := (s.read_settings key).symm ▸ h
  edit {s} key text h _ := (s.edit_settings key text).symm ▸ h
  invalidate _ h := h
  fill {s} source target h _ := (s.fill_settings source target).symm ▸ h
  clear h := h

theorem settings_kept {condition : Sheet → Command → Prop} (settings : Int × Bool × Nat) :
    Keeps condition fun s => s.settings = settings :=
  keeps_of_settings (· = settings)

end FormulaGrid.Sheet
