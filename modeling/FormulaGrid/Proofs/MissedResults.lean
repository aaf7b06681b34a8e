import FormulaGrid.Proofs.CompletedWrites
import Mathlib.Data.List.Induction

/-!
# Missed results

A write drops the results that its cascade comes to. One that the write concerns and the cascade does not
come to is missed, which only happens when the cascade overflows. What a command leaves of the results is
exact otherwise, unless it was not exact before; so a result that is not exact has been missed at some moment
of the run, and has been there ever since.
-/
namespace FormulaGrid

/-- Edits and fills. -/
def Command.writes : Command → Bool
  | .edit _ _ => true
  | .fill _ _ => true
  | _ => false

namespace Sheet
open CellStore DependencyGraph Relation

variable {s s' : Sheet} {key k : CellKey} {keys : List CellKey} {text : Text} {command : Command}

/-- A write misses a result if the cell is written, or recorded to read a written one, and the cascade
overflows before it comes to the cell. -/
structure Misses (s : Sheet) (command : Command) (k : CellKey) : Prop where
  writes : command.writes
  concerned : k ∈ s.written command ∨ ∃ cell ∈ s.written command, k ∈ s.graph.readers cell
  unpassed : k ∉ (s.cascadeAll (s.written command)).cells
  overflow : (s.cascadeAll (s.written command)).overflow

theorem misses_of_unpassed (hw : command.writes)
    (hk : k ∈ s.written command ∨ ∃ cell ∈ s.written command, k ∈ s.graph.readers cell)
    (hu : k ∉ (s.cascadeAll (s.written command)).cells) : s.Misses command k := by
  refine ⟨hw, hk, hu, ?_⟩
  apply Decidable.byContradiction
  intro hover
  rw [mem_cascadeAll (by simpa using hover)] at hu
  rcases hk with hk | ⟨cell, hcell, hk⟩
  · exact hu ⟨k, hk, ReflTransGen.refl⟩
  · exact hu ⟨cell, hcell, ReflTransGen.single hk⟩

/-- A write that does not tear writes its cells, which takes no result but that of an edited cell, and then
drops what its cascade comes to. -/
theorem exists_drop_of_writes (hw : command.writes) (htorn : ¬command.tears s) :
    ∃ s', Wrote (s.written command) s s' ∧
      (∀ {k : CellKey} {text}, s.computed[k]? = some text →
        s'.computed[k]? = some text ∨ s.written command = [k]) ∧
      command.operate s = s'.drop (s.cascadeAll (s.written command)).cells := by
  have hrefused (hsame : command.operate s = s) (hwritten : s.written command = []) :
      ∃ s', Wrote (s.written command) s s' ∧
        (∀ {k : CellKey} {text}, s.computed[k]? = some text →
          s'.computed[k]? = some text ∨ s.written command = [k]) ∧
        command.operate s = s'.drop (s.cascadeAll (s.written command)).cells := by
    rw [hsame, hwritten]
    exact ⟨s, ⟨rfl, rfl, fun _ _ => rfl, id⟩, Or.inl, rfl⟩
  cases command with
  | edit key new =>
    by_cases hcol : s.hasColumn key.col
    · refine ⟨s.stored key new, ?_⟩
      rw [written_edit hcol]
      refine ⟨wrote_stored s key new, ?_, congrArg Prod.snd (edit_of_hasColumn hcol new)⟩
      intro k text hk
      by_cases hkey : k = key
      · exact Or.inr (by rw [hkey])
      · exact Or.inl (by rwa [stored_computed, if_neg hkey])
    · exact hrefused (congrArg Prod.snd (edit_of_not_hasColumn hcol new)) (by simp [written, hcol])
  | fill source target =>
    rcases s.fill_cases source target with ⟨col, hwritten, _, h⟩ | ⟨s', _, h⟩ |
      ⟨keys, raw, hwritten, hwrote, _, h⟩
    · exact hrefused (congrArg Prod.snd h) hwritten
    · exact absurd (Command.tears_fill.mpr (congrArg Prod.fst h)) htorn
    · rw [hwritten]
      exact ⟨{ s with raw := raw }, hwrote, Or.inl, congrArg Prod.snd h⟩
  | _ => cases hw

/-- After readings a result is exact or the one that was there, not exact, before. -/
structure Rereads (s s' : Sheet) : Prop where
  raw : s'.raw = s.raw
  results : ∀ {k : CellKey} {text}, s'.computed[k]? = some text →
    s'.Exact k text ∨ (s.computed[k]? = some text ∧ ¬s.Exact k text)

theorem Rereads.refl (s : Sheet) : Rereads s s where
  raw := rfl
  results {k text} hk := (Classical.em (s.Exact k text)).imp_right fun hexact => ⟨hk, hexact⟩

theorem Rereads.read (h : Rereads s s') (key : CellKey) : Rereads s (s'.read key).2 where
  raw := (s'.read_raw key).trans h.raw
  results := by
    intro k text hk
    rcases s'.read_cases key with hsame | ⟨formula, e, hp, he, hmemo⟩
    · rw [hsame] at hk ⊢
      exact h.results hk
    · rw [hmemo] at hk ⊢
      rw [memoize_computed] at hk
      by_cases hne : k = key
      · rw [if_pos hne] at hk
        obtain rfl := Option.some.inj hk
        rw [hne]
        exact Or.inl (exact_memoize hp he)
      · rw [if_neg hne] at hk
        exact (h.results hk).imp_left fun hexact => hexact.memoize hne e

/-- What a command leaves of the results is exact, or was not exact before, or is missed. -/
theorem operate_exact_or_missed (hstep : s.graph.InStep) (htorn : ¬command.tears s)
    (hk : (command.operate s).computed[k]? = some text) :
    (command.operate s).Exact k text ∨
      (s.computed[k]? = some text ∧ (¬s.Exact k text ∨ s.Misses command k)) := by
  have hrereads : Rereads s (command.operate s) → (command.operate s).Exact k text ∨
      (s.computed[k]? = some text ∧ (¬s.Exact k text ∨ s.Misses command k)) :=
    fun h => (h.results hk).imp_right fun hold => ⟨hold.1, Or.inl hold.2⟩
  have hwrites : command.writes → (command.operate s).Exact k text ∨
      (s.computed[k]? = some text ∧ (¬s.Exact k text ∨ s.Misses command k)) := by
    intro hw
    obtain ⟨s', hwrote, -, hafter⟩ := exists_drop_of_writes hw htorn
    rw [hafter] at hk ⊢
    obtain ⟨hthere, hunpassed⟩ := drop_computed_iff.mp hk
    have hold : s.computed[k]? = some text := hwrote.kept hthere
    by_cases hexact : s.Exact k text
    · by_cases hconcerned :
          k ∈ s.written command ∨ ∃ cell ∈ s.written command, k ∈ s.graph.readers cell
      · exact Or.inr ⟨hold, Or.inr (misses_of_unpassed hw hconcerned hunpassed)⟩
      · rw [not_or] at hconcerned
        refine Or.inl (hexact.write hstep (hwrote.drop _) hconcerned.1 ?_)
        intro cell hcell hreader
        exact hconcerned.2 ⟨cell, hcell, hreader⟩
    · exact Or.inr ⟨hold, Or.inl hexact⟩
  cases command with
  | edit key new => exact hwrites rfl
  | fill source target => exact hwrites rfl
  | read key => exact hrereads ((Rereads.refl s).read key)
  | render rows =>
    exact hrereads (renderRows_invariant (fun key h => h.read key) rows (Rereads.refl s))
  | invalidate key =>
    have hwrote := wrote_drop s (s.cascadeAll [key]).cells
    have hafter : (Command.invalidate key).operate s = s.drop (s.cascadeAll [key]).cells :=
      congrArg Prod.snd (s.invalidate_eq key)
    rw [hafter] at hk ⊢
    by_cases hexact : s.Exact k text
    · exact Or.inl (hexact.write hstep hwrote (by simp) (by simp))
    · exact Or.inr ⟨hwrote.kept hk, Or.inl hexact⟩
  | clear =>
    have hnone : ((Command.clear).operate s).computed[k]? = none :=
      Std.ExtTreeMap.getElem?_empty
    rw [hnone] at hk
    cases hk
  | _ => exact hrereads (Rereads.refl s)

section Runs

variable {α : Type} {run : List α → Sheet} {missed : List α → α → CellKey → Prop} {items : List α}
  {item : α}

/-- A result that an item of the run has missed, and that was there before it and has been ever since. -/
def Outlasts (run : List α → Sheet) (missed : List α → α → CellKey → Prop) (items : List α)
    (key : CellKey) (text : Text) : Prop :=
  ∃ before item after, items = before ++ item :: after ∧ missed before item key ∧
    ∀ later, later <+: item :: after → (run (before ++ later)).computed[key]? = some text

theorem Outlasts.concat (h : Outlasts run missed items key text)
    (hkey : (run (items ++ [item])).computed[key]? = some text) :
    Outlasts run missed (items ++ [item]) key text := by
  obtain ⟨before, missing, after, rfl, hmissed, hthere⟩ := h
  refine ⟨before, missing, after ++ [item], by simp, hmissed, ?_⟩
  intro later hlater
  rw [← List.cons_append, List.prefix_concat_iff] at hlater
  rcases hlater with rfl | hlater
  · simpa using hkey
  · exact hthere later hlater

theorem outlasts_concat (hmissed : missed items item key)
    (hbefore : (run items).computed[key]? = some text)
    (hkey : (run (items ++ [item])).computed[key]? = some text) :
    Outlasts run missed (items ++ [item]) key text := by
  refine ⟨items, item, [], rfl, hmissed, ?_⟩
  intro later hlater
  rcases List.prefix_concat_iff.mp (show later <+: [] ++ [item] from hlater) with rfl | hlater
  · exact hkey
  · rw [List.prefix_nil.mp hlater, List.append_nil]
    exact hbefore

/-- Along a run that begins without results, every result is exact or has been missed. -/
theorem exact_or_outlasts (run : List α → Sheet) (hnone : ∀ key : CellKey, (run []).computed[key]? = none)
    (hitem : ∀ before item, before ++ [item] <+: items → ∀ key text,
      (run (before ++ [item])).computed[key]? = some text →
        (run (before ++ [item])).Exact key text ∨ ((run before).computed[key]? = some text ∧
          (¬(run before).Exact key text ∨ missed before item key)))
    (hkey : (run items).computed[key]? = some text) :
    (run items).Exact key text ∨ Outlasts run missed items key text := by
  induction items using List.reverseRecOn generalizing key text with
  | nil =>
    rw [hnone] at hkey
    cases hkey
  | append_singleton items item ih =>
    have hearlier := fun before other (hbefore : before ++ [other] <+: items) =>
      hitem before other (hbefore.trans (List.prefix_append items [item]))
    -- a result that was not exact before has been missed by an earlier item
    rcases hitem items item List.prefix_rfl key text hkey with hexact | ⟨hold, hstale | hmissed⟩
    · exact Or.inl hexact
    · exact Or.inr (((ih hearlier hold).resolve_left hstale).concat hkey)
    · exact Or.inr (outlasts_concat hmissed hold hkey)

end Runs

end Sheet

end FormulaGrid
