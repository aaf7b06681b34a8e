import FormulaGrid.Proofs.LoopSteps
import FormulaGrid.Proofs.Memoization

/-!
# Shown dependencies

The dependencies in the view of a cell are what its formula has just read, if it evaluates. For any other
cell they are what was recorded before, which is what the formula of the cell read when it last
evaluated: neither a new text nor a failing evaluation takes that away.
-/
namespace FormulaGrid

namespace Sheet
open CellStore

variable {s w : Sheet} {key k : CellKey} {cells : List CellKey} {keys : List CellKey}

/-- The formula of a cell evaluates and reads these cells, in this order. -/
def Evaluates (s : Sheet) (key : CellKey) (cells : List CellKey) : Prop :=
  ∃ formula text, Formula.parse (s.rawText key) = some formula ∧
    formula.evaluate s.rawText = .ok ⟨text, cells⟩

theorem Evaluates.unique {others : List CellKey} (h : s.Evaluates key cells)
    (hothers : s.Evaluates key others) : others = cells := by
  obtain ⟨formula, text, hp, he⟩ := h
  obtain ⟨formula', text', hp', he'⟩ := hothers
  obtain rfl := Option.some.inj (hp.symm.trans hp')
  exact congrArg Evaluated.dependencies (Except.ok.inj (he'.symm.trans he))

theorem evaluates_of_raw {s' : Sheet} (h : s'.raw = s.raw) :
    s'.Evaluates key cells ↔ s.Evaluates key cells := by
  have hraw : s'.rawText = s.rawText := by
    funext k
    simp [rawText, h]
  rw [Evaluates, Evaluates, hraw]

/-- If the formula of a cell evaluates, what it reads is what is recorded. -/
def Current (s : Sheet) (key : CellKey) : Prop :=
  ∀ cells, s.Evaluates key cells → s.dependencies key = cells

theorem memoize_evaluates {formula : Formula} {e : Evaluated}
    (hp : Formula.parse (s.rawText key) = some formula) (he : formula.evaluate s.rawText = .ok e) :
    (s.memoize key e).Evaluates key ((s.memoize key e).dependencies key) := by
  obtain ⟨formula', hp', he'⟩ := (exact_memoize hp he).evaluated
  exact ⟨formula', e.text, hp', he'⟩

theorem Current.read (h : s.Current key) (k : CellKey) : (s.read k).2.Current key := by
  rcases s.read_cases k with hsame | ⟨formula, e, hp, he, hmemo⟩
  · rw [hsame]
    exact h
  rw [hmemo]
  intro cells hcells
  by_cases hkey : key = k
  · subst hkey
    exact hcells.unique (memoize_evaluates hp he)
  · rw [memoize_dependencies, if_neg hkey]
    exact h cells ((evaluates_of_raw rfl).mp hcells)

theorem current_evaluateCell (s : Sheet) (key : CellKey) : (s.evaluateCell key).2.Current key := by
  unfold evaluateCell
  cases hp : Formula.parse (s.rawText key) with
  | none =>
    rintro cells ⟨formula, text, hother, -⟩
    cases hp.symm.trans hother
  | some formula =>
    cases he : formula.evaluate s.rawText with
    | ok e =>
      have hnow : (s.memoize key e).Current key :=
        fun cells hcells => hcells.unique (memoize_evaluates hp he)
      simpa [he] using hnow
    | error fault =>
      have hfails : s.Current key := by
        rintro cells ⟨other, text, hother, hevaluates⟩
        obtain rfl := Option.some.inj (hp.symm.trans hother)
        cases he.symm.trans hevaluates
      cases fault <;> simpa [he] using hfails

/-- On a sound sheet a cell that has been read is recorded as its formula evaluates. -/
theorem Sound.current_read (hs : s.Sound) (key : CellKey) : (s.read key).2.Current key := by
  unfold Sheet.read
  split
  · exact s.current_evaluateCell key
  · exact s.current_evaluateCell key
  · rename_i text _ hcached
    obtain ⟨formula, hp, he⟩ := (hs.results hcached).evaluated
    exact fun cells hcells => hcells.unique ⟨formula, text, hp, he⟩

theorem Sound.afterReads (hs : w.Sound) (keys : List CellKey) : (w.afterReads keys).Sound := by
  induction keys generalizing w with
  | nil => exact hs
  | cons key keys ih => exact ih (hs.read key)

theorem Current.afterReads (h : w.Current key) (keys : List CellKey) :
    (w.afterReads keys).Current key := by
  induction keys generalizing w with
  | nil => exact h
  | cons k keys ih => exact ih (h.read k)

/-- All the cells that have been read are recorded as their formulas evaluate. -/
theorem Sound.current_afterReads (hs : w.Sound) (hkey : key ∈ keys) :
    (w.afterReads keys).Current key := by
  obtain ⟨before, later, rfl⟩ := List.append_of_mem hkey
  rw [afterReads_append, afterReads_cons]
  exact ((hs.afterReads before).current_read key).afterReads later

/-- What is recorded of a cell after readings was recorded before, or is what its formula reads now. -/
structure Renewed (w s : Sheet) : Prop where
  raw : s.raw = w.raw
  dependencies : ∀ key, s.dependencies key = w.dependencies key ∨
    s.Evaluates key (s.dependencies key)

theorem Renewed.read (h : Renewed w s) (k : CellKey) : Renewed w (s.read k).2 where
  raw := (s.read_raw k).trans h.raw
  dependencies := by
    intro key
    rcases s.read_cases k with hsame | ⟨formula, e, hp, he, hmemo⟩
    · rw [hsame]
      exact h.dependencies key
    rw [hmemo]
    by_cases hkey : key = k
    · subst hkey
      exact Or.inr (memoize_evaluates hp he)
    · rw [memoize_dependencies, if_neg hkey]
      exact (h.dependencies key).imp_right (evaluates_of_raw rfl).mpr

theorem renewed_afterReads (w : Sheet) (keys : List CellKey) : Renewed w (w.afterReads keys) :=
  List.foldlRecOn keys _ (motive := Renewed w) ⟨rfl, fun _ => Or.inl rfl⟩
    fun _ h key _ => h.read key

end Sheet

namespace Service
open CellStore

variable {s : Service} {settings : Settings} {limit : Nat} {steps : List LoopStep} {step : LoopStep}

/-- What is recorded after a step of the loop was recorded before it, or is what the formula of the cell
reads now. -/
theorem loopStep_renews (hl : s.session.Listening) (step : LoopStep) (key : CellKey) :
    let sheet := (s.loopStep step).sheet
    sheet.dependencies key = s.sheet.dependencies key ∨
      sheet.Evaluates key (sheet.dependencies key) := by
  intro sheet
  obtain ⟨w, keys, hgraph, hsheet⟩ := loopStep_writes_first hl step
  have hrecorded : w.dependencies key = s.sheet.dependencies key := by
    rw [Sheet.dependencies, hgraph, Sheet.dependencies]
  have hrenewed := (w.renewed_afterReads keys).dependencies key
  rw [show sheet = w.afterReads keys from hsheet]
  rwa [hrecorded] at hrenewed

/-- Whatever is recorded of a cell is what its formula read at some moment of the run. -/
theorem exists_evaluates (settings : Settings) (limit : Nat) (steps : List LoopStep) (key : CellKey)
    (h : ((openedTo settings limit).afterLoop steps).sheet.dependencies key ≠ []) :
    ∃ early, early <+: steps ∧ ((openedTo settings limit).afterLoop early).sheet.Evaluates key
      (((openedTo settings limit).afterLoop steps).sheet.dependencies key) := by
  induction steps using List.reverseRecOn with
  | nil => exact absurd (DependencyGraph.empty_dependencies key) h
  | append_singleton steps step ih =>
    have hl := listening_afterLoop (listening_openedTo settings limit) steps
    have hnext := loopStep_renews hl step key
    rw [← afterLoop_concat] at hnext
    rcases hnext with hsame | hnow
    · rw [hsame] at h ⊢
      obtain ⟨early, hearly, hevaluates⟩ := ih h
      exact ⟨early, hearly.trans (List.prefix_append steps [step]), hevaluates⟩
    · exact ⟨steps ++ [step], List.prefix_rfl, hnow⟩

/-- A request to fill that stops at a number which is too long. -/
def tears (s : Service) (r : Request) : Bool :=
  Route.ofPath r.path = some .fill && (s.handle r).1 = .error .numeralTooLong

/-- All that a request writes is followed by its whole cascade: it is no torn fill, and it is not answered
with a circular reference. -/
def completes (s : Service) : LoopStep → Bool
  | .client (.request r) => !s.tears r && (s.handle r).1 ≠ .ok .circular
  | _ => true

theorem editReply_of_circular {key : CellKey} {text : Text}
    (h : (s.sheet.edit key text).1 = .error .circular) : (s.editReply key text).1 = .ok .circular := by
  rcases hedit : s.sheet.edit key text with ⟨outcome, sheet⟩
  rw [hedit] at h
  obtain rfl : outcome = .error .circular := h
  simp [editReply, hedit]

/-- A fill that fails answers with its fault, or with a circular reference. -/
theorem fillReply_of_error {source target : CellKey} {fault : Fault}
    (h : (s.sheet.fill source target).1 = .error fault) :
    (s.fillReply source target).1 = if fault = .circular then .ok .circular else .error fault := by
  rcases hfill : s.sheet.fill source target with ⟨outcome, sheet⟩
  rw [hfill] at h
  obtain rfl : outcome = .error fault := h
  have hstore : CellStore.fill s.session.store source target = (.error fault, sheet) := hfill
  unfold fillReply Session.fill
  rw [hstore]
  cases fault <;> rfl

theorem admits_of_completes {r : Request} (h : s.completes (.client (.request r))) :
    s.Admits (fun sheet command => command.completes sheet) r := by
  simp only [completes, Bool.and_eq_true, Bool.not_eq_true', decide_eq_true_eq] at h
  obtain ⟨htorn, hcircular⟩ := h
  constructor
  case edit =>
    intro key text heq _
    refine Command.completes_iff.mpr ⟨by simp [Command.tears], fun hover => hcircular ?_⟩
    rw [heq]
    exact editReply_of_circular (isCircular_iff.mp hover)
  case fill =>
    intro source target heq hroute _ _
    refine Command.completes_iff.mpr ⟨fun htears => ?_, fun hover => hcircular ?_⟩
    · have hreply := fillReply_of_error (Command.tears_fill.mp htears)
      simp [tears, hroute, heq, hreply] at htorn
    · rw [heq, fillReply_of_error (isCircular_iff.mp hover), if_pos rfl]

/-- As long as every request completes what it writes, the sheet is sound. -/
theorem sound_afterLoop (ho : (openedTo settings limit).ObeysLoop (fun s step => s.completes step) steps) :
    ((openedTo settings limit).afterLoop steps).sheet.Sound := by
  apply afterLoop_keeps sound_kept (listening_openedTo settings limit)
  · apply ho.mono
    rintro t step hc r rfl
    exact admits_of_completes hc
  · exact Sheet.sound_of_none DependencyGraph.inStep_empty fun _ => Std.ExtTreeMap.getElem?_empty

/-- The sheet on which a request reads what it shows is sound. -/
theorem Edited.sound {w : Sheet} (h : s.Edited w) (hs : s.sheet.Sound) : w.Sound := by
  rcases h with rfl | ⟨key, text, -, hedit⟩
  · exact hs
  · have hedited : (s.sheet.edit key text).2.Sound := hs.edit (by simp [hedit])
    rwa [hedit] at hedited

theorem Edited.graph {w : Sheet} (h : s.Edited w) : w.graph = s.sheet.graph := by
  rcases h with rfl | ⟨key, text, -, hedit⟩
  · rfl
  · have hgraph := s.sheet.edit_graph key text
    rwa [hedit] at hgraph

/-- What the view of a cell has to do with its formula, in runs in which every request completes what it
writes. If the formula evaluates, the dependencies shown are the references of the cells that it reads, in
order. If it does not, or if there is none, they are those recorded before, so that none are shown only if
none were recorded; and these are the cells that the formula of the cell read at some earlier moment. -/
theorem shown_dependencies {c : ClientStep} {reply : Reply} {v : CellView}
    (ho : (openedTo settings limit).ObeysLoop (fun s step => s.completes step) steps)
    (hreply : (((openedTo settings limit).afterLoop steps).act c).1 = .ok (.reply reply))
    (hv : v ∈ reply.views) :
    let s := (openedTo settings limit).afterLoop steps
    let sheet := (s.act c).2.sheet
    let recorded := s.sheet.dependencies v.key
    v.raw = sheet.rawText v.key ∧ v.isFormula = v.raw.isFormula ∧
    (∀ cells, sheet.Evaluates v.key cells →
      cells.mapM CellKey.toReference = .ok v.dependencies) ∧
    ((∀ cells, ¬sheet.Evaluates v.key cells) →
      recorded.mapM CellKey.toReference = .ok v.dependencies ∧
      (v.dependencies = [] ↔ recorded = []) ∧
      (recorded ≠ [] → ∃ early, early <+: steps ∧
        ((openedTo settings limit).afterLoop early).sheet.Evaluates v.key recorded)) := by
  intro s sheet recorded
  have hsound : s.sheet.Sound := sound_afterLoop ho
  obtain ⟨r, rfl, hr⟩ := act_eq_reply.mp hreply
  have hshows : s.Shows sheet v := shows_of_mem_views hr hv
  obtain ⟨text, hview⟩ := hshows.view
  obtain ⟨w, keys, hedited, hkey, hsheet⟩ := hshows.read
  obtain ⟨ref, dependencies, -, hdependencies, hfields⟩ := view_eq_ok.mp hview
  have hshown : (sheet.dependencies v.key).mapM CellKey.toReference = .ok v.dependencies := by
    rw [hdependencies, hfields]
  have hraw : v.raw = sheet.rawText v.key := by
    rw [hfields]
  have hcurrent : sheet.Current v.key := hsheet ▸ (hedited.sound hsound).current_afterReads hkey
  have hrenewed : sheet.dependencies v.key = recorded ∨
      sheet.Evaluates v.key (sheet.dependencies v.key) := by
    have hbefore : w.dependencies v.key = recorded := by
      rw [Sheet.dependencies, hedited.graph]
      rfl
    have hreads := (w.renewed_afterReads keys).dependencies v.key
    rwa [← hsheet, hbefore] at hreads
  refine ⟨hraw, by rw [hfields], ?_, ?_⟩
  · intro cells hcells
    rw [← hcurrent cells hcells]
    exact hshown
  · intro hnone
    have hrecorded := hrenewed.resolve_right (hnone _)
    rw [hrecorded] at hshown
    refine ⟨hshown, ?_, exists_evaluates settings limit steps v.key⟩
    rw [mapM_eq_ok] at hshown
    have hlength := hshown.length_eq
    rw [← List.length_eq_zero_iff, ← List.length_eq_zero_iff, hlength]

/-- A guarded grid of three rows and two columns. -/
def guardedSettings : Settings := ⟨3, 2, 50, true⟩

/-- A formula that reads another cell, which has been shown, and a fill of it that waits to be refreshed. -/
def referring : List LoopStep :=
  [.client (.request (.edit ⟨1, 0⟩ ['=', 'B', '1'])), .client (.request (.fill ⟨1, 0⟩ ⟨2, 0⟩))]

/-- After the formula a division by zero is written, which reads nothing. -/
theorem shown_dependencies_failing :
    let s := (openedTo guardedSettings 1000).afterLoop referring
    let edit := ClientStep.request (.edit ⟨1, 0⟩ ['=', '1', '/', '0'])
    let v : CellView := ⟨⟨1, 0⟩, ['A', '1'], ['=', '1', '/', '0'],
      FormulaError.divisionByZero.display, true, [['B', '1']]⟩
    (openedTo guardedSettings 1000).ObeysLoop (fun s step => s.completes step) referring ∧
    s.session.queue = [[⟨2, 0⟩]] ∧ (s.act edit).1 = .ok (.reply (.cell v)) ∧
    (∀ cells, ¬(s.act edit).2.sheet.Evaluates v.key cells) ∧
    s.sheet.dependencies v.key = [⟨1, 1⟩] ∧
    ∃ early, early <+: referring ∧
      ((openedTo guardedSettings 1000).afterLoop early).sheet.Evaluates v.key [⟨1, 1⟩] := by
  intro s edit v
  have ho : (openedTo guardedSettings 1000).ObeysLoop (fun s step => s.completes step) referring := by
    decide +kernel
  have hqueue : s.session.queue = [[⟨2, 0⟩]] := by decide +kernel
  have hreply : (s.act edit).1 = .ok (.reply (.cell v)) := by decide +kernel
  have hrecorded : s.sheet.dependencies v.key = [⟨1, 1⟩] := by decide +kernel
  have hfails : ∀ cells, ¬(s.act edit).2.sheet.Evaluates v.key cells := by
    rintro cells ⟨formula, text, hp, he⟩
    have hparse : Formula.parse ((s.act edit).2.sheet.rawText v.key) =
        some (.expression [['1'], ['/'], ['0']]) := by decide +kernel
    have hdivides : (Formula.expression [['1'], ['/'], ['0']]).evaluate
        (s.act edit).2.sheet.rawText = .error (.formula .divisionByZero) := by decide +kernel
    obtain rfl := Option.some.inj (hparse.symm.trans hp)
    cases hdivides.symm.trans he
  obtain ⟨-, -, -, hshown⟩ := shown_dependencies ho hreply (List.mem_singleton_self v)
  obtain ⟨-, -, hearly⟩ := hshown hfails
  rw [show ((openedTo guardedSettings 1000).afterLoop referring).sheet.dependencies v.key = _ from
    hrecorded] at hearly
  exact ⟨ho, hqueue, hreply, hfails, hrecorded, hearly (by simp)⟩

/-- A number is shown with the dependencies of the formula that was there before it. -/
theorem number_with_dependencies :
    let s := (openedTo guardedSettings 1000).afterLoop referring
    (s.act (.request (.edit ⟨1, 0⟩ ['5']))).1 =
      .ok (.reply (.cell ⟨⟨1, 0⟩, ['A', '1'], ['5'], ['5'], false, [['B', '1']]⟩)) := by
  decide +kernel

end Service

end FormulaGrid
