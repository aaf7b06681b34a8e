import FormulaGrid.CellStore

/-!
# Plain sheets

The reference that sheets with results and dependencies are compared with. A plain sheet keeps the raw
texts of its cells and nothing else, and evaluates a formula whenever its cell is read. Nothing can be
stale on it, so there is nothing to invalidate.
-/
namespace FormulaGrid

structure PlainSheet where
  columns : Int
  raw : CellMap Text

namespace PlainSheet

def empty (columns : Int) : PlainSheet := ⟨columns, ∅⟩

def rawText (p : PlainSheet) (key : CellKey) : Text := p.raw[key]?.getD []

/-- The text a cell displays: its own or that of its formula, evaluated afresh. -/
def shown (p : PlainSheet) (key : CellKey) : Except Fault Text :=
  match Formula.parse (p.rawText key) with
  | none => .ok (p.rawText key)
  | some formula =>
    match formula.evaluate p.rawText with
    | .ok e => .ok e.text
    | .error (.formula e) => .ok e.display
    | .error fault => .error fault

def hasColumn (p : PlainSheet) (col : Int) : Bool := 0 ≤ col && col < p.columns

def edit (p : PlainSheet) (key : CellKey) (text : Text) : Except Fault Unit × PlainSheet :=
  if p.hasColumn key.col then (.ok (), { p with raw := p.raw.insert key text })
  else (.error (.columnOutOfRange key.col), p)

/-- The texts after a cell was copied to others, with its references shifted. -/
def copy (source : CellKey) (text : Text) (raw : CellMap Text) :
    List CellKey → Except Fault (CellMap Text)
  | [] => .ok raw
  | key :: keys =>
    match Sheet.filledText source key text with
    | .ok filled => copy source text (raw.insert key filled) keys
    | .error fault => .error fault

def fill (p : PlainSheet) (source target : CellKey) : Except Fault (List CellKey) × PlainSheet :=
  if !p.hasColumn source.col then (.error (.columnOutOfRange source.col), p)
  else if !p.hasColumn target.col then (.error (.columnOutOfRange target.col), p)
  else
    let keys := (CellKey.rectangle source target).filter (· ≠ source)
    match copy source (p.rawText source) p.raw keys with
    | .ok raw => (.ok keys, { p with raw := raw })
    | .error fault => (.error fault, p)

instance : CellStore PlainSheet where
  columns := columns
  rawText := rawText
  cached _ _ := none
  dependencies _ _ := []
  read p key := (p.shown key, p)
  edit := edit
  invalidate p _ := (.ok (), p)
  fill := fill
  clear p := { p with raw := ∅ }

end PlainSheet

namespace Sheet

/-- What is left of a sheet without its results and dependencies. -/
def forget (s : Sheet) : PlainSheet := ⟨s.columns, s.raw⟩

theorem forget_rawText (s : Sheet) : s.forget.rawText = s.rawText := rfl

theorem forget_hasColumn (s : Sheet) (col : Int) : s.forget.hasColumn col = s.hasColumn col := rfl

/-- Evaluating a cell anew shows what the plain sheet shows. -/
theorem evaluateCell_shown (s : Sheet) (key : CellKey) :
    (s.evaluateCell key).1 = s.forget.shown key := by
  unfold evaluateCell PlainSheet.shown
  rw [forget_rawText]
  cases Formula.parse (s.rawText key) with
  | none => rfl
  | some formula =>
    dsimp only
    cases formula.evaluate s.rawText with
    | ok e => rfl
    | error fault => cases fault <;> rfl

/-- Writing copies of a cell succeeds together with the plain copy, and leaves the same texts. -/
theorem writeAll_copy (source : CellKey) (text : Text) (keys : List CellKey) (s : Sheet) :
    (∀ s', writeAll source text s keys = (.ok (), s') →
      PlainSheet.copy source text s.raw keys = .ok s'.raw ∧ s' = { s with raw := s'.raw }) ∧
    ∀ fault s', writeAll source text s keys = (.error fault, s') →
      PlainSheet.copy source text s.raw keys = .error fault := by
  induction keys generalizing s with
  | nil =>
    constructor
    · intro s' h
      obtain rfl := (Prod.mk.inj h).2
      exact ⟨rfl, rfl⟩
    · intro fault s' h
      simp [writeAll] at h
  | cons key keys ih =>
    simp only [writeAll, PlainSheet.copy]
    cases filledText source key text with
    | ok filled =>
      have hrest := ih { s with raw := s.raw.insert key filled }
      constructor
      · intro s' h
        obtain ⟨hcopy, hs'⟩ := hrest.1 s' h
        refine ⟨hcopy, ?_⟩
        rw [hs']
      · exact hrest.2
    | error fault =>
      constructor
      · intro s' h
        simp at h
      · intro other s' h
        simp only [Prod.mk.injEq, Except.error.injEq] at h
        rw [h.1]

end Sheet

end FormulaGrid
