import FormulaGrid.Proofs.MovedFormulas
import FormulaGrid.Proofs.ReadingFrame

/-!
# Evaluation of moved formulas

A formula whose references are all moved reads the moved cells in the same order and makes the same of
their texts. The evaluation is compared with that of the formula in its old place, which looks the same
cells up where they are now: each step of the one mirrors a step of the other.
-/
namespace FormulaGrid

theorem CellKey.shift_injective (rows cols : Int) :
    Function.Injective fun key : CellKey => key.shift rows cols := by
  rintro ⟨row, col⟩ ⟨row', col'⟩ h
  simp only [shift, mk.injEq] at h ⊢
  omega

namespace Evaluation
open Formula RefShift

variable {α β : Type} {rows cols : Int} {like : α → α → Prop} {lookup : Lookup} {key : CellKey}

def moveCells (rows cols : Int) (cells : List CellKey) : List CellKey :=
  cells.map (·.shift rows cols)

theorem note_moveCells (key : CellKey) (cells : List CellKey) :
    note (key.shift rows cols) (moveCells rows cols cells) =
      moveCells rows cols (note key cells) := by
  have hmem : key.shift rows cols ∈ moveCells rows cols cells ↔ key ∈ cells :=
    List.mem_map_of_injective (CellKey.shift_injective rows cols)
  unfold note
  by_cases h : key ∈ cells
  · rw [if_pos h, if_pos (hmem.mpr h)]
  · rw [if_neg h, if_neg (mt hmem.mp h)]
    simp [moveCells]

/-- The same fault, or results that are alike and cells that are moved. -/
inductive Outcome (rows cols : Int) (like : α → α → Prop) :
    Except Fault (α × List CellKey) → Except Fault (α × List CellKey) → Prop where
  | ok {x x' : α} {cells : List CellKey} (h : like x x') :
    Outcome rows cols like (.ok (x, cells)) (.ok (x', moveCells rows cols cells))
  | error (fault : Fault) : Outcome rows cols like (.error fault) (.error fault)

/-- From moved cells the second reading has the moved outcome of the first. -/
def Mirrors (rows cols : Int) (like : α → α → Prop) (m m' : Reading α) : Prop :=
  ∀ cells, Outcome rows cols like (m cells) (m' (moveCells rows cols cells))

theorem mirrors_pure {x x' : α} (h : like x x') : Mirrors rows cols like (pure x) (pure x') :=
  fun _ => .ok h

theorem mirrors_failure (e : FormulaError) :
    Mirrors rows cols like (failure e) (failure e) :=
  fun _ => .error (.formula e)

theorem mirrors_bind {next : β → β → Prop} {m m' : Reading α} {f f' : α → Reading β}
    (hm : Mirrors rows cols like m m') (hf : ∀ x x', like x x' → Mirrors rows cols next (f x) (f' x')) :
    Mirrors rows cols next (m >>= f) (m' >>= f') := by
  intro cells
  have hfirst := hm cells
  simp only [bind, StateT.bind, Except.bind]
  generalize hr : m cells = r at hfirst
  generalize hr' : m' (moveCells rows cols cells) = r' at hfirst
  cases hfirst with
  | ok h => exact hf _ _ h _
  | error fault => exact .error fault

/-- Operands of the same text, read from cells that are a shift apart. -/
def Alike (rows cols : Int) (lookup : Lookup) (token token' : Text) : Prop :=
  Mirrors rows cols Eq (resolve (fun key => lookup (key.shift rows cols)) token)
    (resolve lookup token')

section Operands

variable {a a' b b' o o' : Text} {ts ts' : List Text}

theorem alike_literal (h : Reference.isReference (Text.trim a) = false) :
    Alike rows cols lookup a a := by
  intro cells
  simp only [resolve_literal _ h]
  exact .ok rfl

theorem alike_display (x : Binary64) :
    Alike rows cols lookup (NumberDisplay.display x) (NumberDisplay.display x) :=
  alike_literal (NumberDisplay.display_not_isReference x)

theorem alike_reference (href : Reference.isReference (Text.trim a))
    (href' : Reference.isReference (Text.trim a'))
    (hkey : CellKey.ofReference (Text.trim a) = .ok key)
    (hkey' : CellKey.ofReference (Text.trim a') = .ok (key.shift rows cols)) :
    Alike rows cols lookup a a' := by
  intro cells
  simp only [resolve_reference _ href hkey, resolve_reference _ href' hkey', note_moveCells]
  exact .ok rfl

theorem Alike.operand (h : Alike rows cols lookup a a') :
    Mirrors rows cols Eq (operand (fun key => lookup (key.shift rows cols)) a)
      (operand lookup a') :=
  mirrors_bind h fun _ _ heq => mirrors_pure (congrArg readNumber heq)

end Operands

/-- Operators that are told apart from the signs and from each other in the same way. -/
structure SameOperator (o o' : Text) : Prop where
  times : o = ['*'] ↔ o' = ['*']
  slash : o = ['/'] ↔ o' = ['/']
  plus : o = ['+'] ↔ o' = ['+']

/-- Token lists that are alike at the even places, where the operands stand, and have the same operators
in between. -/
inductive Matching (rows cols : Int) (lookup : Lookup) : List Text → List Text → Prop where
  | nil : Matching rows cols lookup [] []
  | operand {a a' : Text} (h : Alike rows cols lookup a a') : Matching rows cols lookup [a] [a']
  | operator {a a' o o' : Text} {ts ts' : List Text} (h : Alike rows cols lookup a a')
    (ho : SameOperator o o') (hs : Matching rows cols lookup ts ts') :
    Matching rows cols lookup (a :: o :: ts) (a' :: o' :: ts')

variable {a a' b b' o o' : Text} {ts ts' : List Text}

theorem Matching.head (h : Matching rows cols lookup (a :: ts) (a' :: ts')) :
    Alike rows cols lookup a a' := by
  cases h <;> assumption

theorem Matching.exists_cons {us : List Text} (h : Matching rows cols lookup (a :: ts) us) :
    ∃ a' ts', us = a' :: ts' := by
  cases h
  · exact ⟨_, _, rfl⟩
  · exact ⟨_, _, rfl⟩

theorem Matching.replace (h : Matching rows cols lookup (a :: ts) (a' :: ts'))
    (hb : Alike rows cols lookup b b') : Matching rows cols lookup (b :: ts) (b' :: ts') := by
  cases h with
  | operand _ => exact .operand hb
  | operator _ ho hs => exact .operator hb ho hs

theorem mirrors_divide (x y : Binary64) : Mirrors rows cols Eq (divide x y) (divide x y) := by
  unfold divide
  split
  · exact mirrors_failure _
  · exact mirrors_pure rfl

/-- The first pass reads matching operands and leaves matching terms. -/
theorem mirrors_foldProducts (h : Matching rows cols lookup (a :: ts) (a' :: ts')) :
    Mirrors rows cols (Matching rows cols lookup)
      (foldProducts (fun key => lookup (key.shift rows cols)) a ts) (foldProducts lookup a' ts') := by
  induction a, ts using foldProducts_induction generalizing a' ts' with
  | nil left =>
    cases h with
    | operand h => exact mirrors_pure (.operand h)
  | product_nil left =>
    cases h with
    | operator h ho hs =>
      cases hs
      obtain rfl := ho.times.mp rfl
      exact mirrors_bind h.operand fun _ _ _ => mirrors_failure _
  | quotient_nil left =>
    cases h with
    | operator h ho hs =>
      cases hs
      obtain rfl := ho.slash.mp rfl
      exact mirrors_bind h.operand fun _ _ _ => mirrors_failure _
  | other_nil left o htimes hover =>
    cases h with
    | operator h ho hs =>
      cases hs
      rw [foldProducts.eq_4 _ _ _ htimes hover,
        foldProducts.eq_4 _ _ _ (mt ho.times.mpr htimes) (mt ho.slash.mpr hover)]
      exact mirrors_pure (.operator h ho .nil)
  | product left right rest ih =>
    cases h with
    | operator h ho hs =>
      obtain rfl := ho.times.mp rfl
      obtain ⟨right', rest', rfl⟩ := hs.exists_cons
      simp only [foldProducts_times_cons]
      apply mirrors_bind h.operand
      rintro x _ rfl
      apply mirrors_bind hs.head.operand
      rintro y _ rfl
      exact ih _ (hs.replace (alike_display _))
  | quotient left right rest ih =>
    cases h with
    | operator h ho hs =>
      obtain rfl := ho.slash.mp rfl
      obtain ⟨right', rest', rfl⟩ := hs.exists_cons
      simp only [foldProducts_over_cons]
      apply mirrors_bind h.operand
      rintro x _ rfl
      apply mirrors_bind hs.head.operand
      rintro y _ rfl
      apply mirrors_bind (mirrors_divide x y)
      rintro z _ rfl
      exact ih _ (hs.replace (alike_display _))
  | other left o right rest htimes hover ih =>
    cases h with
    | operator h ho hs =>
      obtain ⟨right', rest', rfl⟩ := hs.exists_cons
      rw [foldProducts.eq_5 _ _ _ _ _ htimes hover,
        foldProducts.eq_5 _ _ _ _ _ (mt ho.times.mpr htimes) (mt ho.slash.mpr hover)]
      apply mirrors_bind (ih hs)
      intro terms terms' hterms
      exact mirrors_pure (.operator h ho hterms)

theorem mirrors_products (h : Matching rows cols lookup ts ts') :
    Mirrors rows cols (Matching rows cols lookup)
      (products (fun key => lookup (key.shift rows cols)) ts) (products lookup ts') := by
  cases h with
  | nil => exact mirrors_pure .nil
  | operand h => exact mirrors_foldProducts (.operand h)
  | operator h ho hs => exact mirrors_foldProducts (.operator h ho hs)

theorem mirrors_foldTerms (total : Binary64)
    (h : Matching rows cols lookup (a :: ts) (a' :: ts')) :
    Mirrors rows cols Eq (foldTerms (fun key => lookup (key.shift rows cols)) total ts)
      (foldTerms lookup total ts') := by
  induction ts using List.twoStepInduction generalizing a a' ts' total with
  | nil =>
    cases h with
    | operand h => exact mirrors_pure rfl
  | singleton o =>
    cases h with
    | operator h ho hs =>
      cases hs
      exact mirrors_failure _
  | cons_cons o right rest ih _ =>
    cases h with
    | operator h ho hs =>
      obtain ⟨right', rest', rfl⟩ := hs.exists_cons
      simp only [foldTerms, ho.plus]
      apply mirrors_bind hs.head.operand
      rintro y _ rfl
      exact ih _ hs

theorem mirrors_sum (h : Matching rows cols lookup ts ts') :
    Mirrors rows cols Eq (sum (fun key => lookup (key.shift rows cols)) ts) (sum lookup ts') := by
  have hfirst {a a' : Text} {ts ts' : List Text}
      (h : Matching rows cols lookup (a :: ts) (a' :: ts')) :
      Mirrors rows cols Eq (sum (fun key => lookup (key.shift rows cols)) (a :: ts))
        (sum lookup (a' :: ts')) := by
    simp only [sum]
    apply mirrors_bind h.head.operand
    rintro x _ rfl
    exact mirrors_foldTerms x h
  cases h with
  | nil => exact mirrors_failure _
  | operand h => exact hfirst (.operand h)
  | operator h ho hs => exact hfirst (.operator h ho hs)

end Evaluation

namespace Evaluation
open Formula RefShift

variable {rows cols : Int} {lookup : Lookup} {token operator : Text} {tokens : List Text}

/-- Every token that is no reference is free of references. -/
def Plain (tokens : List Text) : Prop :=
  ∀ token ∈ tokens, Reference.isReference (Text.trim token) = false → matched token = []

theorem alike_moved (hm : AllMovable rows cols (matched token))
    (hplain : Reference.isReference (Text.trim token) = false → matched token = []) :
    Alike rows cols lookup token (moved rows cols token) := by
  cases href : Reference.isReference (Text.trim token) with
  | false =>
    rw [moved_of_matched_nil (hplain href)]
    exact alike_literal href
  | true =>
    obtain ⟨label, digits, htrim, hspells⟩ := exists_spells href
    have hmatched : matched token = [(label, digits)] := by
      rw [← matched_trim, htrim]
      exact gather_reference _ _ hspells
    have hmovable : Movable rows cols label digits := hm label digits (by simp [hmatched])
    have hmoved : Text.trim (moved rows cols token) = movedReference rows cols label digits := by
      rw [trim_moved hm, htrim]
      exact gather_reference _ _ hspells
    apply alike_reference href
    · have hspells' := CellKey.spells_written hmovable.row hmovable.col
      simp [hmoved, movedReference, Reference.isReference, hspells'.split?]
    · rw [htrim]
      exact CellKey.ofReference_short hspells.split? hmovable.short
    · rw [hmoved]
      exact CellKey.ofReference_written hmovable.row hmovable.col hmovable.shortMoved

theorem sameOperator_moved (hm : AllMovable rows cols (matched operator)) :
    SameOperator operator (moved rows cols operator) where
  times := (moved_eq_singleton (by decide) hm).symm
  slash := (moved_eq_singleton (by decide) hm).symm
  plus := (moved_eq_singleton (by decide) hm).symm

theorem matching_moved (hm : ∀ token ∈ tokens, AllMovable rows cols (matched token))
    (hplain : Plain (evenTokens tokens)) :
    Matching rows cols lookup tokens (tokens.map (moved rows cols)) := by
  induction tokens using List.twoStepInduction with
  | nil => exact .nil
  | singleton token =>
    exact .operand (alike_moved (hm token (by simp)) (hplain token (by simp [evenTokens])))
  | cons_cons token operator tokens ih _ =>
    apply Matching.operator
    · exact alike_moved (hm token (by simp)) (hplain token (by simp [evenTokens]))
    · exact sameOperator_moved (hm operator (by simp))
    · apply ih
      · exact fun other hother => hm other (by simp [hother])
      · exact fun other hother => hplain other (by simp [evenTokens, hother])

theorem mirrors_reading {formula : Formula}
    (hm : ∀ token ∈ formula.tokens, AllMovable rows cols (matched token))
    (hplain : Plain formula.operands) :
    Mirrors rows cols Eq (reading (fun key => lookup (key.shift rows cols)) formula)
      (reading lookup (formula.map (moved rows cols))) := by
  cases formula with
  | value token =>
    exact alike_moved (hm token (by simp [Formula.tokens])) (hplain token (by simp [operands]))
  | expression tokens =>
    apply mirrors_bind (mirrors_products (matching_moved hm hplain))
    intro terms terms' hterms
    apply mirrors_bind (mirrors_sum hterms)
    rintro total _ rfl
    exact mirrors_pure rfl

end Evaluation

/-- The same text, of moved cells. -/
def Evaluated.shift (e : Evaluated) (rows cols : Int) : Evaluated :=
  ⟨e.text, e.dependencies.map (·.shift rows cols)⟩

namespace Formula
open RefShift Evaluation

variable {t : Text} {formula : Formula} {rows cols : Int}

theorem evaluate_moved (lookup : Lookup)
    (hm : ∀ token ∈ formula.tokens, AllMovable rows cols (matched token))
    (hplain : Plain formula.operands) :
    (formula.map (moved rows cols)).evaluate lookup =
      (formula.evaluate fun key => lookup (key.shift rows cols)).map (·.shift rows cols) := by
  have hmirrors : Outcome rows cols Eq (reading (fun key => lookup (key.shift rows cols)) formula [])
      (reading lookup (formula.map (moved rows cols)) []) := mirrors_reading hm hplain []
  unfold evaluate
  generalize reading (fun key => lookup (key.shift rows cols)) formula [] = r at hmirrors ⊢
  generalize reading lookup (formula.map (moved rows cols)) [] = r' at hmirrors ⊢
  cases hmirrors with
  | ok h => subst h; rfl
  | error fault => rfl

def numberedCells : Lookup := fun key => if key = ⟨10, 26⟩ then ['5'] else ['2']

/-- A formula that is moved with all its references, none of which leaves the grid, evaluates to the same
text or fault as in its old place when every cell is looked up in its new one. It depends on the moved
cells, in the same order. Operands that are no references have to be free of them, because a reference
inside such an operand is moved although it is not read. -/
theorem shift_evaluate (lookup : Lookup) (hp : parse t = some formula)
    (hm : AllMovable rows cols (matched t)) (hplain : Plain formula.operands) :
    ∃ shifted shiftedFormula, RefShift.shift t rows cols = .ok shifted ∧
      parse shifted = some shiftedFormula ∧
      shiftedFormula.evaluate lookup =
        (formula.evaluate fun key => lookup (key.shift rows cols)).map (·.shift rows cols) := by
  have htokens : ∀ token ∈ formula.tokens, AllMovable rows cols (matched token) :=
    fun token htoken label digits hmem => hm label digits (matched_of_mem_tokens hp htoken hmem)
  exact ⟨moved rows cols t, formula.map (moved rows cols), shift_eq_moved hm, parse_moved hp hm,
    evaluate_moved lookup htokens hplain⟩

theorem shift_evaluate_padded : ∃ shifted shiftedFormula,
    RefShift.shift "=Z09 +B2".toList 1 1 = .ok shifted ∧ parse shifted = some shiftedFormula ∧
      shiftedFormula.evaluate numberedCells = .ok ⟨['7'], [⟨10, 26⟩, ⟨3, 2⟩]⟩ := by
  have hp : parse "=Z09 +B2".toList = some (.expression ["Z09 ".toList, ['+'], "B2".toList]) := by
    decide
  have hmatched : matched "=Z09 +B2".toList = [(['Z'], ['0', '9']), (['B'], ['2'])] := by decide
  have hm : AllMovable 1 1 (matched "=Z09 +B2".toList) := by
    intro label digits hmem
    simp only [hmatched, List.mem_cons, Prod.mk.injEq, List.not_mem_nil, or_false] at hmem
    obtain ⟨rfl, rfl⟩ | ⟨rfl, rfl⟩ := hmem
    · exact ⟨⟨by decide, by decide⟩, by decide, by decide⟩
    · exact ⟨⟨by decide, by decide⟩, by decide, by decide⟩
  have hplain : Plain (operands (.expression ["Z09 ".toList, ['+'], "B2".toList])) := by
    unfold Plain
    decide
  obtain ⟨shifted, shiftedFormula, hshift, hparse, hevaluate⟩ :=
    shift_evaluate numberedCells hp hm hplain
  have hold : evaluate (.expression ["Z09 ".toList, ['+'], "B2".toList])
      (fun key => numberedCells (key.shift 1 1)) = .ok ⟨['7'], [⟨9, 25⟩, ⟨2, 1⟩]⟩ := by
    decide +kernel
  rw [hold] at hevaluate
  exact ⟨shifted, shiftedFormula, hshift, hparse, hevaluate⟩

end Formula

end FormulaGrid
