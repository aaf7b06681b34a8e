import FormulaGrid.Proofs.Inquiries
import FormulaGrid.Proofs.MixedPrecedence

/-!
# Looked up cells

The inquiry of a parsed formula asks for the references of the formula from left to right, each in its turn,
whatever it is told. The first pass reads products before the sums around them, but a parsed formula is split
either at its signs or at its stars and slashes, so that no reference is passed over. An evaluation that
succeeds therefore depends on all references, and one that fails has looked up the first of them and nothing
else.
-/
namespace FormulaGrid

namespace Formula

theorem tokenCells_cons (token : Text) (tokens : List Text) :
    tokenCells (token :: tokens) = (cell? token).toList ++ tokenCells (tokens.drop 1) := by
  rw [tokenCells, evenTokens_cons, List.filterMap_cons]
  cases cell? token <;> rfl

theorem tokenCells_display_cons (x : Binary64) (tokens : List Text) :
    tokenCells (NumberDisplay.display x :: tokens) = tokenCells (tokens.drop 1) := by
  rw [tokenCells_cons, cell?_display]
  rfl

theorem cell?_operator {c : Char} (hc : isAdditive c ∨ isMultiplicative c) : cell? [c] = none := by
  rcases hc with hc | hc
  · rcases eq_of_isAdditive hc with rfl | rfl <;> decide
  · rcases eq_of_isMultiplicative hc with rfl | rfl <;> decide

theorem not_sign {c : Char} (hc : isMultiplicative c) : ¬∃ d, isAdditive d ∧ [c] = [d] := by
  rintro ⟨d, hd, heq⟩
  obtain rfl : c = d := by simpa using heq
  rcases eq_of_isMultiplicative hc with rfl | rfl <;> exact absurd hd (by decide)

end Formula

namespace Inquiry
open Formula

variable {α β : Type}

section Order

variable {cells others : List CellKey} {leaves : α → List CellKey → Prop}

/-- The cells that an inquiry asks for come from the front of a list, up to those that its result leaves. -/
def Draws (cells : List CellKey) (leaves : α → List CellKey → Prop) (q : Inquiry α) : Prop :=
  ∀ lookup, match q.outcome lookup with
    | .ok a => ∃ left, cells = q.asked lookup ++ left ∧ leaves a left
    | .error _ => q.asked lookup <+: cells

theorem draws_done {a : α} (h : leaves a cells) : Draws cells leaves (done a) :=
  fun _ => ⟨cells, rfl, h⟩

theorem draws_stop (fault : Fault) : Draws cells leaves (stop fault) :=
  fun _ => List.nil_prefix

theorem draws_bind {next : β → List CellKey → Prop} {q : Inquiry α} {f : α → Inquiry β}
    (hq : Draws cells leaves q) (hf : ∀ a left, leaves a left → Draws left next (f a)) :
    Draws cells next (q >>= f) := by
  intro lookup
  have hfirst := hq lookup
  rw [outcome_bind]
  cases hr : q.outcome lookup with
  | error fault =>
    rw [hr] at hfirst
    rw [asked_bind_of_error lookup hr]
    exact hfirst
  | ok a =>
    rw [hr] at hfirst
    obtain ⟨left, rfl, hleaves⟩ := hfirst
    have hsecond := hf a left hleaves lookup
    rw [asked_bind_of_ok lookup hr]
    simp only [Bind.bind, Except.bind]
    cases hb : (f a).outcome lookup with
    | error fault =>
      rw [hb] at hsecond
      exact (List.prefix_append_right_inj _).mpr hsecond
    | ok b =>
      rw [hb] at hsecond
      obtain ⟨rest, rfl, hnext⟩ := hsecond
      exact ⟨rest, (List.append_assoc _ _ _).symm, hnext⟩

theorem Draws.mono {leaves' : α → List CellKey → Prop} {q : Inquiry α} (h : Draws cells leaves q)
    (himp : ∀ a left, leaves a left → leaves' a left) : Draws cells leaves' q := by
  intro lookup
  have hq := h lookup
  cases hr : q.outcome lookup with
  | error fault => simpa [hr] using hq
  | ok a =>
    rw [hr] at hq
    obtain ⟨left, hcells, hleaves⟩ := hq
    exact ⟨left, hcells, himp a left hleaves⟩

theorem draws_ask {key : CellKey} {next : Text → Inquiry α} (h : ∀ text, Draws cells leaves (next text)) :
    Draws (key :: cells) leaves (ask key next) := by
  intro lookup
  have hnext := h (lookup key) lookup
  simp only [outcome, asked]
  cases hr : (next (lookup key)).outcome lookup with
  | error fault =>
    rw [hr] at hnext
    exact (List.prefix_cons_inj key).mpr hnext
  | ok a =>
    rw [hr] at hnext
    obtain ⟨left, hcells, hleaves⟩ := hnext
    exact ⟨left, congrArg (key :: ·) hcells, hleaves⟩

variable {token left right operator : Text} {tokens rest : List Text} {isOperator : Char → Bool}

theorem draws_resolve (h : cells = (cell? token).toList ++ others) :
    Draws cells (fun _ left => left = others) (resolve token) := by
  subst h
  cases href : Reference.isReference (Text.trim token) with
  | false =>
    have hnone : cell? token = none := by simp [cell?, href]
    rw [resolve_literal href, hnone]
    exact draws_done rfl
  | true =>
    cases hkey : CellKey.ofReference (Text.trim token) with
    | error fault =>
      rw [resolve_overlong href hkey]
      exact draws_stop fault
    | ok key =>
      rw [resolve_reference href hkey, Evaluation.cell?_eq_some href hkey]
      exact draws_ask fun raw => draws_done rfl

/-- An operand asks for the cell that it refers to. -/
theorem draws_operand (h : cells = (cell? token).toList ++ others) :
    Draws cells (fun _ left => left = others) (operand token) := by
  apply draws_bind (draws_resolve h)
  rintro text _ rfl
  exact draws_done rfl

/-- An operand that is no reference asks for nothing. -/
theorem draws_plain (h : cell? token = none) :
    Draws cells (fun _ left => left = cells) (operand token) :=
  draws_operand (by rw [h]; rfl)

theorem draws_divide (x y : Binary64) : Draws cells (fun _ left => left = cells) (divide x y) := by
  unfold divide
  split
  · exact draws_stop _
  · exact draws_done rfl

/-- One of two neighbours is an operator. -/
def Parted (isOperator : Char → Bool) (a b : Text) : Prop :=
  (∃ c, isOperator c ∧ a = [c]) ∨ ∃ c, isOperator c ∧ b = [c]

/-- The rest of the tokens in the middle of the first pass, after an operand that is as it was or a number
written down. -/
structure Passing (isOperator : Char → Bool) (left : Text) (tokens : List Text) : Prop where
  parted : tokens.IsChain (Parted isOperator)
  left : cell? left = none ∨ ∀ operator ∈ tokens.head?, Parted isOperator left operator

theorem Passing.of_isChain (h : (left :: tokens).IsChain (Parted isOperator)) :
    Passing isOperator left tokens where
  parted := h.tail
  left := Or.inr (List.isChain_cons.mp h).1

theorem Passing.display (h : Passing isOperator left (operator :: right :: rest)) (x : Binary64) :
    Passing isOperator (NumberDisplay.display x) rest where
  parted := h.parted.tail.tail
  left := Or.inl (cell?_display x)

theorem Passing.next (h : Passing isOperator left (operator :: right :: rest)) :
    Passing isOperator right rest :=
  .of_isChain h.parted.tail

/-- In a text split at its signs no reference stands before a star or a slash, nor after it. -/
theorem Passing.plain_of_signs {c : Char} (h : Passing isAdditive left ([c] :: rest))
    (hc : isMultiplicative c) :
    cell? left = none ∧ ∀ right ∈ rest.head?, cell? right = none := by
  constructor
  · refine h.left.elim id fun hparted => ?_
    obtain ⟨d, hd, rfl⟩ := (hparted [c] rfl).resolve_right (not_sign hc)
    exact cell?_operator (Or.inl hd)
  · intro right hright
    obtain ⟨d, hd, rfl⟩ := ((List.isChain_cons.mp h.parted).1 right hright).resolve_left (not_sign hc)
    exact cell?_operator (Or.inl hd)

/-- In a text split at its stars and slashes no reference is passed over. -/
theorem Passing.plain_of_passed (h : Passing isMultiplicative left (operator :: rest))
    (htimes : operator ≠ ['*']) (hover : operator ≠ ['/']) : cell? left = none := by
  refine h.left.elim id fun hparted => ?_
  have hnot : ¬∃ c, isMultiplicative c ∧ operator = [c] := by
    rintro ⟨c, hc, rfl⟩
    rcases eq_of_isMultiplicative hc with rfl | rfl
    · exact htimes rfl
    · exact hover rfl
  obtain ⟨c, hc, rfl⟩ := (hparted operator rfl).resolve_right hnot
  exact cell?_operator (Or.inr hc)

theorem draws_foldProducts_of_signs (h : Passing isAdditive left tokens) :
    Draws cells (fun terms rest => rest = cells ∧ tokenCells terms = tokenCells (left :: tokens))
      (foldProducts left tokens) := by
  have hdisplay {left operator right : Text} {rest : List Text} (x : Binary64)
      (hleft : cell? left = none) (hright : cell? right = none) :
      tokenCells (NumberDisplay.display x :: rest) = tokenCells (left :: operator :: right :: rest) := by
    rw [tokenCells_display_cons, tokenCells_cons left, hleft, List.drop_succ_cons, List.drop_zero,
      tokenCells_cons right, hright]
    rfl
  induction left, tokens using Evaluation.foldProducts_induction with
  | nil left => exact draws_done ⟨rfl, rfl⟩
  | product_nil left =>
    refine draws_bind (draws_plain (h.plain_of_signs (by decide)).1) ?_
    rintro x _ rfl
    exact draws_stop _
  | quotient_nil left =>
    refine draws_bind (draws_plain (h.plain_of_signs (by decide)).1) ?_
    rintro x _ rfl
    exact draws_stop _
  | other_nil left operator htimes hover =>
    rw [foldProducts_single htimes hover]
    exact draws_done ⟨rfl, rfl⟩
  | product left right rest ih =>
    obtain ⟨hleft, hright⟩ := h.plain_of_signs (by decide)
    refine draws_bind (draws_plain hleft) ?_
    rintro x _ rfl
    refine draws_bind (draws_plain (hright right rfl)) ?_
    rintro y _ rfl
    apply (ih _ (h.display _)).mono
    rintro terms _ ⟨rfl, hterms⟩
    exact ⟨rfl, hterms.trans (hdisplay _ hleft (hright right rfl))⟩
  | quotient left right rest ih =>
    obtain ⟨hleft, hright⟩ := h.plain_of_signs (by decide)
    refine draws_bind (draws_plain hleft) ?_
    rintro x _ rfl
    refine draws_bind (draws_plain (hright right rfl)) ?_
    rintro y _ rfl
    refine draws_bind (draws_divide x y) ?_
    rintro z _ rfl
    apply (ih _ (h.display _)).mono
    rintro terms _ ⟨rfl, hterms⟩
    exact ⟨rfl, hterms.trans (hdisplay _ hleft (hright right rfl))⟩
  | other left operator right rest htimes hover ih =>
    rw [foldProducts_other htimes hover]
    apply draws_bind (ih h.next)
    rintro terms _ ⟨rfl, hterms⟩
    refine draws_done ⟨rfl, ?_⟩
    simp only [tokenCells_cons left, List.drop_succ_cons, List.drop_zero, hterms]

/-- In a text split at its stars and slashes the references that the first pass asks for come before those
that it leaves. -/
theorem draws_foldProducts_of_stars (h : Passing isMultiplicative left tokens) :
    Draws (tokenCells (left :: tokens)) (fun terms rest => rest = tokenCells terms)
      (foldProducts left tokens) := by
  induction left, tokens using Evaluation.foldProducts_induction with
  | nil left => exact draws_done rfl
  | product_nil left =>
    refine draws_bind (draws_operand (tokenCells_cons left _)) ?_
    rintro x _ rfl
    exact draws_stop _
  | quotient_nil left =>
    refine draws_bind (draws_operand (tokenCells_cons left _)) ?_
    rintro x _ rfl
    exact draws_stop _
  | other_nil left operator htimes hover =>
    rw [foldProducts_single htimes hover]
    exact draws_done rfl
  | product left right rest ih =>
    refine draws_bind (draws_operand (tokenCells_cons left _)) ?_
    rintro x _ rfl
    refine draws_bind (draws_operand (tokenCells_cons right _)) ?_
    rintro y _ rfl
    rw [← tokenCells_display_cons (x.mul y)]
    exact ih _ (h.display _)
  | quotient left right rest ih =>
    refine draws_bind (draws_operand (tokenCells_cons left _)) ?_
    rintro x _ rfl
    refine draws_bind (draws_operand (tokenCells_cons right _)) ?_
    rintro y _ rfl
    refine draws_bind (draws_divide x y) ?_
    rintro z _ rfl
    rw [← tokenCells_display_cons z]
    exact ih _ (h.display _)
  | other left operator right rest htimes hover ih =>
    have hpassed (tokens : List Text) :
        tokenCells (left :: operator :: tokens) = tokenCells tokens := by
      rw [tokenCells_cons, h.plain_of_passed htimes hover]
      rfl
    rw [foldProducts_other htimes hover, hpassed]
    apply draws_bind (ih h.next)
    rintro terms _ rfl
    exact draws_done (hpassed terms).symm

theorem draws_products (h : tokens.IsChain (Parted isAdditive) ∨ tokens.IsChain (Parted isMultiplicative)) :
    Draws (tokenCells tokens) (fun terms rest => rest = tokenCells terms) (products tokens) := by
  cases tokens with
  | nil => exact draws_done rfl
  | cons first tokens =>
    rcases h with hsigns | hstars
    · apply (draws_foldProducts_of_signs (.of_isChain hsigns)).mono
      rintro terms _ ⟨rfl, hterms⟩
      exact hterms.symm
    · exact draws_foldProducts_of_stars (.of_isChain hstars)

/-- The second pass asks for all references that are left. -/
theorem draws_foldTerms (tokens : List Text) : ∀ total,
    Draws (tokenCells (tokens.drop 1)) (fun _ rest => rest = []) (foldTerms total tokens) := by
  induction tokens using List.twoStepInduction with
  | nil => exact fun total => draws_done rfl
  | singleton operator => exact fun total => draws_stop _
  | cons_cons operator right rest ih _ =>
    intro total
    refine draws_bind (draws_operand (tokenCells_cons right rest)) ?_
    rintro y _ rfl
    exact ih _

theorem draws_sum (tokens : List Text) :
    Draws (tokenCells tokens) (fun _ rest => rest = []) (sum tokens) := by
  cases tokens with
  | nil => exact draws_stop _
  | cons first rest =>
    refine draws_bind (draws_operand (tokenCells_cons first rest)) ?_
    rintro x _ rfl
    exact draws_foldTerms rest x

end Order

/-- A formula was split either at its signs or at its stars and slashes. -/
theorem isChain_of_parse {t : Text} {tokens : List Text} (h : parse t = some (.expression tokens)) :
    tokens.IsChain (Parted isAdditive) ∨ tokens.IsChain (Parted isMultiplicative) := by
  unfold parse at h
  split at h
  · rename_i body
    rcases ofBody_cases (Text.trim body) with hbody | ⟨-, hbody | hbody⟩
    · rw [hbody] at h
      obtain rfl := Formula.expression.inj (Option.some.inj h)
      exact Or.inl (isChain_tokenize isAdditive _)
    · rw [hbody] at h
      obtain rfl := Formula.expression.inj (Option.some.inj h)
      exact Or.inr (isChain_tokenize isMultiplicative _)
    · rw [hbody] at h
      cases Option.some.inj h
  · cases h

/-- A parsed formula asks for its references from left to right, and for all of them if it succeeds. -/
theorem draws_ofFormula {t : Text} {formula : Formula} (hp : parse t = some formula) :
    Draws formula.references (fun _ rest => rest = []) (ofFormula formula) := by
  cases formula with
  | value token => exact draws_resolve (List.append_nil _).symm
  | expression tokens =>
    refine draws_bind (draws_products (isChain_of_parse hp)) ?_
    rintro terms _ rfl
    refine draws_bind (draws_sum terms) ?_
    rintro total _ rfl
    exact draws_done rfl

theorem asked_isPrefix {t : Text} {formula : Formula} (hp : parse t = some formula) (lookup : Lookup) :
    (ofFormula formula).asked lookup <+: formula.references := by
  have hdraws := draws_ofFormula hp lookup
  cases hr : (ofFormula formula).outcome lookup with
  | error fault => simpa [hr] using hdraws
  | ok text =>
    rw [hr] at hdraws
    obtain ⟨left, hcells, -⟩ := hdraws
    exact ⟨left, hcells.symm⟩

theorem asked_of_ok {t text : Text} {formula : Formula} (hp : parse t = some formula) {lookup : Lookup}
    (h : (ofFormula formula).outcome lookup = .ok text) :
    (ofFormula formula).asked lookup = formula.references := by
  have hdraws := draws_ofFormula hp lookup
  rw [h] at hdraws
  obtain ⟨left, hcells, rfl⟩ := hdraws
  rw [hcells, List.append_nil]

end Inquiry

namespace Formula
open Inquiry

/-- What is recorded for a formula is exactly what its result depends on. The evaluation of a parsed formula
looks up its references one after the other, from left to right, and nothing else; if it succeeds, it has
looked up all of them, and depends on each once, in the order in which they first occur. Lookups that agree
on the references lead to the same text and cells or to the same fault. -/
theorem evaluate_depends_on_references {t : Text} {formula : Formula} (hp : parse t = some formula)
    (lookup : Lookup) :
    (formula.evaluate lookup = ((ofFormula formula).outcome lookup).map fun text =>
      ⟨text, ((ofFormula formula).asked lookup).eraseDups⟩) ∧
    (ofFormula formula).asked lookup <+: formula.references ∧
    (∀ e, formula.evaluate lookup = .ok e → e.dependencies = formula.references.eraseDups) ∧
    ∀ other : Lookup, (∀ cell ∈ formula.references, other cell = lookup cell) →
      formula.evaluate other = formula.evaluate lookup := by
  refine ⟨evaluate_eq formula lookup, asked_isPrefix hp lookup, ?_, ?_⟩
  · intro e he
    rw [evaluate_eq] at he
    cases hr : (ofFormula formula).outcome lookup with
    | error fault => simp [hr, Except.map] at he
    | ok text =>
      rw [hr] at he
      obtain rfl := Except.ok.inj he
      rw [asked_of_ok hp hr]
  · intro other hother
    obtain ⟨houtcome, hasked⟩ := answered_alike lookup (q := ofFormula formula)
      fun key hkey => hother key ((asked_isPrefix hp lookup).subset hkey)
    rw [evaluate_eq, evaluate_eq, houtcome, hasked]

/-- The reference that is read twice is recorded once, and a division by zero comes before it. -/
theorem evaluate_depends_on_references_repeated :
    let formula : Formula :=
      .expression [['A', '1'], ['*'], ['B', '2'], ['/'], ['C', '3'], ['*'], ['A', '1']]
    parse "=A1*B2/C3*A1".toList = some formula ∧
      (∃ e, formula.evaluate (fun _ => ['2']) = .ok e ∧ e.dependencies = [⟨1, 0⟩, ⟨2, 1⟩, ⟨3, 2⟩] ∧
        ∀ other : Lookup, (∀ cell ∈ formula.references, other cell = ['2']) →
          formula.evaluate other = .ok e) ∧
      (ofFormula formula).asked (fun _ => ['0']) = [⟨1, 0⟩, ⟨2, 1⟩, ⟨3, 2⟩] ∧
      (ofFormula formula).asked (fun _ => ['0']) <+: formula.references := by
  intro formula
  have hp : parse "=A1*B2/C3*A1".toList = some formula := by decide
  have hreferences : formula.references.eraseDups = [⟨1, 0⟩, ⟨2, 1⟩, ⟨3, 2⟩] := by decide +kernel
  have hok : (formula.evaluate fun _ => ['2']).isOk := by decide +kernel
  obtain ⟨-, -, hcells, hagree⟩ := evaluate_depends_on_references hp fun _ => ['2']
  obtain ⟨-, hprefix, -, -⟩ := evaluate_depends_on_references hp fun _ => ['0']
  refine ⟨hp, ?_, by decide +kernel, hprefix⟩
  cases he : formula.evaluate fun _ => ['2'] with
  | error fault => simp [he, Except.isOk, Except.toBool] at hok
  | ok e =>
    refine ⟨e, rfl, by rw [hcells e he, hreferences], fun other hother => ?_⟩
    rw [hagree other hother, he]

end Formula

end FormulaGrid
