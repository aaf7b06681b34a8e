import FormulaGrid.Proofs.ReadingFrame
import FormulaGrid.Proofs.ReadingOutcomes
import FormulaGrid.Proofs.ReferenceCodec

/-!
# Overlong operands

The only fault that stops an evaluation and is not displayed is a row of more digits than are converted.
An evaluation that gets a result has read every operand, products first, so none of them is overlong; and
an evaluation that such a number stops has an operand that is.
-/
namespace FormulaGrid

namespace Formula

/-- A reference whose row has more digits than are converted. -/
def Overlong (token : Text) : Prop :=
  ∃ label digits, Reference.split? (Text.trim token) = some (label, digits) ∧
    IntegerText.digitLimit < digits.length

theorem not_overlong_of_not_isReference {token : Text}
    (h : Reference.isReference (Text.trim token) = false) : ¬Overlong token := by
  rintro ⟨label, digits, hsplit, -⟩
  simp [Reference.isReference, hsplit] at h

theorem not_overlong_of_short {token label digits : Text}
    (hsplit : Reference.split? (Text.trim token) = some (label, digits))
    (hshort : digits.length ≤ IntegerText.digitLimit) : ¬Overlong token := by
  rintro ⟨label', digits', hsplit', hlong⟩
  obtain ⟨rfl, rfl⟩ := Prod.mk.inj (Option.some.inj (hsplit.symm.trans hsplit'))
  omega

theorem not_overlong_display (x : Binary64) : ¬Overlong (NumberDisplay.display x) :=
  not_overlong_of_not_isReference (NumberDisplay.display_not_isReference x)

end Formula

namespace Evaluation
open Formula

variable {α β : Type} {bad : Prop} {property : α → Prop} {lookup : Lookup} {token left : Text}
  {tokens : List Text}

/-- What stops an evaluation: a failure that is displayed, or a number too long to be read. -/
def Stops (bad : Prop) (fault : Fault) : Prop :=
  (∃ e, fault = .formula e) ∨ fault = .numeralTooLong ∧ bad

/-- Every result of a reading has a property, and only certain faults stop it. -/
def Yields (bad : Prop) (property : α → Prop) (m : Reading α) : Prop :=
  ∀ cells, match m cells with
    | .ok (a, _) => property a
    | .error fault => Stops bad fault

theorem yields_iff_ends {m : Reading α} :
    Yields bad property m ↔ Ends (Stops bad) property m := Iff.rfl

theorem yields_pure {a : α} (h : property a) : Yields bad property (pure a) :=
  yields_iff_ends.mpr (ends_pure h)

theorem yields_failure (e : FormulaError) : Yields bad property (failure e) :=
  yields_iff_ends.mpr (ends_failure (Or.inl ⟨e, rfl⟩))

theorem yields_bind {next : β → Prop} {m : Reading α} {f : α → Reading β}
    (hm : Yields bad property m) (hf : ∀ a, property a → Yields bad next (f a)) :
    Yields bad next (m >>= f) :=
  yields_iff_ends.mpr (ends_bind (yields_iff_ends.mp hm) fun a ha => yields_iff_ends.mp (hf a ha))

theorem Yields.mono {other : α → Prop} {m : Reading α} (h : Yields bad property m)
    (himp : ∀ a, property a → other a) : Yields bad other m :=
  yields_iff_ends.mpr ((yields_iff_ends.mp h).mono himp)

theorem yields_resolve (hbad : Overlong token → bad) :
    Yields bad (fun _ => ¬Overlong token) (resolve lookup token) := by
  intro cells
  cases href : Reference.isReference (Text.trim token) with
  | false =>
    rw [resolve_literal cells href]
    exact not_overlong_of_not_isReference href
  | true =>
    obtain ⟨⟨label, digits⟩, hsplit⟩ := Option.isSome_iff_exists.mp href
    by_cases hshort : digits.length ≤ IntegerText.digitLimit
    · rw [resolve_reference cells href (CellKey.ofReference_short hsplit hshort)]
      exact not_overlong_of_short hsplit hshort
    · have hlong : IntegerText.digitLimit < digits.length := by omega
      rw [resolve_overlong cells href (CellKey.ofReference_overlong hsplit hlong)]
      exact Or.inr ⟨rfl, hbad ⟨label, digits, hsplit, hlong⟩⟩

theorem yields_operand (hbad : Overlong token → bad) :
    Yields bad (fun _ => ¬Overlong token) (operand lookup token) := by
  have hbind : operand lookup token =
      resolve lookup token >>= fun text => pure (readNumber text) := rfl
  rw [hbind]
  apply yields_bind (yields_resolve hbad)
  intro text h
  exact yields_pure h

theorem yields_divide (x y : Binary64) : Yields bad (fun _ => True) (divide x y) :=
  yields_iff_ends.mpr ((ends_divide fun _ => Or.inl ⟨_, rfl⟩).mono fun _ _ => trivial)

/-- Token lists with the same overlong operands. -/
def SameOverlong (tokens terms : List Text) : Prop :=
  ∀ token, Overlong token → (token ∈ evenTokens tokens ↔ token ∈ evenTokens terms)

theorem mem_cons_of_overlong {token other : Text} {tokens : List Text} (h : Overlong token)
    (hother : ¬Overlong other) : token ∈ other :: tokens ↔ token ∈ tokens := by
  have hne : token ≠ other := fun heq => hother (heq ▸ h)
  simp [hne]

/-- A product that was read leaves no overlong operand out, since there was none in it. -/
theorem sameOverlong_product {x : Binary64} {operator right : Text} {rest terms : List Text}
    (hleft : ¬Overlong left) (hright : ¬Overlong right)
    (h : SameOverlong (NumberDisplay.display x :: rest) terms) :
    SameOverlong (left :: operator :: right :: rest) terms := by
  intro token htoken
  rw [← h token htoken]
  simp only [evenTokens_cons, List.drop_succ_cons, List.drop_zero,
    mem_cons_of_overlong htoken hleft, mem_cons_of_overlong htoken hright,
    mem_cons_of_overlong htoken (not_overlong_display x)]

theorem yields_foldProducts (tokens : List Text) (left : Text)
    (hbad : ∀ token ∈ evenTokens (left :: tokens), Overlong token → bad) :
    Yields bad (SameOverlong (left :: tokens)) (foldProducts lookup left tokens) := by
  simp only [evenTokens_cons, List.forall_mem_cons] at hbad
  induction left, tokens using foldProducts_induction with
  | nil left => exact yields_pure fun _ _ => Iff.rfl
  | product_nil left => exact yields_bind (yields_operand hbad.1) fun _ _ => yields_failure _
  | quotient_nil left => exact yields_bind (yields_operand hbad.1) fun _ _ => yields_failure _
  | other_nil left operator htimes hover =>
    rw [foldProducts.eq_4 _ _ _ htimes hover]
    exact yields_pure fun _ _ => Iff.rfl
  | product left right rest ih =>
    simp only [List.drop_succ_cons, List.drop_zero, evenTokens_cons, List.forall_mem_cons] at hbad
    rw [foldProducts_times_cons]
    apply yields_bind (yields_operand hbad.1)
    intro x hx
    apply yields_bind (yields_operand hbad.2.1)
    intro y hy
    have hproduct := ih _ ⟨fun h => absurd h (not_overlong_display (x.mul y)), hbad.2.2⟩
    exact hproduct.mono fun _ => sameOverlong_product hx hy
  | quotient left right rest ih =>
    simp only [List.drop_succ_cons, List.drop_zero, evenTokens_cons, List.forall_mem_cons] at hbad
    rw [foldProducts_over_cons]
    apply yields_bind (yields_operand hbad.1)
    intro x hx
    apply yields_bind (yields_operand hbad.2.1)
    intro y hy
    apply yields_bind (yields_divide x y)
    intro z _
    have hquotient := ih _ ⟨fun h => absurd h (not_overlong_display z), hbad.2.2⟩
    exact hquotient.mono fun _ => sameOverlong_product hx hy
  | other left operator right rest htimes hover ih =>
    simp only [List.drop_succ_cons, List.drop_zero, evenTokens_cons, List.forall_mem_cons] at hbad
    rw [foldProducts.eq_5 _ _ _ _ _ htimes hover]
    apply yields_bind (ih hbad.2)
    intro terms hterms
    apply yields_pure
    intro token htoken
    simp only [evenTokens_cons left, List.drop_succ_cons, List.drop_zero, List.mem_cons,
      hterms token htoken]

theorem yields_foldTerms (tokens : List Text) : ∀ total,
    (∀ token ∈ evenTokens (tokens.drop 1), Overlong token → bad) →
      Yields bad (fun _ => ∀ token ∈ evenTokens (tokens.drop 1), ¬Overlong token)
        (foldTerms lookup total tokens) := by
  induction tokens using List.twoStepInduction with
  | nil => exact fun _ _ => yields_pure (by simp [evenTokens])
  | singleton operator => exact fun _ _ => yields_failure _
  | cons_cons operator right rest ih _ =>
    intro total hbad
    simp only [List.drop_succ_cons, List.drop_zero, evenTokens_cons, List.forall_mem_cons] at hbad ⊢
    simp only [foldTerms]
    apply yields_bind (yields_operand hbad.1)
    intro y hy
    exact (ih _ hbad.2).mono fun _ hrest => ⟨hy, hrest⟩

theorem yields_products (hbad : ∀ token ∈ evenTokens tokens, Overlong token → bad) :
    Yields bad (SameOverlong tokens) (products lookup tokens) := by
  cases tokens with
  | nil => exact yields_pure fun _ _ => Iff.rfl
  | cons first tokens => exact yields_foldProducts tokens first hbad

theorem yields_sum (hbad : ∀ token ∈ evenTokens tokens, Overlong token → bad) :
    Yields bad (fun _ => ∀ token ∈ evenTokens tokens, ¬Overlong token) (sum lookup tokens) := by
  cases tokens with
  | nil => exact yields_failure _
  | cons first tokens =>
    simp only [evenTokens_cons, List.forall_mem_cons] at hbad ⊢
    apply yields_bind (yields_operand hbad.1)
    intro x hx
    exact (yields_foldTerms tokens x hbad.2).mono fun _ hrest => ⟨hx, hrest⟩

/-- An evaluation that gets a result has no overlong operand, and one that a number stops has. -/
theorem yields_reading (lookup : Lookup) (formula : Formula) :
    Yields (∃ token ∈ formula.operands, Overlong token)
      (fun _ => ∀ token ∈ formula.operands, ¬Overlong token) (reading lookup formula) := by
  cases formula with
  | value token =>
    apply (yields_resolve fun h => ⟨token, by simp [operands], h⟩).mono
    simp [operands]
  | expression tokens =>
    apply yields_bind (yields_products fun token htoken h => ⟨token, htoken, h⟩)
    intro terms hterms
    apply yields_bind (yields_sum fun token htoken h => ⟨token, (hterms token h).mpr htoken, h⟩)
    intro total htotal
    exact yields_pure fun token htoken h => htotal token ((hterms token h).mp htoken) h

end Evaluation

namespace Formula
open Evaluation

/-- A number stops an evaluation exactly when an operand is overlong and no displayed failure comes
before it. -/
theorem evaluate_eq_numeralTooLong_iff (formula : Formula) (lookup : Lookup) :
    formula.evaluate lookup = .error .numeralTooLong ↔
      (∃ token ∈ formula.operands, Overlong token) ∧
        ∀ e, formula.evaluate lookup ≠ .error (.formula e) := by
  rcases evaluate_of_ends (yields_iff_ends.mp (yields_reading lookup formula)) with
    ⟨e, hevaluate, hshort⟩ | ⟨fault, hevaluate, ⟨e, rfl⟩ | ⟨rfl, hlong⟩⟩
  · simp only [hevaluate, reduceCtorEq, false_iff]
    rintro ⟨⟨token, htoken, hlong⟩, -⟩
    exact hshort token htoken hlong
  · simp [hevaluate]
  · simp [hevaluate, hlong]

theorem evaluate_fault {formula : Formula} {lookup : Lookup} {fault : Fault}
    (h : formula.evaluate lookup = .error fault) :
    (∃ e, fault = .formula e) ∨ fault = .numeralTooLong := by
  rcases evaluate_of_ends (yields_iff_ends.mp (yields_reading lookup formula)) with
    ⟨e, hevaluate, -⟩ | ⟨other, hevaluate, hstops⟩
  · simp [hevaluate] at h
  · obtain rfl := Except.error.inj (hevaluate.symm.trans h)
    exact hstops.imp_right And.left

end Formula

end FormulaGrid
