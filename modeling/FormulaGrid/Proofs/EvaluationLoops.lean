import FormulaGrid.Proofs.ReadingFrame

/-!
# The passes as loops

The two passes of an evaluation as loops with an index. The first folds products in place, so that the list
gets shorter while the index stays where it is; the second goes through a list that does not change. Both
come to exactly one end from any token list, namely that of the recursive passes.
-/
namespace FormulaGrid.Evaluation
open Formula

section Loop

variable {σ α β : Type} {turn : σ → Reading (σ ⊕ α)} {s : σ}

/-- How a loop ends that begins in a state. A turn leads to the next state or to the result, or it fails. -/
inductive Loops (turn : σ → Reading (σ ⊕ α)) :
    σ → List CellKey → Except Fault (α × List CellKey) → Prop
  | turns {s s' before between outcome} (h : turn s before = .ok (.inl s', between))
    (rest : Loops turn s' between outcome) : Loops turn s before outcome
  | returns {s a before after} (h : turn s before = .ok (.inr a, after)) :
    Loops turn s before (.ok (a, after))
  | fails {s fault before} (h : turn s before = .error fault) : Loops turn s before (.error fault)

theorem Loops.unique {cells : List CellKey} {outcome other : Except Fault (α × List CellKey)}
    (h : Loops turn s cells outcome) (hother : Loops turn s cells other) : outcome = other := by
  induction h with
  | turns h _ ih =>
    cases hother with
    | turns h' rest' =>
      obtain ⟨rfl, rfl⟩ : _ ∧ _ := by simpa [h] using h'
      exact ih rest'
    | returns h' => simp [h] at h'
    | fails h' => simp [h] at h'
  | returns h =>
    cases hother with
    | turns h' _ => simp [h] at h'
    | returns h' => simpa [h] using h'
    | fails h' => simp [h] at h'
  | fails h =>
    cases hother with
    | turns h' _ => simp [h] at h'
    | returns h' => simp [h] at h'
    | fails h' => simpa [h] using h'

/-- A loop comes to the end of a reading. -/
def Follows (turn : σ → Reading (σ ⊕ α)) (s : σ) (m : Reading α) : Prop :=
  ∀ cells, Loops turn s cells (m cells)

theorem Follows.iff {m : Reading α} (h : Follows turn s m) {cells : List CellKey}
    {outcome : Except Fault (α × List CellKey)} :
    Loops turn s cells outcome ↔ outcome = m cells := by
  constructor
  · exact fun houtcome => houtcome.unique (h cells)
  · rintro rfl
    exact h cells

theorem follows_pure {a : α} (hturn : turn s = pure (.inr a)) : Follows turn s (pure a) :=
  fun _ => .returns (by rw [hturn]; rfl)

theorem follows_failure {m : Reading β} {e : FormulaError} (hturn : turn s = m >>= fun _ => failure e) :
    Follows turn s (m >>= fun _ => failure e) := by
  intro cells
  cases hm : m cells with
  | error fault =>
    rw [bind_of_error hm]
    exact .fails (by rw [hturn, bind_of_error hm])
  | ok result =>
    rw [bind_of_ok hm]
    exact .fails (by rw [hturn, bind_of_ok hm]; rfl)

theorem follows_next {s' : σ} {m : Reading α} (hturn : turn s = pure (.inl s'))
    (hrest : Follows turn s' m) : Follows turn s m :=
  fun cells => .turns (by rw [hturn]; rfl) (hrest cells)

/-- A turn that goes on does the first part of a reading, and the other turns do the rest. -/
theorem follows_bind {m : Reading β} {state : β → σ} {rest : β → Reading α}
    (hturn : turn s = m >>= fun b => pure (.inl (state b)))
    (hrest : ∀ b, Follows turn (state b) (rest b)) : Follows turn s (m >>= rest) := by
  intro cells
  cases hm : m cells with
  | error fault =>
    rw [bind_of_error hm]
    exact .fails (by rw [hturn, bind_of_error hm])
  | ok result =>
    rw [bind_of_ok hm]
    exact .turns (by rw [hturn, bind_of_ok hm]; rfl) (hrest result.1 result.2)

end Loop

theorem failure_bind {α β : Type} (e : FormulaError) (f : α → Reading β) :
    (failure e : Reading α) >>= f = failure e := rfl

variable {lookup : Lookup}

def operandAt (tokens : List Text) (i : Nat) : Reading Text :=
  match tokens[i]? with
  | none => failure .missingOperand
  | some token => pure token

/-- A turn of the first pass. The result of a product takes the place of its factors and of the operator,
and the next operator then has the index of this one. -/
def foldTurn (lookup : Lookup) : Nat × List Text → Reading ((Nat × List Text) ⊕ List Text)
  | (i, tokens) =>
    match tokens[i]? with
    | none => return .inr tokens
    | some operator =>
      if operator = ['*'] ∨ operator = ['/'] then do
        let x ← operand lookup (tokens.getD (i - 1) [])
        let right ← operandAt tokens (i + 1)
        let y ← operand lookup right
        let z ← if operator = ['/'] then divide x y else pure (x.mul y)
        return .inl (i, tokens.take (i - 1) ++ NumberDisplay.display z :: tokens.drop (i + 2))
      else return .inl (i + 2, tokens)

/-- A turn of the second pass. -/
def addTurn (lookup : Lookup) (tokens : List Text) : Nat × Binary64 → Reading ((Nat × Binary64) ⊕ Binary64)
  | (i, total) =>
    match tokens[i]? with
    | none => return .inr total
    | some operator => do
      let right ← operandAt tokens (i + 1)
      let y ← operand lookup right
      return .inl (i + 2, if operator = ['+'] then total.add y else total.sub y)

section Turns

variable (done : List Text) (left right operator : Text) (rest : List Text)

theorem foldTurn_of_length_le {i : Nat} {tokens : List Text} (h : tokens.length ≤ i) :
    foldTurn lookup (i, tokens) = pure (.inr tokens) := by
  simp only [foldTurn, List.getElem?_eq_none h]

theorem foldTurn_missing (h : operator = ['*'] ∨ operator = ['/']) :
    foldTurn lookup (done.length + 1, done ++ [left, operator]) =
      operand lookup left >>= fun _ => failure .missingOperand := by
  simp [foldTurn, operandAt, h, failure_bind]

theorem foldTurn_times_cons :
    foldTurn lookup (done.length + 1, done ++ left :: ['*'] :: right :: rest) =
      (operand lookup left >>= fun x => operand lookup right >>= fun y => pure (x.mul y)) >>= fun z =>
        pure (.inl (done.length + 1, done ++ NumberDisplay.display z :: rest)) := by
  simp [foldTurn, operandAt, Nat.add_assoc]

theorem foldTurn_over_cons :
    foldTurn lookup (done.length + 1, done ++ left :: ['/'] :: right :: rest) =
      (operand lookup left >>= fun x => operand lookup right >>= fun y => divide x y) >>= fun z =>
        pure (.inl (done.length + 1, done ++ NumberDisplay.display z :: rest)) := by
  simp [foldTurn, operandAt, Nat.add_assoc]

theorem foldTurn_other (htimes : operator ≠ ['*']) (hover : operator ≠ ['/']) :
    foldTurn lookup (done.length + 1, done ++ left :: operator :: rest) =
      pure (.inl (done.length + 1 + 2, done ++ left :: operator :: rest)) := by
  simp [foldTurn, htimes, hover]

end Turns

/-- From any index on, the first loop does what the first pass does with the tokens from the one before the
index on, and keeps those further left. -/
theorem follows_foldProducts (lookup : Lookup) (done : List Text) (left : Text) (tokens : List Text) :
    Follows (foldTurn lookup) (done.length + 1, done ++ left :: tokens)
      (foldProducts lookup left tokens >>= fun terms => pure (done ++ terms)) := by
  induction left, tokens using foldProducts_induction generalizing done with
  | nil left => exact follows_pure (foldTurn_of_length_le (by simp))
  | product_nil left =>
    rw [foldProducts_times_nil, bind_assoc]
    exact follows_failure (foldTurn_missing done left ['*'] (by simp))
  | quotient_nil left =>
    rw [foldProducts_over_nil, bind_assoc]
    exact follows_failure (foldTurn_missing done left ['/'] (by simp))
  | other_nil left operator htimes hover =>
    rw [foldProducts.eq_4 _ _ _ htimes hover, pure_bind]
    exact follows_next (foldTurn_other done left operator [] htimes hover)
      (follows_pure (foldTurn_of_length_le (by simp)))
  | product left right rest ih =>
    have hsplit : foldProducts lookup left (['*'] :: right :: rest) =
        (operand lookup left >>= fun x => operand lookup right >>= fun y => pure (x.mul y)) >>= fun z =>
          foldProducts lookup (NumberDisplay.display z) rest := by simp [foldProducts_times_cons]
    rw [hsplit, bind_assoc]
    exact follows_bind (foldTurn_times_cons done left right rest) fun z => ih _ done
  | quotient left right rest ih =>
    have hsplit : foldProducts lookup left (['/'] :: right :: rest) =
        (operand lookup left >>= fun x => operand lookup right >>= fun y => divide x y) >>= fun z =>
          foldProducts lookup (NumberDisplay.display z) rest := by simp [foldProducts_over_cons]
    rw [hsplit, bind_assoc]
    exact follows_bind (foldTurn_over_cons done left right rest) fun z => ih _ done
  | other left operator right rest htimes hover ih =>
    have hnext := ih (done ++ [left, operator])
    rw [foldProducts.eq_5 _ _ _ _ _ htimes hover]
    have hlength : (done ++ [left, operator]).length = done.length + 2 := by simp
    simp only [hlength, bind_assoc, pure_bind, List.append_assoc, List.cons_append, List.nil_append]
      at hnext ⊢
    exact follows_next (foldTurn_other done left operator (right :: rest) htimes hover) hnext

/-- The loop over any token list ends as the first pass does, and in no other way. -/
theorem loops_foldTurn_iff {tokens : List Text} {cells : List CellKey}
    {outcome : Except Fault (List Text × List CellKey)} :
    Loops (foldTurn lookup) (1, tokens) cells outcome ↔ outcome = products lookup tokens cells := by
  cases tokens with
  | nil => exact (follows_pure (foldTurn_of_length_le (by simp))).iff
  | cons first tokens =>
    have hfollows := follows_foldProducts lookup [] first tokens
    simp only [List.nil_append, bind_pure] at hfollows
    exact hfollows.iff

theorem follows_foldTerms (done tokens : List Text) (total : Binary64) :
    Follows (addTurn lookup (done ++ tokens)) (done.length, total) (foldTerms lookup total tokens) := by
  induction tokens using List.twoStepInduction generalizing done total with
  | nil => exact follows_pure (by simp [addTurn])
  | singleton operator =>
    have hturn : addTurn lookup (done ++ [operator]) (done.length, total) =
        pure () >>= fun _ => failure .missingOperand := by simp [addTurn, operandAt, failure_bind]
    exact follows_failure hturn
  | cons_cons operator right rest ih _ =>
    have hnext := fun total => ih (done ++ [operator, right]) total
    simp only [List.length_append, List.length_cons, List.length_nil, List.append_assoc,
      List.cons_append, List.nil_append] at hnext
    have hturn : addTurn lookup (done ++ operator :: right :: rest) (done.length, total) =
        operand lookup right >>= fun y =>
          pure (.inl (done.length + 2, if operator = ['+'] then total.add y else total.sub y)) := by
      simp [addTurn, operandAt]
    exact follows_bind hturn fun y => hnext _

/-- The loop over all tokens but the first ends as the second pass does, and in no other way. -/
theorem loops_addTurn_iff {first : Text} {rest : List Text} {total : Binary64} {cells : List CellKey}
    {outcome : Except Fault (Binary64 × List CellKey)} :
    Loops (addTurn lookup (first :: rest)) (1, total) cells outcome ↔
      outcome = foldTerms lookup total rest cells :=
  (follows_foldTerms [first] rest total).iff

end FormulaGrid.Evaluation
