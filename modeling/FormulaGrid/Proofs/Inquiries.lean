import FormulaGrid.Proofs.ReadingFrame

/-!
# Inquiries

An evaluation seen as an inquiry, which has no lookup at hand but has to ask for the text of each cell that
it wants. Answered by a lookup, the inquiry of a formula comes to what the formula evaluates to, and the
formula depends on the cells that were asked for; lookups that agree on these lead to the same end.
-/
namespace FormulaGrid

/-- A computation that gets to know texts by asking for them, one cell after the other. -/
inductive Inquiry (α : Type) where
  | done (a : α)
  | stop (fault : Fault)
  | ask (key : CellKey) (next : Text → Inquiry α)

namespace Inquiry

variable {α β : Type}

def bind : Inquiry α → (α → Inquiry β) → Inquiry β
  | done a, f => f a
  | stop fault, _ => stop fault
  | ask key next, f => ask key fun text => (next text).bind f

instance : Monad Inquiry where
  pure := done
  bind := bind

/-- What the inquiry comes to when a lookup answers it. -/
def outcome (lookup : Lookup) : Inquiry α → Except Fault α
  | done a => .ok a
  | stop fault => .error fault
  | ask key next => (next (lookup key)).outcome lookup

/-- The cells that the inquiry asks a lookup for, in this order, up to its result or its fault. -/
def asked (lookup : Lookup) : Inquiry α → List CellKey
  | done _ => []
  | stop _ => []
  | ask key next => key :: (next (lookup key)).asked lookup

def resolve (token : Text) : Inquiry Text :=
  let token := Text.trim token
  if Reference.isReference token then
    match CellKey.ofReference token with
    | .ok key => ask key fun raw => done (Evaluation.numericText raw)
    | .error fault => stop fault
  else done token

def operand (token : Text) : Inquiry Binary64 := do
  let text ← resolve token
  return readNumber text

def failure (e : FormulaError) : Inquiry α := stop (.formula e)

def divide (x y : Binary64) : Inquiry Binary64 :=
  if y.isZero then failure .divisionByZero else done (x.div y)

/-- The first pass over the tokens of an expression. -/
def foldProducts (left : Text) : List Text → Inquiry (List Text)
  | [] => pure [left]
  | ['*'] :: rest => do
    let x ← operand left
    match rest with
    | [] => failure .missingOperand
    | right :: rest =>
      let y ← operand right
      foldProducts (NumberDisplay.display (x.mul y)) rest
  | ['/'] :: rest => do
    let x ← operand left
    match rest with
    | [] => failure .missingOperand
    | right :: rest =>
      let y ← operand right
      let z ← divide x y
      foldProducts (NumberDisplay.display z) rest
  | [operator] => pure [left, operator]
  | operator :: next :: rest => do
    let tokens ← foldProducts next rest
    return left :: operator :: tokens

/-- The second pass. -/
def foldTerms (total : Binary64) : List Text → Inquiry Binary64
  | [] => pure total
  | [_] => failure .missingOperand
  | operator :: right :: rest => do
    let y ← operand right
    foldTerms (if operator = ['+'] then total.add y else total.sub y) rest

def sum : List Text → Inquiry Binary64
  | [] => failure .emptyFormula
  | first :: rest => do
    let x ← operand first
    foldTerms x rest

def products : List Text → Inquiry (List Text)
  | [] => pure []
  | first :: rest => foldProducts first rest

/-- The evaluation of a formula as an inquiry. -/
def ofFormula : Formula → Inquiry Text
  | .value token => resolve token
  | .expression tokens => do
    let terms ← products tokens
    let total ← sum terms
    return NumberDisplay.display total

section Answers

variable (lookup : Lookup)

theorem outcome_bind (q : Inquiry α) (f : α → Inquiry β) :
    (q >>= f).outcome lookup = q.outcome lookup >>= fun a => (f a).outcome lookup := by
  induction q with
  | done a => rfl
  | stop fault => rfl
  | ask key next ih => exact ih (lookup key)

theorem asked_bind_of_ok {q : Inquiry α} {a : α} (h : q.outcome lookup = .ok a) (f : α → Inquiry β) :
    (q >>= f).asked lookup = q.asked lookup ++ (f a).asked lookup := by
  induction q with
  | done b =>
    obtain rfl := Except.ok.inj h
    rfl
  | stop fault => cases h
  | ask key next ih => exact congrArg (key :: ·) (ih (lookup key) h)

theorem asked_bind_of_error {q : Inquiry α} {fault : Fault} (h : q.outcome lookup = .error fault)
    (f : α → Inquiry β) : (q >>= f).asked lookup = q.asked lookup := by
  induction q with
  | done b => cases h
  | stop fault => rfl
  | ask key next ih => exact congrArg (key :: ·) (ih (lookup key) h)

/-- Lookups that agree on the cells asked for answer alike, and are asked for the same cells. -/
theorem answered_alike {q : Inquiry α} {other : Lookup}
    (h : ∀ key ∈ q.asked lookup, other key = lookup key) :
    q.outcome other = q.outcome lookup ∧ q.asked other = q.asked lookup := by
  induction q with
  | done a => exact ⟨rfl, rfl⟩
  | stop fault => exact ⟨rfl, rfl⟩
  | ask key next ih =>
    obtain ⟨hkey, hnext⟩ := List.forall_mem_cons.mp h
    simp only [outcome, asked, hkey]
    obtain ⟨houtcome, hasked⟩ := ih (lookup key) hnext
    exact ⟨houtcome, congrArg (key :: ·) hasked⟩

end Answers

/-- All cells of a list are noted one after the other. -/
def noteAll (asked cells : List CellKey) : List CellKey :=
  asked.foldl (fun cells key => Evaluation.note key cells) cells

theorem noteAll_append (first second cells : List CellKey) :
    noteAll (first ++ second) cells = noteAll second (noteAll first cells) :=
  List.foldl_append

/-- Cells are noted in the order in which they first occur. -/
theorem noteAll_eq (asked cells : List CellKey) :
    noteAll asked cells = cells ++ (asked.filter (· ∉ cells)).eraseDups := by
  induction asked generalizing cells with
  | nil => simp [noteAll]
  | cons key asked ih =>
    have hcons : noteAll (key :: asked) cells = noteAll asked (Evaluation.note key cells) := rfl
    rw [hcons, ih, Evaluation.note]
    by_cases hkey : key ∈ cells
    · simp [hkey]
    · have hfilter : asked.filter (· ∉ cells ++ [key]) =
          (asked.filter (· ∉ cells)).filter fun other => !other == key := by
        rw [List.filter_filter]
        apply List.filter_congr
        intro other _
        by_cases h : other = key <;> simp [h]
      rw [if_neg hkey, hfilter, List.filter_cons_of_pos (by simpa using hkey), List.eraseDups_cons,
        List.append_assoc, List.singleton_append]

section Realized

variable {lookup : Lookup} {left operator right : Text} {rest : List Text}

/-- A reading does what an inquiry comes to, and notes the cells that the inquiry asks for. -/
def Realizes (lookup : Lookup) (m : Reading α) (q : Inquiry α) : Prop :=
  ∀ cells, m cells = (q.outcome lookup).map fun a => (a, noteAll (q.asked lookup) cells)

theorem realizes_done (a : α) : Realizes lookup (Pure.pure a) (done a) := fun _ => rfl

theorem realizes_failure (e : FormulaError) :
    Realizes lookup (Evaluation.failure e : Reading α) (failure e) := fun _ => rfl

theorem realizes_bind {m : Reading α} {q : Inquiry α} {f : α → Reading β} {g : α → Inquiry β}
    (hm : Realizes lookup m q) (hf : ∀ a, Realizes lookup (f a) (g a)) :
    Realizes lookup (m >>= f) (q >>= g) := by
  intro cells
  have hfirst := hm cells
  rw [outcome_bind]
  cases hq : q.outcome lookup with
  | error fault =>
    rw [hq] at hfirst
    exact Evaluation.bind_of_error hfirst
  | ok a =>
    rw [hq] at hfirst
    simp only [Evaluation.bind_of_ok hfirst, asked_bind_of_ok lookup hq, noteAll_append]
    exact hf a _

theorem resolve_literal {token : Text} (href : Reference.isReference (Text.trim token) = false) :
    resolve token = done (Text.trim token) := by
  simp only [resolve, href]
  rfl

theorem resolve_reference {token : Text} {key : CellKey} (href : Reference.isReference (Text.trim token))
    (hkey : CellKey.ofReference (Text.trim token) = .ok key) :
    resolve token = ask key fun raw => done (Evaluation.numericText raw) := by
  simp only [resolve, href, hkey, if_true]

theorem resolve_overlong {token : Text} {fault : Fault} (href : Reference.isReference (Text.trim token))
    (hkey : CellKey.ofReference (Text.trim token) = .error fault) : resolve token = stop fault := by
  simp only [resolve, href, hkey, if_true]

theorem realizes_resolve (token : Text) :
    Realizes lookup (Evaluation.resolve lookup token) (resolve token) := by
  intro cells
  cases href : Reference.isReference (Text.trim token) with
  | false =>
    rw [Evaluation.resolve_literal cells href, resolve_literal href]
    rfl
  | true =>
    cases hkey : CellKey.ofReference (Text.trim token) with
    | error fault =>
      rw [Evaluation.resolve_overlong cells href hkey, resolve_overlong href hkey]
      rfl
    | ok key =>
      rw [Evaluation.resolve_reference cells href hkey, resolve_reference href hkey]
      rfl

theorem realizes_operand (token : Text) :
    Realizes lookup (Evaluation.operand lookup token) (operand token) :=
  realizes_bind (realizes_resolve token) fun _ => realizes_done _

theorem realizes_divide (x y : Binary64) :
    Realizes lookup (Evaluation.divide x y) (divide x y) := by
  unfold Evaluation.divide divide
  split
  · exact realizes_failure _
  · exact realizes_done _

theorem foldProducts_single (htimes : operator ≠ ['*']) (hover : operator ≠ ['/']) :
    foldProducts left [operator] = done [left, operator] :=
  foldProducts.eq_4 _ _ htimes hover

theorem foldProducts_other (htimes : operator ≠ ['*']) (hover : operator ≠ ['/']) :
    foldProducts left (operator :: right :: rest) =
      foldProducts right rest >>= fun tokens => done (left :: operator :: tokens) :=
  foldProducts.eq_5 _ _ _ _ htimes hover

theorem realizes_foldProducts (left : Text) (tokens : List Text) :
    Realizes lookup (Evaluation.foldProducts lookup left tokens) (foldProducts left tokens) := by
  induction left, tokens using Evaluation.foldProducts_induction with
  | nil left => exact realizes_done _
  | product_nil left => exact realizes_bind (realizes_operand left) fun _ => realizes_failure _
  | quotient_nil left => exact realizes_bind (realizes_operand left) fun _ => realizes_failure _
  | other_nil left operator htimes hover =>
    rw [Evaluation.foldProducts.eq_4 _ _ _ htimes hover, foldProducts_single htimes hover]
    exact realizes_done _
  | product left right rest ih =>
    exact realizes_bind (realizes_operand left) fun x =>
      realizes_bind (realizes_operand right) fun y => ih _
  | quotient left right rest ih =>
    exact realizes_bind (realizes_operand left) fun x =>
      realizes_bind (realizes_operand right) fun y =>
        realizes_bind (realizes_divide x y) fun z => ih _
  | other left operator right rest htimes hover ih =>
    rw [Evaluation.foldProducts.eq_5 _ _ _ _ _ htimes hover, foldProducts_other htimes hover]
    exact realizes_bind ih fun _ => realizes_done _

theorem realizes_foldTerms (total : Binary64) (tokens : List Text) :
    Realizes lookup (Evaluation.foldTerms lookup total tokens) (foldTerms total tokens) := by
  induction tokens using List.twoStepInduction generalizing total with
  | nil => exact realizes_done _
  | singleton operator => exact realizes_failure _
  | cons_cons operator right rest ih _ =>
    exact realizes_bind (realizes_operand right) fun y => ih _

theorem realizes_products (tokens : List Text) :
    Realizes lookup (Evaluation.products lookup tokens) (products tokens) := by
  cases tokens with
  | nil => exact realizes_done _
  | cons first rest => exact realizes_foldProducts first rest

theorem realizes_sum (tokens : List Text) :
    Realizes lookup (Evaluation.sum lookup tokens) (sum tokens) := by
  cases tokens with
  | nil => exact realizes_failure _
  | cons first rest => exact realizes_bind (realizes_operand first) fun x => realizes_foldTerms x rest

theorem realizes_ofFormula (formula : Formula) :
    Realizes lookup (Evaluation.reading lookup formula) (ofFormula formula) := by
  cases formula with
  | value token => exact realizes_resolve token
  | expression tokens =>
    exact realizes_bind (realizes_products tokens) fun terms =>
      realizes_bind (realizes_sum terms) fun _ => realizes_done _

end Realized

/-- An evaluation depends on the cells that its inquiry asks for. -/
theorem evaluate_eq (formula : Formula) (lookup : Lookup) :
    formula.evaluate lookup = ((ofFormula formula).outcome lookup).map fun text =>
      ⟨text, ((ofFormula formula).asked lookup).eraseDups⟩ := by
  have hnotes : noteAll ((ofFormula formula).asked lookup) [] =
      ((ofFormula formula).asked lookup).eraseDups := by simp [noteAll_eq]
  rw [Formula.evaluate, realizes_ofFormula formula [], hnotes]
  cases (ofFormula formula).outcome lookup <;> rfl

end Inquiry

end FormulaGrid
