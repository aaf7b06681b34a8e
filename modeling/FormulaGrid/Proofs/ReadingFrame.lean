import FormulaGrid.Evaluation
import FormulaGrid.Proofs.NumberLayout
import Mathlib.Data.List.Induction

/-!
# What an evaluation reads

A reading that succeeds has looked at no cell that it does not note, so it has the same outcome for all
lookups that agree on the noted cells. Each of them is noted once, and all of them are references among
the operands. The text of a formula that evaluates is never empty.
-/
namespace FormulaGrid

namespace Formula

/-- The cell that an operand refers to. -/
def cell? (token : Text) : Option CellKey :=
  if Reference.isReference (Text.trim token) then (CellKey.ofReference (Text.trim token)).toOption
  else none

/-- The tokens at the even places of a list. -/
def evenTokens : List Text → List Text
  | [] => []
  | [token] => [token]
  | token :: _ :: tokens => token :: evenTokens tokens

theorem evenTokens_cons (token : Text) (tokens : List Text) :
    evenTokens (token :: tokens) = token :: evenTokens (tokens.drop 1) := by
  cases tokens <;> rfl

/-- The tokens of a formula that are read as operands. -/
def operands : Formula → List Text
  | .value operand => [operand]
  | .expression tokens => evenTokens tokens

def tokenCells (tokens : List Text) : List CellKey := (evenTokens tokens).filterMap cell?

/-- The cells that the operands of a formula refer to, from left to right. -/
def references : Formula → List CellKey
  | .value token => (cell? token).toList
  | .expression tokens => tokenCells tokens

theorem mem_tokenCells_singleton {token : Text} {cell : CellKey} :
    cell ∈ tokenCells [token] ↔ cell? token = some cell := by
  simp [tokenCells, evenTokens]

theorem mem_tokenCells_cons {token operator : Text} {tokens : List Text} {cell : CellKey} :
    cell ∈ tokenCells (token :: operator :: tokens) ↔
      cell? token = some cell ∨ cell ∈ tokenCells tokens := by
  simp [tokenCells, evenTokens, eq_comm]

theorem mem_tokenCells_head {token : Text} {tokens : List Text} {cell : CellKey}
    (h : cell? token = some cell) : cell ∈ tokenCells (token :: tokens) := by
  cases tokens with
  | nil => exact mem_tokenCells_singleton.mpr h
  | cons operator tokens => exact mem_tokenCells_cons.mpr (Or.inl h)

theorem cell?_display (x : Binary64) : cell? (NumberDisplay.display x) = none := by
  simp [cell?, NumberDisplay.display_not_isReference]

/-- The result of a product in the place of an operand brings no reference along. -/
theorem tokenCells_display {x : Binary64} {right : Text} {tokens : List Text} {cell : CellKey}
    (h : cell ∈ tokenCells (NumberDisplay.display x :: tokens)) :
    cell ∈ tokenCells (right :: tokens) := by
  cases tokens with
  | nil =>
    rw [mem_tokenCells_singleton, cell?_display] at h
    exact absurd h (by simp)
  | cons operator tokens =>
    rw [mem_tokenCells_cons, cell?_display] at h
    rw [mem_tokenCells_cons]
    exact Or.inr (h.resolve_left (by simp))

end Formula

namespace Evaluation
open Formula

variable {α β : Type} {names : List CellKey}

/-- How a successful reading gets from the cells noted before to those noted after it. -/
structure Frame (names : List CellKey) (m : Lookup → Reading α) (lookup : Lookup)
    (before : List CellKey) (a : α) (after : List CellKey) : Prop where
  kept : before ⊆ after
  named : ∀ cell ∈ after, cell ∈ before ∨ cell ∈ names
  nodup : before.Nodup → after.Nodup
  same : ∀ other : Lookup, (∀ cell ∈ after, other cell = lookup cell) →
    m other before = .ok (a, after)

/-- Every success of a reading has a property, and a frame that names only certain cells. -/
def Framed (names : List CellKey) (property : α → Prop) (m : Lookup → Reading α) : Prop :=
  ∀ lookup before a after, m lookup before = .ok (a, after) →
    property a ∧ Frame names m lookup before a after

theorem framed_pure {property : α → Prop} {a : α} (h : property a) :
    Framed names property (fun _ => pure a) := by
  intro lookup before b after hm
  obtain ⟨rfl, rfl⟩ := Prod.mk.inj (Except.ok.inj hm)
  exact ⟨h, List.Subset.refl _, fun _ hc => Or.inl hc, id, fun _ _ => rfl⟩

theorem framed_failure {property : α → Prop} (e : FormulaError) :
    Framed names property (fun _ => failure e) := by
  intro lookup before a after hm
  simp [failure, throw, throwThe, MonadExceptOf.throw, StateT.lift, bind, Except.bind] at hm

theorem bind_eq_ok {m : Reading α} {f : α → Reading β} {before after : List CellKey} {b : β}
    (h : (m >>= f) before = .ok (b, after)) :
    ∃ a between, m before = .ok (a, between) ∧ f a between = .ok (b, after) := by
  cases hm : m before with
  | error fault => simp [bind, StateT.bind, Except.bind, hm] at h
  | ok result => exact ⟨result.1, result.2, rfl, by simpa [bind, StateT.bind, Except.bind, hm] using h⟩

theorem bind_of_ok {m : Reading α} {f : α → Reading β} {before between : List CellKey} {a : α}
    (h : m before = .ok (a, between)) : (m >>= f) before = f a between := by
  simp [bind, StateT.bind, Except.bind, h]

theorem bind_of_error {m : Reading α} {f : α → Reading β} {before : List CellKey} {fault : Fault}
    (h : m before = .error fault) : (m >>= f) before = .error fault := by
  simp [bind, StateT.bind, Except.bind, h]

/-- The frame of a sequence. The lookups that agree after the second reading agree after the first,
whose cells stay noted. -/
theorem framed_bind {mid : α → Prop} {property : β → Prop} {m : Lookup → Reading α}
    {f : Lookup → α → Reading β} (hm : Framed names mid m)
    (hf : ∀ a, mid a → Framed names property (fun lookup => f lookup a)) :
    Framed names property (fun lookup => m lookup >>= f lookup) := by
  intro lookup before b after h
  obtain ⟨a, between, ha, hb⟩ := bind_eq_ok h
  obtain ⟨hmid, hfirst⟩ := hm lookup before a between ha
  obtain ⟨hproperty, hsecond⟩ := hf a hmid lookup between b after hb
  refine ⟨hproperty, List.Subset.trans hfirst.kept hsecond.kept, ?_, hsecond.nodup ∘ hfirst.nodup, ?_⟩
  · intro cell hc
    rcases hsecond.named cell hc with hc | hc
    · exact hfirst.named cell hc
    · exact Or.inr hc
  · intro other hother
    have ha' := hfirst.same other fun cell hc => hother cell (hsecond.kept hc)
    rw [bind_of_ok ha']
    exact hsecond.same other hother

theorem Framed.weaken {names' : List CellKey} {property property' : α → Prop}
    {m : Lookup → Reading α} (h : Framed names property m) (hn : names ⊆ names')
    (hp : ∀ a, property a → property' a) : Framed names' property' m := by
  intro lookup before a after hm
  obtain ⟨hproperty, hframe⟩ := h lookup before a after hm
  exact ⟨hp a hproperty, hframe.kept, fun cell hc => (hframe.named cell hc).imp_right (@hn cell),
    hframe.nodup, hframe.same⟩

theorem note_nodup {key : CellKey} {cells : List CellKey} (h : cells.Nodup) :
    (note key cells).Nodup := by
  unfold note
  split
  · exact h
  · exact List.nodup_append.mpr ⟨h, by simp, by rintro a ha b hb rfl; simp_all⟩

theorem mem_note {key cell : CellKey} {cells : List CellKey} :
    cell ∈ note key cells ↔ cell ∈ cells ∨ cell = key := by
  unfold note
  split
  · exact ⟨Or.inl, fun h => h.elim id (fun he => he ▸ ‹_›)⟩
  · simp

theorem numericText_ne_nil (raw : Text) : numericText raw ≠ [] := by
  unfold numericText
  split
  · rintro rfl
    revert ‹(readNumber []).isFinite = true›
    decide
  · simp

theorem cell?_eq_some {token : Text} {key : CellKey}
    (href : Reference.isReference (Text.trim token))
    (hkey : CellKey.ofReference (Text.trim token) = .ok key) : cell? token = some key := by
  simp [cell?, href, hkey, Except.toOption]

theorem resolve_reference {lookup : Lookup} {token : Text} {key : CellKey} (cells : List CellKey)
    (href : Reference.isReference (Text.trim token))
    (hkey : CellKey.ofReference (Text.trim token) = .ok key) :
    resolve lookup token cells = .ok (numericText (lookup key), note key cells) := by
  simp only [resolve, href, hkey, if_true]
  rfl

theorem resolve_overlong {lookup : Lookup} {token : Text} {fault : Fault} (cells : List CellKey)
    (href : Reference.isReference (Text.trim token))
    (hkey : CellKey.ofReference (Text.trim token) = .error fault) :
    resolve lookup token cells = .error fault := by
  simp only [resolve, href, hkey, if_true]
  rfl

theorem resolve_literal {lookup : Lookup} {token : Text} (cells : List CellKey)
    (href : Reference.isReference (Text.trim token) = false) :
    resolve lookup token cells = .ok (Text.trim token, cells) := by
  simp only [resolve, href]
  rfl

/-- An operand reads the cell it refers to and no other. -/
theorem framed_resolve {token : Text} (h : ∀ cell, cell? token = some cell → cell ∈ names) :
    Framed names (fun text => Text.trim token ≠ [] → text ≠ [])
      (fun lookup => resolve lookup token) := by
  intro lookup before text after hm
  replace hm : resolve lookup token before = .ok (text, after) := hm
  cases href : Reference.isReference (Text.trim token) with
  | false =>
    rw [resolve_literal before href] at hm
    obtain ⟨rfl, rfl⟩ := Prod.mk.inj (Except.ok.inj hm)
    exact ⟨id, List.Subset.refl _, fun _ hc => Or.inl hc, id,
      fun _ _ => resolve_literal _ href⟩
  | true =>
    cases hkey : CellKey.ofReference (Text.trim token) with
    | error fault =>
      rw [resolve_overlong before href hkey] at hm
      cases hm
    | ok key =>
      rw [resolve_reference before href hkey] at hm
      obtain ⟨rfl, rfl⟩ := Prod.mk.inj (Except.ok.inj hm)
      refine ⟨fun _ => numericText_ne_nil _, ?_, ?_, note_nodup, ?_⟩
      · exact fun cell hc => mem_note.mpr (Or.inl hc)
      · intro cell hc
        rcases mem_note.mp hc with hc | rfl
        · exact Or.inl hc
        · exact Or.inr (h cell (cell?_eq_some href hkey))
      · intro other hother
        rw [← hother key (mem_note.mpr (Or.inr rfl))]
        exact resolve_reference before href hkey

theorem framed_operand {token : Text} (h : ∀ cell, cell? token = some cell → cell ∈ names) :
    Framed names (fun _ => True) (fun lookup => operand lookup token) :=
  framed_bind (framed_resolve h) fun _ _ => framed_pure trivial

theorem framed_divide (x y : Binary64) : Framed names (fun _ => True) (fun _ => divide x y) := by
  unfold divide
  split
  · exact framed_failure _
  · exact framed_pure trivial

theorem foldProducts_times_nil (lookup : Lookup) (left : Text) :
    foldProducts lookup left [['*']] =
      operand lookup left >>= fun _ => failure .missingOperand := rfl

theorem foldProducts_times_cons (lookup : Lookup) (left right : Text) (rest : List Text) :
    foldProducts lookup left (['*'] :: right :: rest) =
      operand lookup left >>= fun x => operand lookup right >>= fun y =>
        foldProducts lookup (NumberDisplay.display (x.mul y)) rest := rfl

theorem foldProducts_over_nil (lookup : Lookup) (left : Text) :
    foldProducts lookup left [['/']] =
      operand lookup left >>= fun _ => failure .missingOperand := rfl

theorem foldProducts_over_cons (lookup : Lookup) (left right : Text) (rest : List Text) :
    foldProducts lookup left (['/'] :: right :: rest) =
      operand lookup left >>= fun x => operand lookup right >>= fun y => divide x y >>= fun z =>
        foldProducts lookup (NumberDisplay.display z) rest := rfl

/-- The first pass takes a product away together with its factors, and passes over other operators. -/
theorem foldProducts_induction {motive : Text → List Text → Prop}
    (nil : ∀ left, motive left [])
    (product_nil : ∀ left, motive left [['*']])
    (quotient_nil : ∀ left, motive left [['/']])
    (other_nil : ∀ left operator, operator ≠ ['*'] → operator ≠ ['/'] → motive left [operator])
    (product : ∀ left right rest, (∀ result, motive result rest) →
      motive left (['*'] :: right :: rest))
    (quotient : ∀ left right rest, (∀ result, motive result rest) →
      motive left (['/'] :: right :: rest))
    (other : ∀ left operator right rest, operator ≠ ['*'] → operator ≠ ['/'] → motive right rest →
      motive left (operator :: right :: rest))
    (left : Text) (tokens : List Text) : motive left tokens := by
  induction tokens using List.twoStepInduction generalizing left with
  | nil => exact nil left
  | singleton operator =>
    by_cases htimes : operator = ['*']
    · exact htimes ▸ product_nil left
    by_cases hover : operator = ['/']
    · exact hover ▸ quotient_nil left
    exact other_nil left operator htimes hover
  | cons_cons operator right rest ih _ =>
    by_cases htimes : operator = ['*']
    · exact htimes ▸ product left right rest ih
    by_cases hover : operator = ['/']
    · exact hover ▸ quotient left right rest ih
    exact other left operator right rest htimes hover (ih right)

/-- The first pass reads operands, and the references left in its result are among them. -/
theorem framed_foldProducts (tokens : List Text) (left : Text)
    (h : tokenCells (left :: tokens) ⊆ names) :
    Framed names (fun terms => tokenCells terms ⊆ names)
      (fun lookup => foldProducts lookup left tokens) := by
  have hfirst {left : Text} {tokens : List Text} (h : tokenCells (left :: tokens) ⊆ names) :
      Framed names (fun _ => True) (fun lookup => operand lookup left) :=
    framed_operand fun cell hc => h (mem_tokenCells_head hc)
  have hrest {left operator : Text} {tokens : List Text}
      (h : tokenCells (left :: operator :: tokens) ⊆ names) : tokenCells tokens ⊆ names :=
    fun cell hc => h (mem_tokenCells_cons.mpr (Or.inr hc))
  induction left, tokens using foldProducts_induction with
  | nil left => exact framed_pure h
  | product_nil left =>
    simp only [foldProducts_times_nil]
    exact framed_bind (hfirst h) fun _ _ => framed_failure _
  | quotient_nil left =>
    simp only [foldProducts_over_nil]
    exact framed_bind (hfirst h) fun _ _ => framed_failure _
  | other_nil left operator htimes hover =>
    simp only [foldProducts.eq_4 _ _ _ htimes hover]
    exact framed_pure h
  | product left right rest ih =>
    simp only [foldProducts_times_cons]
    apply framed_bind (hfirst h)
    intro x _
    apply framed_bind (hfirst (hrest h))
    intro y _
    exact ih _ fun cell hc => hrest h (tokenCells_display hc)
  | quotient left right rest ih =>
    simp only [foldProducts_over_cons]
    apply framed_bind (hfirst h)
    intro x _
    apply framed_bind (hfirst (hrest h))
    intro y _
    apply framed_bind (framed_divide x y)
    intro z _
    exact ih _ fun cell hc => hrest h (tokenCells_display hc)
  | other left operator right rest htimes hover ih =>
    simp only [foldProducts.eq_5 _ _ _ _ _ htimes hover]
    apply framed_bind (ih (hrest h))
    intro terms hterms
    apply framed_pure
    intro cell hc
    rcases mem_tokenCells_cons.mp hc with hc | hc
    · exact h (mem_tokenCells_head hc)
    · exact hterms hc

theorem framed_foldTerms (tokens : List Text) :
    ∀ total first, tokenCells (first :: tokens) ⊆ names →
      Framed names (fun _ => True) (fun lookup => foldTerms lookup total tokens) := by
  induction tokens using List.twoStepInduction with
  | nil => exact fun _ _ _ => framed_pure trivial
  | singleton operator => exact fun _ _ _ => framed_failure _
  | cons_cons operator right tokens ih _ =>
    intro total first h
    have hright : tokenCells (right :: tokens) ⊆ names :=
      fun cell hc => h (mem_tokenCells_cons.mpr (Or.inr hc))
    simp only [foldTerms]
    apply framed_bind (framed_operand fun cell hc => hright (mem_tokenCells_head hc))
    intro y _
    exact ih _ right hright

theorem framed_products {tokens : List Text} (h : tokenCells tokens ⊆ names) :
    Framed names (fun terms => tokenCells terms ⊆ names) (fun lookup => products lookup tokens) := by
  cases tokens with
  | nil => exact framed_pure h
  | cons first tokens => exact framed_foldProducts tokens first h

theorem framed_sum {tokens : List Text} (h : tokenCells tokens ⊆ names) :
    Framed names (fun _ => True) (fun lookup => sum lookup tokens) := by
  cases tokens with
  | nil => exact framed_failure _
  | cons first tokens =>
    simp only [sum]
    apply framed_bind (framed_operand fun cell hc => h (mem_tokenCells_head hc))
    intro x _
    exact framed_foldTerms tokens x first h

/-- A parsed formula reads references of its operands, and its text is not empty. -/
theorem framed_reading {t : Text} {formula : Formula} (h : Formula.parse t = some formula) :
    Framed formula.references (fun text => text ≠ []) (fun lookup => reading lookup formula) := by
  cases formula with
  | value token =>
    have hnames : ∀ cell, cell? token = some cell → cell ∈ references (.value token) := by
      intro cell hc
      simp [references, hc]
    apply (framed_resolve hnames).weaken (List.Subset.refl _)
    exact fun text htext => htext (parse_value_ne_nil h)
  | expression tokens =>
    simp only [reading]
    apply framed_bind (framed_products (List.Subset.refl _))
    intro terms hterms
    apply framed_bind (framed_sum hterms)
    intro total _
    exact framed_pure (NumberDisplay.display_ne_nil total)

end Evaluation

namespace Formula

variable {t : Text} {formula : Formula} {lookup : Lookup} {e : Evaluated}

theorem reading_of_evaluate (h : formula.evaluate lookup = .ok e) :
    Evaluation.reading lookup formula [] = .ok (e.text, e.dependencies) := by
  unfold evaluate at h
  cases hr : Evaluation.reading lookup formula [] with
  | error fault => simp [hr, Except.map] at h
  | ok result =>
    rw [hr] at h
    obtain rfl := Except.ok.inj h
    rfl

theorem evaluate_text_ne_nil (hp : parse t = some formula) (h : formula.evaluate lookup = .ok e) :
    e.text ≠ [] :=
  (Evaluation.framed_reading hp _ _ _ _ (reading_of_evaluate h)).1

theorem evaluate_nodup (hp : parse t = some formula) (h : formula.evaluate lookup = .ok e) :
    e.dependencies.Nodup :=
  (Evaluation.framed_reading hp _ _ _ _ (reading_of_evaluate h)).2.nodup List.nodup_nil

theorem evaluate_references (hp : parse t = some formula) (h : formula.evaluate lookup = .ok e) :
    e.dependencies ⊆ formula.references := by
  intro cell hc
  have hframe := (Evaluation.framed_reading hp _ _ _ _ (reading_of_evaluate h)).2
  exact (hframe.named cell hc).resolve_left (by simp)

/-- An evaluation that succeeds does so on all cells that agree on what it depends on. -/
theorem evaluate_congr (hp : parse t = some formula) (h : formula.evaluate lookup = .ok e)
    {other : Lookup} (hother : ∀ cell ∈ e.dependencies, other cell = lookup cell) :
    formula.evaluate other = .ok e := by
  have hframe := (Evaluation.framed_reading hp _ _ _ _ (reading_of_evaluate h)).2
  have hsame : Evaluation.reading other formula [] = .ok (e.text, e.dependencies) :=
    hframe.same other hother
  rw [evaluate, hsame]
  rfl

end Formula

end FormulaGrid
