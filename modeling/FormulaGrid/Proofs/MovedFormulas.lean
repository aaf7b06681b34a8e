import FormulaGrid.Proofs.MovedReferences
import FormulaGrid.Proofs.SplitBodies

/-!
# Moved formulas

Blanks and operators belong to no reference, and a moved reference brings none of them into a text.
Moving the references of a text therefore commutes with trimming it and with splitting it at its
operators, and the moved formula is parsed into the parsed formula with every token moved.
-/
namespace FormulaGrid

namespace Formula

variable {isOperator : Char → Bool} {c : Char} {t : Text}

/-- A formula with each of its tokens rewritten. -/
def map (f : Text → Text) : Formula → Formula
  | .value operand => .value (f operand)
  | .expression tokens => .expression (tokens.map f)

end Formula

namespace RefShift
open Digits Reference

variable {isOperator : Char → Bool} {c : Char} {t : Text} {rows cols : Int}

theorem matched_nil : matched [] = [] := rfl

theorem moved_nil : moved rows cols [] = [] := rfl

/-- A text of operators or blanks only, say, is moved as it stands. -/
theorem moved_of_forall_other (h : ∀ c ∈ t, kind c = .other) : moved rows cols t = t := by
  induction t with
  | nil => rfl
  | cons c t ih =>
    rw [moved_cons (h c (by simp)), ih fun d hd => h d (List.mem_cons_of_mem c hd)]

theorem moved_eq_singleton (hc : kind c = .other) (hm : AllMovable rows cols (matched t)) :
    moved rows cols t = [c] ↔ t = [c] := by
  constructor
  · intro h
    have hmem : c ∈ t := by
      rcases mem_moved hm (h ▸ List.mem_singleton_self c) with hmem | hletter | hdigit
      · exact hmem
      · simp [kind_eq_letter.mpr hletter] at hc
      · simp [kind_of_isDigit hdigit] at hc
    obtain ⟨u, v, rfl⟩ := List.append_of_mem hmem
    rw [moved_append hc] at h
    have hlength := congrArg List.length h
    simp only [List.length_append, List.length_cons, List.length_nil] at hlength
    have hpart {w : Text} (hw : (moved rows cols w).length = 0) : w = [] := by
      by_contra hne
      exact moved_ne_nil hne (List.length_eq_zero_iff.mp hw)
    rw [hpart (w := u) (by omega), hpart (w := v) (by omega), List.nil_append]
  · rintro rfl
    exact moved_of_forall_other (by simpa using hc)

theorem matched_eq_flatMap (hother : ∀ c, isOperator c → kind c = .other) (t : Text) :
    matched t = (Formula.tokenize isOperator t).flatMap matched := by
  induction t using Formula.operator_induction isOperator with
  | operand t h =>
    by_cases hne : t = []
    · subst hne
      rfl
    · simp [Formula.tokenize_of_forall_not hne h]
  | append u c t hu hc ih =>
    have hsingle : matched [c] = [] := by rw [matched_cons (hother c hc), matched_nil]
    rw [matched_append (hother c hc), Formula.tokenize_append hc, ih]
    by_cases hne : u = []
    · subst hne
      simp [Formula.tokenize, hsingle, matched_nil]
    · simp [Formula.tokenize_of_forall_not hne hu, hsingle]

theorem not_isOperator_of_kind (hother : ∀ c, isOperator c → kind c = .other)
    (h : kind c ≠ .other) : isOperator c = false :=
  Bool.eq_false_iff.mpr fun hop => h (hother c hop)

theorem not_isOperator_of_mem_moved (hother : ∀ c, isOperator c → kind c = .other)
    (hm : AllMovable rows cols (matched t)) (ht : ∀ c ∈ t, isOperator c = false)
    (hc : c ∈ moved rows cols t) : isOperator c = false := by
  rcases mem_moved hm hc with hc | hletter | hdigit
  · exact ht c hc
  · exact not_isOperator_of_kind hother (by simp [kind_eq_letter.mpr hletter])
  · exact not_isOperator_of_kind hother (by simp [kind_of_isDigit hdigit])

/-- Splitting at operators commutes with moving references. -/
theorem tokenize_moved (hother : ∀ c, isOperator c → kind c = .other)
    (hm : AllMovable rows cols (matched t)) :
    Formula.tokenize isOperator (moved rows cols t) =
      (Formula.tokenize isOperator t).map (moved rows cols) := by
  have hpiece : ∀ u, (∀ c ∈ u, isOperator c = false) → AllMovable rows cols (matched u) →
      Formula.tokenize isOperator (moved rows cols u) =
        (Formula.tokenize isOperator u).map (moved rows cols) := by
    intro u hu hmu
    by_cases hne : u = []
    · subst hne
      rfl
    · rw [Formula.tokenize_of_forall_not hne hu, Formula.tokenize_of_forall_not (moved_ne_nil hne)]
      · rfl
      · exact fun c hc => not_isOperator_of_mem_moved hother hmu hu hc
  induction t using Formula.operator_induction isOperator with
  | operand t h => exact hpiece t h hm
  | append u c t hu hc ih =>
    rw [matched_append (hother c hc)] at hm
    rw [moved_append (hother c hc), Formula.tokenize_append hc, Formula.tokenize_append hc,
      hpiece u hu hm.left, ih hm.right, List.map_append, List.map_cons,
      moved_of_forall_other (t := [c]) (by simpa using hother c hc)]

/-- The code points of the blanks. -/
def blankCodes : List Nat :=
  List.range' 0x09 5 ++ List.range' 0x1c 5 ++ [0x85, 0xa0, 0x1680] ++ List.range' 0x2000 11 ++
    [0x2028, 0x2029, 0x202f, 0x205f, 0x3000]

theorem mem_blankCodes (h : Text.isBlank c) : c.toNat ∈ blankCodes := by
  simp only [Text.isBlank, Bool.or_eq_true, Bool.and_eq_true, decide_eq_true_eq, beq_iff_eq] at h
  simp only [blankCodes, List.mem_append, List.mem_range'_1, List.mem_cons, List.not_mem_nil]
  omega

theorem kind_of_isBlank (h : Text.isBlank c) : kind c = .other := by
  have hcodes : ∀ n ∈ blankCodes, ¬(65 ≤ n ∧ n ≤ 90) ∧
      (digitBlocks.find? fun z => z ≤ n && n < z + 10) = none := by decide
  obtain ⟨hletter, hdigit⟩ := hcodes _ (mem_blankCodes h)
  rw [← isLetter_iff, Bool.not_eq_true] at hletter
  simp [kind, hletter, isDigit, digitValue?, hdigit]

theorem kind_of_isAdditive (h : Formula.isAdditive c) : kind c = .other := by
  rcases Formula.eq_of_isAdditive h with rfl | rfl <;> decide

theorem kind_of_isMultiplicative (h : Formula.isMultiplicative c) : kind c = .other := by
  rcases Formula.eq_of_isMultiplicative h with rfl | rfl <;> decide

theorem isBlank_of_mem_moved (hm : AllMovable rows cols (matched t))
    (ht : ∀ c ∈ t, Text.isBlank c = false) (hc : c ∈ moved rows cols t) : Text.isBlank c = false :=
  not_isOperator_of_mem_moved (fun _ => kind_of_isBlank) hm ht hc

theorem exists_moved_cons (hm : AllMovable rows cols (matched (c :: t)))
    (hc : Text.isBlank c = false) :
    ∃ d u, moved rows cols (c :: t) = d :: u ∧ Text.isBlank d = false := by
  have hword : ∀ u, AllMovable rows cols (matched (c :: u)) → (∀ d ∈ u, Text.isBlank d = false) →
      ∃ d v, moved rows cols (c :: u) = d :: v ∧ Text.isBlank d = false := by
    intro u hmu hu
    obtain ⟨d, v, hv⟩ := List.exists_cons_of_ne_nil (moved_ne_nil (List.cons_ne_nil c u))
    exact ⟨d, v, hv, isBlank_of_mem_moved hmu (by simpa using ⟨hc, hu⟩) (by rw [hv]; simp)⟩
  cases hfind : t.find? Text.isBlank with
  | none => exact hword t hm (by simpa using hfind)
  | some b =>
    obtain ⟨hb, u, rest, rfl, hu⟩ := List.find?_eq_some_iff_append.mp hfind
    rw [← List.cons_append, matched_append (kind_of_isBlank hb)] at hm
    obtain ⟨d, v, hv, hd⟩ := hword u hm.left (by simpa using hu)
    exact ⟨d, _, by rw [← List.cons_append, moved_append (kind_of_isBlank hb), hv]; rfl, hd⟩

theorem exists_moved_concat (hm : AllMovable rows cols (matched (t ++ [c])))
    (hc : Text.isBlank c = false) :
    ∃ u d, moved rows cols (t ++ [c]) = u ++ [d] ∧ Text.isBlank d = false := by
  induction t using Formula.operator_induction Text.isBlank with
  | operand t h =>
    have hne : moved rows cols (t ++ [c]) ≠ [] := moved_ne_nil (by simp)
    refine ⟨_, _, (List.dropLast_append_getLast hne).symm, ?_⟩
    refine isBlank_of_mem_moved hm ?_ (List.getLast_mem hne)
    intro d hd
    rcases List.mem_append.mp hd with hd | hd
    · exact h d hd
    · rwa [List.mem_singleton.mp hd]
  | append u b rest hu hb ih =>
    rw [List.append_assoc, List.cons_append] at hm ⊢
    rw [matched_append (kind_of_isBlank hb)] at hm
    obtain ⟨v, d, hv, hd⟩ := ih hm.right
    refine ⟨moved rows cols u ++ b :: v, d, ?_, hd⟩
    rw [moved_append (kind_of_isBlank hb), hv, List.append_assoc, List.cons_append]

theorem trimStart_moved (hm : AllMovable rows cols (matched t)) :
    Text.trimStart (moved rows cols t) = moved rows cols (Text.trimStart t) := by
  induction t with
  | nil => rfl
  | cons c t ih =>
    cases hc : Text.isBlank c with
    | false =>
      obtain ⟨d, u, hu, hd⟩ := exists_moved_cons hm hc
      simp [Text.trimStart, hc, hu, hd]
    | true =>
      rw [matched_cons (kind_of_isBlank hc)] at hm
      rw [moved_cons (kind_of_isBlank hc)]
      simpa [Text.trimStart, hc] using ih hm

theorem trimEnd_moved (hm : AllMovable rows cols (matched t)) :
    Text.trimEnd (moved rows cols t) = moved rows cols (Text.trimEnd t) := by
  induction t using List.reverseRecOn with
  | nil => rfl
  | append_singleton t c ih =>
    cases hc : Text.isBlank c with
    | false =>
      obtain ⟨u, d, hu, hd⟩ := exists_moved_concat hm hc
      simp [Text.trimEnd, hc, hu, hd]
    | true =>
      rw [matched_append (kind_of_isBlank hc)] at hm
      rw [moved_append (kind_of_isBlank hc), moved_nil]
      simpa [Text.trimEnd, hc] using ih hm.left

theorem matched_trimStart (t : Text) : matched (Text.trimStart t) = matched t := by
  induction t with
  | nil => rfl
  | cons c t ih =>
    cases hc : Text.isBlank c with
    | false => simp [Text.trimStart, hc]
    | true =>
      rw [matched_cons (kind_of_isBlank hc), ← ih]
      simp [Text.trimStart, hc]

theorem matched_trimEnd (t : Text) : matched (Text.trimEnd t) = matched t := by
  induction t using List.reverseRecOn with
  | nil => rfl
  | append_singleton t c ih =>
    cases hc : Text.isBlank c with
    | false => simp [Text.trimEnd, hc]
    | true =>
      rw [matched_append (kind_of_isBlank hc), matched_nil, List.append_nil, ← ih]
      simp [Text.trimEnd, hc]

theorem matched_trim (t : Text) : matched (Text.trim t) = matched t := by
  rw [Text.trim, matched_trimEnd, matched_trimStart]

/-- Trimming commutes with moving references. -/
theorem trim_moved (hm : AllMovable rows cols (matched t)) :
    Text.trim (moved rows cols t) = moved rows cols (Text.trim t) := by
  rw [Text.trim, trimStart_moved hm, trimEnd_moved (by rwa [matched_trimStart]), Text.trim]

theorem Spells.not_isOperator {label digits : Text} (h : Spells label digits)
    (hother : ∀ c, isOperator c → kind c = .other) :
    ∀ c ∈ label ++ digits, isOperator c = false := by
  intro c hc
  apply not_isOperator_of_kind hother
  rcases List.mem_append.mp hc with hc | hc
  · simp [kind_eq_letter.mpr (h.letters c hc)]
  · simp [kind_of_isDigit (h.digits c hc)]

theorem Spells.trim {label digits : Text} (h : Spells label digits) :
    Text.trim (label ++ digits) = label ++ digits :=
  Text.trim_of_forall_not (h.not_isOperator fun _ => kind_of_isBlank)

/-- A trimmed reference is a label and digits, without the line feed that may end a reference. -/
theorem exists_spells (h : isReference (Text.trim t)) :
    ∃ label digits, Text.trim t = label ++ digits ∧ Spells label digits := by
  obtain ⟨⟨label, digits⟩, hsplit⟩ := Option.isSome_iff_exists.mp h
  obtain ⟨hspells, hwhole | hline⟩ := Spells.of_split? hsplit
  · exact ⟨label, digits, hwhole, hspells⟩
  · have htrim : Text.trimEnd (Text.trim t) = Text.trim t := Text.trimEnd_trimEnd _
    have hcut : Text.trimEnd (label ++ digits ++ ['\n']) = Text.trimEnd (label ++ digits) := by
      simp [Text.trimEnd, show Text.isBlank '\n' by decide]
    have hlength := Text.trimEnd_length (label ++ digits)
    rw [hline, hcut] at htrim
    simp only [htrim, List.length_append, List.length_cons] at hlength
    omega

end RefShift

namespace Formula
open RefShift

variable {t body : Text} {formula : Formula} {rows cols : Int}

/-- The pieces that a formula was split into, the operators among them. -/
def tokens : Formula → List Text
  | .value operand => [operand]
  | .expression tokens => tokens

theorem ofBody_moved (hm : AllMovable rows cols (matched body)) :
    ofBody (moved rows cols body) = (ofBody body).map (moved rows cols) := by
  have hadditive := tokenize_moved (fun _ => kind_of_isAdditive) hm
  have hmultiplicative := tokenize_moved (fun _ => kind_of_isMultiplicative) hm
  rcases hadd : tokenize isAdditive body with _ | ⟨piece, _ | ⟨next, rest⟩⟩
  · simp [ofBody, hadditive, hadd, map]
  · obtain rfl := eq_of_tokenize_singleton hadd
    rcases hmul : tokenize isMultiplicative piece with _ | ⟨operand, _ | ⟨next, rest⟩⟩
    · simp [ofBody, hadditive, hadd, hmultiplicative, hmul, map]
    · obtain rfl := eq_of_tokenize_singleton hmul
      simp [ofBody, hadditive, hadd, hmultiplicative, hmul, map, trim_moved hm]
    · simp [ofBody, hadditive, hadd, hmultiplicative, hmul, map]
  · simp [ofBody, hadditive, hadd, map]

/-- All references of a body are matched in its pieces. -/
theorem flatMap_tokens_ofBody (body : Text) :
    (ofBody body).tokens.flatMap matched = matched body := by
  rcases ofBody_cases body with h | ⟨-, h | h⟩
  · rw [h, tokens, ← matched_eq_flatMap fun _ => kind_of_isAdditive]
  · rw [h, tokens, ← matched_eq_flatMap fun _ => kind_of_isMultiplicative]
  · rw [h, tokens, List.flatMap_singleton, matched_trim]

/-- The moved text of a formula is parsed into the formula with every token moved. -/
theorem parse_moved (h : parse t = some formula) (hm : AllMovable rows cols (matched t)) :
    parse (moved rows cols t) = some (formula.map (moved rows cols)) := by
  unfold parse at h
  split at h
  · rename_i body
    obtain rfl := Option.some.inj h
    rw [matched_cons (by decide)] at hm
    rw [moved_cons (by decide), parse, trim_moved hm, ofBody_moved (by rwa [matched_trim])]
  · cases h

theorem matched_of_mem_tokens (h : parse t = some formula) {token : Text}
    (htoken : token ∈ formula.tokens) : matched token ⊆ matched t := by
  unfold parse at h
  split at h
  · rename_i body
    obtain rfl := Option.some.inj h
    rw [matched_cons (by decide), ← matched_trim body, ← flatMap_tokens_ofBody (Text.trim body)]
    exact fun reference hmem => List.mem_flatMap.mpr ⟨token, htoken, hmem⟩
  · cases h

/-- A bare reference is the formula of its value. -/
theorem parse_reference {label digits : Text} (h : Spells label digits) :
    parse ('=' :: (label ++ digits)) = some (.value (label ++ digits)) := by
  have hne : label ++ digits ≠ [] := by simp [h.label_ne_nil]
  have hadditive := tokenize_of_forall_not hne (h.not_isOperator fun _ => kind_of_isAdditive)
  have hmultiplicative :=
    tokenize_of_forall_not hne (h.not_isOperator fun _ => kind_of_isMultiplicative)
  simp only [parse, h.trim, ofBody, hadditive, hmultiplicative]

end Formula

end FormulaGrid
