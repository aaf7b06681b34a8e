import FormulaGrid.Proofs.TrimmedText
import Mathlib.Data.List.Chain

/-!
# Split bodies

The tokens of a body say all of it: put together they are the body, each is an operator or free of
operators, and no two operands stand next to each other. No other list of tokens does, so parsing a formula
is a unique and lossless split of its trimmed body.
-/
namespace FormulaGrid.Formula

variable {isOperator : Char → Bool} {c : Char} {t body token : Text} {tokens : List Text}

theorem eq_of_isAdditive (h : isAdditive c) : c = '+' ∨ c = '-' := by
  simpa only [isAdditive, Bool.or_eq_true, beq_iff_eq] using h

theorem eq_of_isMultiplicative (h : isMultiplicative c) : c = '*' ∨ c = '/' := by
  simpa only [isMultiplicative, Bool.or_eq_true, beq_iff_eq] using h

theorem tokenize_append (hc : isOperator c) (u t : Text) :
    tokenize isOperator (u ++ c :: t) = tokenize isOperator u ++ [c] :: tokenize isOperator t := by
  induction u with
  | nil => simp [tokenize, hc]
  | cons d u ih =>
    simp only [List.cons_append, tokenize, ih]
    split
    · rfl
    · cases tokenize isOperator u with
      | nil => simp [attach, hc]
      | cons token tokens =>
        simp only [List.cons_append, attach]
        split <;> rfl

theorem tokenize_of_forall_not (hne : t ≠ []) (h : ∀ c ∈ t, isOperator c = false) :
    tokenize isOperator t = [t] := by
  induction t with
  | nil => exact absurd rfl hne
  | cons c t ih =>
    have hc : isOperator c = false := h c (by simp)
    cases t with
    | nil => simp [tokenize, hc, attach]
    | cons d t =>
      have hd : isOperator d = false := h d (by simp)
      rw [tokenize, ih (by simp) fun e he => h e (List.mem_cons_of_mem c he)]
      simp [hc, attach, hd]

theorem tokenize_piece (h : ∀ c ∈ t, isOperator c = false) :
    tokenize isOperator t = [] ∨ tokenize isOperator t = [t] := by
  by_cases hne : t = []
  · exact Or.inl (by rw [hne, tokenize_nil])
  · exact Or.inr (tokenize_of_forall_not hne h)

/-- A text is its characters up to the first operator, that operator and another text. -/
theorem operator_induction {motive : Text → Prop} (isOperator : Char → Bool)
    (operand : ∀ t, (∀ c ∈ t, isOperator c = false) → motive t)
    (append : ∀ u c t, (∀ d ∈ u, isOperator d = false) → isOperator c → motive t →
      motive (u ++ c :: t)) (t : Text) : motive t := by
  induction hn : t.length using Nat.strongRecOn generalizing t with
  | ind n ih =>
    cases hfind : t.find? isOperator with
    | none => exact operand t (by simpa using hfind)
    | some c =>
      obtain ⟨hc, u, rest, rfl, hu⟩ := List.find?_eq_some_iff_append.mp hfind
      refine append u c rest (by simpa using hu) hc (ih rest.length ?_ rest rfl)
      rw [List.length_append, List.length_cons] at hn
      omega

/-- A text without operators is a token by itself, if it is not empty. -/
theorem mem_tokenize_piece (ht : ∀ c ∈ t, isOperator c = false) (h : token ∈ tokenize isOperator t) :
    token = t ∧ token ≠ [] := by
  by_cases hne : t = []
  · simp [hne, tokenize_nil] at h
  · rw [tokenize_of_forall_not hne ht, List.mem_singleton] at h
    exact ⟨h, h ▸ hne⟩

/-- A token is an operator or free of operators. -/
theorem mem_tokenize (h : token ∈ tokenize isOperator t) :
    (∃ c, isOperator c ∧ token = [c]) ∨ ∀ c ∈ token, isOperator c = false := by
  induction t using operator_induction isOperator with
  | operand t ht => exact Or.inr ((mem_tokenize_piece ht h).1 ▸ ht)
  | append u c t hu hc ih =>
    rw [tokenize_append hc] at h
    rcases List.mem_append.mp h with h | h
    · exact Or.inr ((mem_tokenize_piece hu h).1 ▸ hu)
    · rcases List.mem_cons.mp h with rfl | h
      · exact Or.inl ⟨c, hc, rfl⟩
      · exact ih h

theorem ne_nil_of_mem_tokenize (h : token ∈ tokenize isOperator t) : token ≠ [] := by
  induction t using operator_induction isOperator with
  | operand t ht => exact (mem_tokenize_piece ht h).2
  | append u c t hu hc ih =>
    rw [tokenize_append hc] at h
    rcases List.mem_append.mp h with h | h
    · exact (mem_tokenize_piece hu h).2
    · rcases List.mem_cons.mp h with rfl | h
      · simp
      · exact ih h

theorem mem_of_mem_tokenize (h : token ∈ tokenize isOperator t) (hc : c ∈ token) : c ∈ t := by
  rw [← tokenize_flatten isOperator t]
  exact List.mem_flatten.mpr ⟨token, h, hc⟩

/-- Of two tokens that stand next to each other one is an operator. -/
theorem isChain_tokenize (isOperator : Char → Bool) (t : Text) :
    (tokenize isOperator t).IsChain fun a b =>
      (∃ c, isOperator c ∧ a = [c]) ∨ ∃ c, isOperator c ∧ b = [c] := by
  induction t using operator_induction isOperator with
  | operand t ht => rcases tokenize_piece ht with h | h <;> simp [h]
  | append u c t hu hc ih =>
    have hrest : ([c] :: tokenize isOperator t).IsChain fun a b =>
        (∃ c, isOperator c ∧ a = [c]) ∨ ∃ c, isOperator c ∧ b = [c] :=
      List.isChain_cons.mpr ⟨fun b _ => Or.inl ⟨c, hc, rfl⟩, ih⟩
    rw [tokenize_append hc]
    rcases tokenize_piece hu with h | h
    · rwa [h, List.nil_append]
    · rw [h, List.singleton_append]
      exact List.isChain_cons_cons.mpr ⟨Or.inr ⟨c, hc, rfl⟩, hrest⟩

/-- Tokens that a text is put together from, operators by themselves and no two operands in a row. -/
structure Splits (isOperator : Char → Bool) (body : Text) (tokens : List Text) : Prop where
  flatten : tokens.flatten = body
  ne_nil : ∀ token ∈ tokens, token ≠ []
  token : ∀ token ∈ tokens, (∃ c, isOperator c ∧ token = [c]) ∨ ∀ c ∈ token, isOperator c = false
  apart : tokens.IsChain fun a b => (∃ c, isOperator c ∧ a = [c]) ∨ ∃ c, isOperator c ∧ b = [c]

theorem Splits.tail (h : Splits isOperator body (token :: tokens)) :
    Splits isOperator tokens.flatten tokens where
  flatten := rfl
  ne_nil other hother := h.ne_nil other (List.mem_cons_of_mem token hother)
  token other hother := h.token other (List.mem_cons_of_mem token hother)
  apart := h.apart.tail

theorem splits_tokenize (isOperator : Char → Bool) (body : Text) :
    Splits isOperator body (tokenize isOperator body) where
  flatten := tokenize_flatten isOperator body
  ne_nil _ := ne_nil_of_mem_tokenize
  token _ := mem_tokenize
  apart := isChain_tokenize isOperator body

/-- There is one way to split a body. -/
theorem Splits.eq_tokenize (h : Splits isOperator body tokens) : tokens = tokenize isOperator body := by
  induction tokens generalizing body with
  | nil => rw [← h.flatten, List.flatten_nil, tokenize_nil]
  | cons token tokens ih =>
    have hbody : body = token ++ tokens.flatten := h.flatten.symm
    have htokens : tokens = tokenize isOperator tokens.flatten := ih h.tail
    rcases h.token token (by simp) with ⟨c, hc, rfl⟩ | hoperand
    · have hsplit := tokenize_append hc [] tokens.flatten
      rw [tokenize_nil, List.nil_append, List.nil_append, ← htokens] at hsplit
      rw [hbody, List.singleton_append, hsplit]
    · have hne : token ≠ [] := h.ne_nil token (by simp)
      have hwhole : tokenize isOperator token = [token] := tokenize_of_forall_not hne hoperand
      cases tokens with
      | nil => rw [hbody, List.flatten_nil, List.append_nil, hwhole]
      | cons next rest =>
        -- What follows an operand is an operator, where the text can be cut.
        obtain ⟨c, hc, rfl⟩ : ∃ c, isOperator c ∧ next = [c] := by
          refine (List.isChain_cons_cons.mp h.apart).1.resolve_left ?_
          rintro ⟨c, hc, rfl⟩
          simp [hoperand c (by simp)] at hc
        have hrest : rest = tokenize isOperator rest.flatten := by
          have hsplit := tokenize_append hc [] rest.flatten
          rw [tokenize_nil, List.nil_append, List.nil_append] at hsplit
          rw [List.flatten_cons, List.singleton_append, hsplit] at htokens
          exact (List.cons.inj htokens).2
        rw [hbody, List.flatten_cons, List.singleton_append, tokenize_append hc, hwhole, ← hrest]
        rfl

theorem splits_iff : Splits isOperator body tokens ↔ tokens = tokenize isOperator body := by
  refine ⟨Splits.eq_tokenize, ?_⟩
  rintro rfl
  exact splits_tokenize isOperator body

theorem tokenize_eq_singleton : tokenize isOperator t = [t] ↔
    t ≠ [] ∧ ((∀ c ∈ t, isOperator c = false) ∨ ∃ c, isOperator c ∧ t = [c]) := by
  constructor
  · intro h
    have hmem : t ∈ tokenize isOperator t := by simp [h]
    exact ⟨ne_nil_of_mem_tokenize hmem, (mem_tokenize hmem).symm⟩
  · rintro ⟨hne, hplain | ⟨c, hc, rfl⟩⟩
    · exact tokenize_of_forall_not hne hplain
    · simp [tokenize, hc]

theorem ofBody_of_signs (h : tokenize isAdditive body ≠ [body]) :
    ofBody body = .expression (tokenize isAdditive body) := by
  unfold ofBody
  split
  · rename_i piece hpiece
    obtain rfl := eq_of_tokenize_singleton hpiece
    exact absurd hpiece h
  · rfl

theorem ofBody_of_factors (hpiece : tokenize isAdditive body = [body])
    (h : tokenize isMultiplicative body ≠ [body]) :
    ofBody body = .expression (tokenize isMultiplicative body) := by
  simp only [ofBody, hpiece]
  split
  · rename_i operand hoperand
    obtain rfl := eq_of_tokenize_singleton hoperand
    exact absurd hoperand h
  · rfl

theorem ofBody_of_operand (hpiece : tokenize isAdditive body = [body])
    (hoperand : tokenize isMultiplicative body = [body]) : ofBody body = .value (Text.trim body) := by
  simp only [ofBody, hpiece, hoperand]

/-- A body is split at its signs, else at its stars and slashes, else it is trimmed. -/
theorem ofBody_cases (body : Text) : ofBody body = .expression (tokenize isAdditive body) ∨
    tokenize isAdditive body = [body] ∧ (ofBody body = .expression (tokenize isMultiplicative body) ∨
      ofBody body = .value (Text.trim body)) := by
  by_cases hpiece : tokenize isAdditive body = [body]
  · refine Or.inr ⟨hpiece, ?_⟩
    by_cases hoperand : tokenize isMultiplicative body = [body]
    · exact Or.inr (ofBody_of_operand hpiece hoperand)
    · exact Or.inl (ofBody_of_factors hpiece hoperand)
  · exact Or.inl (ofBody_of_signs hpiece)

/-- The operators that a body is split at. -/
def family (body : Text) : Char → Bool :=
  if body.any isAdditive then isAdditive else isMultiplicative

/-- A body that stays whole: it is not empty, and has no operator in it or is a single one. -/
def IsWhole (body : Text) : Prop :=
  body ≠ [] ∧ ((∀ c ∈ body, isAdditive c = false ∧ isMultiplicative c = false) ∨
    ∃ c, (isAdditive c ∨ isMultiplicative c) ∧ body = [c])

theorem not_isMultiplicative_of_isAdditive (h : isAdditive c) : isMultiplicative c = false := by
  rcases eq_of_isAdditive h with rfl | rfl <;> decide

theorem isWhole_iff : IsWhole body ↔
    tokenize isAdditive body = [body] ∧ tokenize isMultiplicative body = [body] := by
  rw [tokenize_eq_singleton, tokenize_eq_singleton]
  constructor
  · rintro ⟨hne, hplain | ⟨c, hsign | hstar, rfl⟩⟩
    · exact ⟨⟨hne, Or.inl fun c hc => (hplain c hc).1⟩, hne, Or.inl fun c hc => (hplain c hc).2⟩
    · have hother := not_isMultiplicative_of_isAdditive hsign
      exact ⟨⟨hne, Or.inr ⟨c, hsign, rfl⟩⟩, hne, Or.inl (by simpa using hother)⟩
    · have hother : isAdditive c = false := by
        rcases eq_of_isMultiplicative hstar with rfl | rfl <;> decide
      exact ⟨⟨hne, Or.inl (by simpa using hother)⟩, hne, Or.inr ⟨c, hstar, rfl⟩⟩
  · rintro ⟨⟨hne, hplain | ⟨c, hc, rfl⟩⟩, -, hplain' | ⟨c', hc', hbody⟩⟩
    · exact ⟨hne, Or.inl fun c hc => ⟨hplain c hc, hplain' c hc⟩⟩
    · exact ⟨hne, Or.inr ⟨c', Or.inr hc', hbody⟩⟩
    · exact ⟨hne, Or.inr ⟨c, Or.inl hc, rfl⟩⟩
    · exact ⟨hne, Or.inr ⟨c, Or.inl hc, rfl⟩⟩

theorem ofBody_of_not_isWhole (h : ¬IsWhole body) :
    ofBody body = .expression (tokenize (family body) body) := by
  rw [isWhole_iff, not_and] at h
  by_cases hsign : body.any isAdditive
  · have hsplit : tokenize isAdditive body ≠ [body] := by
      intro hpiece
      obtain ⟨c, hmem, hc⟩ := List.any_eq_true.mp hsign
      -- The body would be that sign alone, which is no star or slash either.
      rcases (tokenize_eq_singleton.mp hpiece).2 with hplain | ⟨d, hd, rfl⟩
      · simp [hplain c hmem] at hc
      · exact h hpiece (tokenize_of_forall_not (by simp)
          (by simpa using not_isMultiplicative_of_isAdditive hd))
    rw [family, if_pos hsign, ofBody_of_signs hsplit]
  · rw [family, if_neg hsign]
    by_cases hne : body = []
    · rw [hne]
      rfl
    · have hpiece : tokenize isAdditive body = [body] :=
        tokenize_of_forall_not hne (by simpa using hsign)
      exact ofBody_of_factors hpiece (h hpiece)

theorem ofBody_of_isWhole (h : IsWhole body) : ofBody body = .value (Text.trim body) :=
  ofBody_of_operand (isWhole_iff.mp h).1 (isWhole_iff.mp h).2

/-- Parsing is a lossless split, and there is no other. Every text that begins with an equals sign is a
formula. What follows, trimmed, is the operand of a value when it stays whole, and otherwise it is split at
the operators of one family, signs before stars and slashes. -/
theorem parse_splits_uniquely (raw t : Text) :
    (parse raw = none ↔ ¬['='] <+: raw) ∧
    (∀ operand, parse ('=' :: t) = some (.value operand) ↔
      IsWhole (Text.trim t) ∧ operand = Text.trim t) ∧
    (∀ tokens, parse ('=' :: t) = some (.expression tokens) ↔
      ¬IsWhole (Text.trim t) ∧ Splits (family (Text.trim t)) (Text.trim t) tokens) ∧
    ∃! tokens, Splits (family (Text.trim t)) (Text.trim t) tokens := by
  have hnone : parse raw = none ↔ ¬['='] <+: raw := by
    cases raw with
    | nil => simp [parse]
    | cons c raw =>
      rw [← Option.not_isSome_iff_eq_none, parse_isSome, List.cons_prefix_cons]
      by_cases hc : '=' = c
      · simp [← hc, Text.isFormula]
      · have hother : Text.isFormula (c :: raw) = false := by
          unfold Text.isFormula
          split <;> simp_all
        simp [hother, hc]
  refine ⟨hnone, ?_, ?_, ?_⟩
  · intro operand
    by_cases h : IsWhole (Text.trim t)
    · simp [parse, ofBody_of_isWhole h, Text.trim_trim, h, eq_comm]
    · simp [parse, ofBody_of_not_isWhole h, h]
  · intro tokens
    rw [splits_iff]
    by_cases h : IsWhole (Text.trim t)
    · simp [parse, ofBody_of_isWhole h, h]
    · simp [parse, ofBody_of_not_isWhole h, h, eq_comm]
  · exact ⟨_, splits_tokenize _ _, fun _ => Splits.eq_tokenize⟩

example : parse "=1*2+3".toList =
    some (.expression ["1*2".toList, "+".toList, "3".toList]) := by decide

end FormulaGrid.Formula
