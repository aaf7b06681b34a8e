import FormulaGrid.Proofs.ScannedNumerals

/-!
# Preferred matches

A pattern is matched by trying, at each choice, the first alternative before the second and more characters
before fewer, and by going back when the rest of the pattern does not match. The scanner of numerals takes what
the pattern of numerals matches first.
-/
namespace FormulaGrid

/-- Patterns in which only classes of characters are repeated. -/
inductive Pattern where
  | empty
  | char (accepts : Char → Bool)
  | many (accepts : Char → Bool)
  | seq (first second : Pattern)
  | alt (preferred other : Pattern)

namespace Pattern

variable {p q : Pattern} {accepts : Char → Bool} {t : Text}

/-- What is left after some of the accepted characters, beginning with all of them. -/
def manyRests (accepts : Char → Bool) : Text → List Text
  | [] => [[]]
  | c :: t => if accepts c then manyRests accepts t ++ [c :: t] else [c :: t]

/-- What each match at the start of a text leaves, in the order in which they are tried. -/
def rests : Pattern → Text → List Text
  | .empty, t => [t]
  | .char _, [] => []
  | .char accepts, c :: t => if accepts c then [t] else []
  | .many accepts, t => manyRests accepts t
  | .seq first second, t => (first.rests t).flatMap second.rests
  | .alt preferred other, t => preferred.rests t ++ other.rests t

/-- What the first match leaves. -/
def firstRest (p : Pattern) (t : Text) : Option Text := (p.rests t).head?

def opt (p : Pattern) : Pattern := .alt p .empty

def several (accepts : Char → Bool) : Pattern := .seq (.char accepts) (.many accepts)

def word : Text → Pattern
  | [] => .empty
  | c :: w => .seq (.char (· == c)) (word w)

@[simp] theorem firstRest_empty (t : Text) : empty.firstRest t = some t := by
  rw [firstRest, rests, List.head?_cons]

theorem firstRest_alt (p q : Pattern) (t : Text) :
    (alt p q).firstRest t = (p.firstRest t).or (q.firstRest t) := by
  rw [firstRest, rests, List.head?_append]
  rfl

theorem firstRest_seq (p q : Pattern) (t : Text) :
    (seq p q).firstRest t = (p.rests t).findSome? q.firstRest := by
  rw [firstRest, rests, List.head?_flatMap]
  rfl

/-- In front of a pattern that matches everywhere no second match is tried. -/
theorem firstRest_seq_of_total (hq : ∀ u, (q.firstRest u).isSome) (t : Text) :
    (seq p q).firstRest t = (p.firstRest t).bind q.firstRest := by
  rw [firstRest_seq, firstRest]
  cases p.rests t with
  | nil => rfl
  | cons u others => exact List.findSome?_cons_of_isSome (hq u)

theorem firstRest_opt (p : Pattern) (t : Text) :
    p.opt.firstRest t = some ((p.firstRest t).getD t) := by
  rw [opt, firstRest_alt, firstRest_empty]
  cases p.firstRest t <;> rfl

theorem head?_manyRests (accepts : Char → Bool) (t : Text) :
    (manyRests accepts t).head? = some (t.dropWhile accepts) := by
  induction t with
  | nil => rfl
  | cons c t ih =>
    cases hc : accepts c with
    | false => simp [manyRests, hc]
    | true => simp [manyRests, hc, List.head?_append, ih]

@[simp] theorem firstRest_many (accepts : Char → Bool) (t : Text) :
    (many accepts).firstRest t = some (t.dropWhile accepts) := by
  rw [firstRest, rests, head?_manyRests]

@[simp] theorem firstRest_char_seq_nil (accepts : Char → Bool) (q : Pattern) :
    (seq (char accepts) q).firstRest [] = none := by
  rw [firstRest_seq, rests, List.findSome?_nil]

theorem firstRest_char_seq_cons (accepts : Char → Bool) (q : Pattern) (c : Char) (t : Text) :
    (seq (char accepts) q).firstRest (c :: t) = if accepts c then q.firstRest t else none := by
  rw [firstRest_seq, rests]
  split <;> simp

theorem firstRest_several (accepts : Char → Bool) (t : Text) : (several accepts).firstRest t =
    if t.takeWhile accepts = [] then none else some (t.dropWhile accepts) := by
  cases t with
  | nil => simp [several]
  | cons c t =>
    rw [several, firstRest_char_seq_cons]
    cases hc : accepts c <;> simp [hc]

theorem firstRest_word (w t : Text) :
    (word w).firstRest t = if w.isPrefixOf t then some (t.drop w.length) else none := by
  induction w generalizing t with
  | nil => simp [word]
  | cons c w ih =>
    cases t with
    | nil => simp [word]
    | cons d t =>
      rw [word, firstRest_char_seq_cons, ih]
      by_cases hc : d = c
      · simp [hc]
      · simp [hc, Ne.symm hc]

end Pattern

namespace Numeral
open Digits Pattern

variable {q : Pattern} {t : Text}

def isSignChar (c : Char) : Bool := c == '+' || c == '-'

def signPattern : Pattern := .opt (.char isSignChar)

/-- Digits, an optional point and more digits, or else a point and digits. -/
def mantissaPattern : Pattern :=
  .alt (.seq (.several isDigit) (.seq (.opt (.char (· == '.'))) (.many isDigit)))
    (.seq (.char (· == '.')) (.several isDigit))

def exponentPattern : Pattern :=
  .seq (.char fun c => c == 'e' || c == 'E') (.seq signPattern (.several isDigit))

/-- The word Infinity, or else a mantissa and an optional exponent. -/
def bodyPattern : Pattern :=
  .alt (.word infinityWord) (.seq mantissaPattern (.opt exponentPattern))

def pattern : Pattern := .seq signPattern bodyPattern

theorem takeSign_cons_of_isSignChar {c : Char} (hc : isSignChar c) (t : Text) : (takeSign (c :: t)).2 = t := by
  have hsign : c = '+' ∨ c = '-' := by simpa [isSignChar] using hc
  rcases hsign with rfl | rfl <;> rfl

theorem takeSign_cons_of_not_isSignChar {c : Char} (hc : isSignChar c = false) (t : Text) :
    takeSign (c :: t) = (false, c :: t) := by
  have hplain : c ≠ '+' ∧ c ≠ '-' := by simpa [isSignChar] using hc
  exact IsSign.none.takeSign_append (by simpa using hplain)

/-- A sign is only left out where there is none, since nothing else begins with one. -/
theorem firstRest_sign_seq (hq : ∀ c u, isSignChar c → q.firstRest (c :: u) = none) (t : Text) :
    (seq signPattern q).firstRest t = q.firstRest (takeSign t).2 := by
  rw [firstRest_seq]
  cases t with
  | nil => simp [signPattern, opt, rests, takeSign]
  | cons c t =>
    cases hc : isSignChar c with
    | false => simp [signPattern, opt, rests, hc, takeSign_cons_of_not_isSignChar hc]
    | true =>
      have hrests : signPattern.rests (c :: t) = [t, c :: t] := by simp [signPattern, opt, rests, hc]
      rw [hrests, takeSign_cons_of_isSignChar hc]
      cases hfirst : q.firstRest t <;> simp [List.findSome?, hfirst, hq c t hc]

theorem isDigit_of_isSignChar {c : Char} (hc : isSignChar c) : isDigit c = false := by
  have hsign : c = '+' ∨ c = '-' := by simpa [isSignChar] using hc
  rcases hsign with rfl | rfl <;> decide

theorem firstRest_digits (t : Text) : (several isDigit).firstRest t =
    if (takeDigits t).1 = [] then none else some (takeDigits t).2 := by
  rw [firstRest_several, takeDigits, List.span_eq_takeWhile_dropWhile]

theorem firstRest_exponent (t : Text) : (opt exponentPattern).firstRest t = some (takeExponent t).2 := by
  have hsign (c : Char) (u : Text) (hc : isSignChar c) : (several isDigit).firstRest (c :: u) = none := by
    simp [firstRest_several, isDigit_of_isSignChar hc]
  rw [firstRest_opt, exponentPattern]
  cases t with
  | nil => simp [takeExponent]
  | cons c t =>
    rw [firstRest_char_seq_cons, firstRest_sign_seq hsign, firstRest_digits]
    by_cases hmark : c = 'e' ∨ c = 'E'
    · rcases hsigned : takeSign t with ⟨negative, unsigned⟩
      rcases hdigits : takeDigits unsigned with ⟨digits, rest⟩
      cases digits <;> simp [takeExponent, hmark, hsigned, hdigits]
    · simp [takeExponent, hmark]

/-- An optional point and the digits that follow. -/
theorem firstRest_fraction (t : Text) : (seq (opt (char (· == '.'))) (many isDigit)).firstRest t =
    some (takeDigits (if t.head? = some '.' then t.tail else t)).2 := by
  have htotal (u : Text) : ((many isDigit).firstRest u).isSome := by simp
  rw [firstRest_seq_of_total htotal, firstRest_opt, Option.bind_some, firstRest_many, takeDigits,
    List.span_eq_takeWhile_dropWhile]
  cases t with
  | nil => rfl
  | cons c t =>
    by_cases hc : c = '.' <;> simp [firstRest, rests, hc]

theorem firstRest_leading (h : takeDigits t = ([], t)) :
    (seq (char (· == '.')) (several isDigit)).firstRest t =
      (takeMantissa t).map fun parts => parts.2.2 := by
  cases t with
  | nil => rfl
  | cons c t =>
    rw [firstRest_char_seq_cons, firstRest_digits]
    by_cases hc : c = '.'
    · subst hc
      rcases hplaces : takeDigits t with ⟨places, rest⟩
      cases places <;> simp [takeMantissa, h, hplaces]
    · simp [takeMantissa, h, hc]

theorem firstRest_mantissa (t : Text) :
    mantissaPattern.firstRest t = (takeMantissa t).map fun parts => parts.2.2 := by
  have htotal (u : Text) :
      ((seq (opt (char (· == '.'))) (many isDigit)).firstRest u).isSome := by
    simp [firstRest_fraction]
  rcases htake : takeDigits t with ⟨digits, rest⟩
  obtain ⟨rfl, hdigits, hbreaks⟩ := of_takeDigits htake
  rw [mantissaPattern, firstRest_alt, firstRest_seq_of_total htotal, firstRest_digits, htake]
  by_cases hne : digits = []
  · rw [if_pos hne, Option.bind_none, Option.none_or, hne, List.nil_append]
    rw [hne, List.nil_append] at htake
    exact firstRest_leading htake
  · rw [if_neg hne, Option.bind_some, firstRest_fraction, Option.some_or]
    by_cases hpoint : rest.head? = some '.'
    · obtain ⟨after, rfl⟩ := List.head?_eq_some_iff.mp hpoint
      rw [takeMantissa_point hne hdigits, if_pos hpoint]
      rfl
    · rw [takeMantissa_whole hne hdigits hbreaks hpoint, if_neg hpoint, hbreaks.takeDigits]
      rfl

theorem firstRest_body (t : Text) : bodyPattern.firstRest t =
    if infinityWord.isPrefixOf t then some (t.drop infinityWord.length)
    else (takeMantissa t).map fun parts => (takeExponent parts.2.2).2 := by
  have htotal (u : Text) : ((opt exponentPattern).firstRest u).isSome := by simp [firstRest_exponent]
  rw [bodyPattern, firstRest_alt, firstRest_word, firstRest_seq_of_total htotal, firstRest_mantissa]
  split
  · rfl
  · cases takeMantissa t <;> simp [firstRest_exponent]

theorem firstRest_body_of_isSignChar (c : Char) (t : Text) (hc : isSignChar c) :
    bodyPattern.firstRest (c :: t) = none := by
  have hsign : c = '+' ∨ c = '-' := by simpa [isSignChar] using hc
  have hword : infinityWord.isPrefixOf (c :: t) = false := by
    rcases hsign with rfl | rfl <;> rfl
  have hmantissa : takeMantissa (c :: t) = none := by
    rw [Option.eq_none_iff_forall_ne_some]
    intro parts hparts
    obtain ⟨d, others, heq, hd⟩ := exists_cons_of_takeMantissa hparts
    obtain ⟨rfl, -⟩ := List.cons.inj heq
    rcases hd with hd | rfl
    · simp [isDigit_of_isSignChar hc] at hd
    · cases hc
  rw [firstRest_body, hword, hmantissa]
  rfl

/-- What is matched first is what the scanner takes. -/
theorem firstRest_pattern (t : Text) : pattern.firstRest t = (scan t).map Prod.snd := by
  rw [pattern, firstRest_sign_seq firstRest_body_of_isSignChar, firstRest_body]
  unfold scan
  dsimp only
  split
  · rfl
  · rw [Option.map_map]
    rfl

end Numeral

end FormulaGrid
