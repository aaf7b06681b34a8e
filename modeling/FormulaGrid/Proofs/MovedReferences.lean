import FormulaGrid.Proofs.ReferenceCodec

/-!
# Moved references

The references matched in a text, and the text with all of them moved when each stays in the grid. Both
are gathered along the runs of the text. A character that is neither letter nor digit belongs to no
reference, so a text can be cut there, and a shift of the text is the moved text.
-/
namespace FormulaGrid.RefShift
open Digits Reference IntegerText

variable {α : Type} {t u run next rest label digits : Text} {others : List Text} {rows cols : Int}
  {c : Char} {k : Kind}

section Gather

variable (plain : Char → List α) (reference : Text → Text → List α)

/-- What the references and all other characters of some runs give, in their order. -/
def gatherRuns : List Text → List α
  | [] => []
  | [run] => run.flatMap plain
  | run :: next :: rest =>
    if runKind run = .letter ∧ runKind next = .digit then
      reference run next ++ gatherRuns rest
    else run.flatMap plain ++ gatherRuns (next :: rest)

def gather (t : Text) : List α := gatherRuns plain reference (runs t)

theorem runKind_of_forall (hne : run ≠ []) (hk : ∀ c ∈ run, kind c = k) : runKind run = k := by
  cases run with
  | nil => exact absurd rfl hne
  | cons c run => exact hk c (by simp)

theorem runs_of_forall (hne : run ≠ []) (hk : ∀ c ∈ run, kind c = k) : runs run = [run] := by
  apply List.splitBy_of_isChain hne
  rw [List.isChain_iff_getElem]
  intro i hi
  simp [hk _ (List.getElem_mem _)]

/-- A run in front of characters of another kind is cut off as a whole. -/
theorem runs_append (hne : run ≠ []) (hk : ∀ c ∈ run, kind c = k)
    (hrest : ∀ c ∈ rest.head?, kind c ≠ k) : runs (run ++ rest) = run :: runs rest := by
  have hcut : runs (run ++ rest) = runs run ++ runs rest := by
    apply List.splitBy_append
    intro c hc d hd
    simp only [hk c (List.mem_of_mem_getLast? hc), beq_eq_false_iff_ne, ne_eq]
    exact fun heq => hrest d hd heq.symm
  rw [hcut, runs_of_forall hne hk]
  rfl

theorem flatten_runs (t : Text) : (runs t).flatten = t :=
  List.flatten_splitBy _ t

/-- The first run of a text begins with the first character. -/
theorem exists_runs_cons (c : Char) (t : Text) :
    ∃ run others, runs (c :: t) = (c :: run) :: others := by
  have hflatten := flatten_runs (c :: t)
  cases hruns : runs (c :: t) with
  | nil => simp [hruns] at hflatten
  | cons first others =>
    obtain ⟨d, run, rfl⟩ := List.exists_cons_of_ne_nil
      ((homogeneous_runs (c :: t)).ne_nil first (by rw [hruns]; simp))
    rw [hruns] at hflatten
    obtain rfl : d = c := by simpa using congrArg List.head? hflatten
    exact ⟨run, others, rfl⟩

theorem gatherRuns_cons_of_not_letter (h : runKind run ≠ .letter) (others : List Text) :
    gatherRuns plain reference (run :: others) =
      run.flatMap plain ++ gatherRuns plain reference others := by
  cases others with
  | nil => simp [gatherRuns]
  | cons next rest => simp [gatherRuns, h]

theorem gatherRuns_append (h : runKind run = .other) (before after : List Text) :
    gatherRuns plain reference (before ++ run :: after) =
      gatherRuns plain reference before ++ gatherRuns plain reference (run :: after) := by
  induction before using gatherRuns.induct with
  | case1 => rfl
  | case2 first =>
    have hnot : ¬(runKind first = .letter ∧ runKind run = .digit) := by simp [h]
    simp only [List.singleton_append, gatherRuns, if_neg hnot]
  | case3 first second rest hboth ih =>
    simp only [List.cons_append, gatherRuns, if_pos hboth, ih, List.append_assoc]
  | case4 first second rest hnot ih =>
    simp only [List.cons_append, gatherRuns, if_neg hnot, List.append_assoc]
    rw [← ih, List.cons_append]

theorem gatherRuns_append_of_not_letter {before : List Text}
    (h : ∀ run ∈ before, runKind run ≠ .letter) (after : List Text) :
    gatherRuns plain reference (before ++ after) =
      before.flatten.flatMap plain ++ gatherRuns plain reference after := by
  induction before with
  | nil => rfl
  | cons run before ih =>
    obtain ⟨hrun, hbefore⟩ := List.forall_mem_cons.mp h
    rw [List.cons_append, gatherRuns_cons_of_not_letter plain reference hrun, ih hbefore,
      List.flatten_cons, List.flatMap_append, List.append_assoc]

theorem runKind_ne_letter_of_mem (hu : ∀ c ∈ u, isLetter c = false) (h : run ∈ runs u) :
    runKind run ≠ .letter := by
  obtain ⟨c, run, rfl⟩ := List.exists_cons_of_ne_nil ((homogeneous_runs u).ne_nil run h)
  have hmem : c ∈ (runs u).flatten := List.mem_flatten.mpr ⟨_, h, by simp⟩
  rw [flatten_runs] at hmem
  intro hkind
  have hletter : isLetter c := kind_eq_letter.mp hkind
  simp [hu c hmem] at hletter

/-- A text without letters stands for itself, up to a character of another kind. -/
theorem gather_append_of_not_letter (hu : ∀ c ∈ u, isLetter c = false)
    (hrest : ∀ c ∈ u.getLast?, ∀ d ∈ rest.head?, kind c ≠ kind d) :
    gather plain reference (u ++ rest) = u.flatMap plain ++ gather plain reference rest := by
  have hcut : runs (u ++ rest) = runs u ++ runs rest := by
    apply List.splitBy_append
    intro c hc d hd
    simpa using hrest c hc d hd
  rw [gather, hcut, gatherRuns_append_of_not_letter plain reference fun _ =>
    runKind_ne_letter_of_mem hu, flatten_runs]
  rfl

theorem gather_of_not_letter (hu : ∀ c ∈ u, isLetter c = false) :
    gather plain reference u = u.flatMap plain := by
  have hend : ∀ c ∈ u.getLast?, ∀ d ∈ ([] : Text).head?, kind c ≠ kind d := by simp
  have happend := gather_append_of_not_letter plain reference hu hend
  rw [List.append_nil] at happend
  rw [happend]
  exact List.append_nil _

theorem gather_others (hu : ∀ c ∈ u, kind c = .other) (hrest : ∀ c ∈ rest.head?, kind c ≠ .other) :
    gather plain reference (u ++ rest) = u.flatMap plain ++ gather plain reference rest := by
  apply gather_append_of_not_letter
  · intro c hc
    rw [Bool.eq_false_iff, ne_eq, ← kind_eq_letter, hu c hc]
    decide
  · intro c hc d hd
    rw [hu c (List.mem_of_mem_getLast? hc)]
    exact (hrest d hd).symm

/-- A character outside letters and digits stands for itself, whatever follows it. -/
theorem gather_cons (hc : kind c = .other) (t : Text) :
    gather plain reference (c :: t) = plain c ++ gather plain reference t := by
  generalize hu : t.takeWhile (kind · = .other) = u
  generalize hr : t.dropWhile (kind · = .other) = rest
  have ht : t = u ++ rest := by rw [← hu, ← hr, List.takeWhile_append_dropWhile]
  have hothers : ∀ d ∈ u, kind d = .other := by
    intro d hd
    rw [← hu] at hd
    simpa using List.mem_takeWhile_imp hd
  have hrest : ∀ d ∈ rest.head?, kind d ≠ .other := by
    intro d hd
    rw [← hr] at hd
    have := List.head?_dropWhile_not (fun d => decide (kind d = .other)) t
    rw [hd] at this
    simpa using this
  have hall : ∀ d ∈ c :: u, kind d = .other := by simpa using ⟨hc, hothers⟩
  have hcons := gather_others plain reference hall hrest
  rw [List.cons_append, ← ht] at hcons
  rw [hcons, List.flatMap_cons, List.append_assoc, ← gather_others plain reference hothers hrest, ← ht]

/-- Nothing is matched across a character outside letters and digits. -/
theorem gather_append (hc : kind c = .other) (u t : Text) :
    gather plain reference (u ++ c :: t) =
      gather plain reference u ++ (plain c ++ gather plain reference t) := by
  rw [← gather_cons plain reference hc]
  induction u using List.reverseRecOn generalizing c t with
  | nil => rfl
  | append_singleton u d ih =>
    by_cases hd : kind d = .other
    · rw [List.append_assoc, List.singleton_append, ih hd, ih hd [],
        gather_cons plain reference hd (c :: t), gather_cons plain reference hd []]
      simp [gather, runs, gatherRuns]
    · have hcut : runs (u ++ [d] ++ c :: t) = runs (u ++ [d]) ++ runs (c :: t) := by
        apply List.splitBy_append_cons
        intro e he
        rw [List.getLast?_concat] at he
        obtain rfl := Option.some.inj he
        simp [hc, hd]
      obtain ⟨run, others, hruns⟩ := exists_runs_cons c t
      have hrun : runKind (c :: run) = .other := hc
      rw [gather, hcut, hruns, gatherRuns_append plain reference hrun, ← hruns]
      rfl

end Gather

def matchedRuns (runs : List Text) : List (Text × Text) :=
  gatherRuns (fun _ => []) (fun label digits => [(label, digits)]) runs

/-- The labels and digits of the references matched in a text. -/
def matched (t : Text) : List (Text × Text) := matchedRuns (runs t)

def movedReference (rows cols : Int) (label digits : Text) : Text :=
  columnLabel (columnIndex label + cols) ++ written (digitsValue digits + rows)

def movedRuns (rows cols : Int) (runs : List Text) : Text :=
  gatherRuns (fun c => [c]) (movedReference rows cols) runs

/-- The text with every matched reference moved. -/
def moved (rows cols : Int) (t : Text) : Text := movedRuns rows cols (runs t)

/-- A row that is not too long to be read, nor to be printed after it is moved. -/
structure Fits (rows : Int) (digits : Text) : Prop where
  short : digits.length ≤ digitLimit
  shortMoved : (Nat.toDigits 10 (digitsValue digits + rows).natAbs).length ≤ digitLimit

/-- A reference that stays in the grid when it is moved. -/
structure Movable (rows cols : Int) (label digits : Text) : Prop extends Fits rows digits where
  row : 0 ≤ digitsValue digits + rows
  col : 0 ≤ columnIndex label + cols

def AllMovable (rows cols : Int) (references : List (Text × Text)) : Prop :=
  ∀ label digits, (label, digits) ∈ references → Movable rows cols label digits

theorem AllMovable.left {references others : List (Text × Text)}
    (h : AllMovable rows cols (references ++ others)) : AllMovable rows cols references :=
  fun label digits hmem => h label digits (List.mem_append_left _ hmem)

theorem AllMovable.right {references others : List (Text × Text)}
    (h : AllMovable rows cols (references ++ others)) : AllMovable rows cols others :=
  fun label digits hmem => h label digits (List.mem_append_right _ hmem)

theorem AllMovable.tail {references : List (Text × Text)}
    (h : AllMovable rows cols ((label, digits) :: references)) : AllMovable rows cols references :=
  fun label digits hmem => h label digits (List.mem_cons_of_mem _ hmem)

theorem matchedRuns_of_reference (h : runKind run = .letter ∧ runKind next = .digit)
    (rest : List Text) : matchedRuns (run :: next :: rest) = (run, next) :: matchedRuns rest := by
  simp [matchedRuns, gatherRuns, h]

theorem matchedRuns_of_not (h : ¬(runKind run = .letter ∧ runKind next = .digit))
    (rest : List Text) : matchedRuns (run :: next :: rest) = matchedRuns (next :: rest) := by
  simp [matchedRuns, gatherRuns, if_neg h]

theorem movedRuns_of_reference (h : runKind run = .letter ∧ runKind next = .digit)
    (rest : List Text) : movedRuns rows cols (run :: next :: rest) =
      movedReference rows cols run next ++ movedRuns rows cols rest := by
  simp [movedRuns, gatherRuns, h]

theorem movedRuns_of_not (h : ¬(runKind run = .letter ∧ runKind next = .digit)) (rest : List Text) :
    movedRuns rows cols (run :: next :: rest) = run ++ movedRuns rows cols (next :: rest) := by
  simp [movedRuns, gatherRuns, if_neg h]

theorem movedRuns_singleton (run : Text) : movedRuns rows cols [run] = run := by
  simp [movedRuns, gatherRuns]

theorem matched_cons (hc : kind c = .other) (t : Text) : matched (c :: t) = matched t :=
  gather_cons _ _ hc t

theorem matched_append (hc : kind c = .other) (u t : Text) :
    matched (u ++ c :: t) = matched u ++ matched t :=
  gather_append _ _ hc u t

theorem moved_cons (hc : kind c = .other) (t : Text) :
    moved rows cols (c :: t) = c :: moved rows cols t :=
  gather_cons _ _ hc t

theorem moved_append (hc : kind c = .other) (u t : Text) :
    moved rows cols (u ++ c :: t) = moved rows cols u ++ c :: moved rows cols t :=
  gather_append _ _ hc u t

theorem runs_reference (h : Spells label digits) : runs (label ++ digits) = [label, digits] := by
  rw [runs_append h.label_ne_nil (fun c hc => kind_eq_letter.mpr (h.letters c hc)),
    runs_of_forall h.digits_ne_nil (fun c hc => kind_of_isDigit (h.digits c hc))]
  intro c hc
  simp [kind_of_isDigit (h.digits c (List.mem_of_mem_head? hc))]

theorem gather_reference (plain : Char → List α) (reference : Text → Text → List α)
    (h : Spells label digits) : gather plain reference (label ++ digits) = reference label digits := by
  have hboth : runKind label = .letter ∧ runKind digits = .digit :=
    ⟨runKind_of_forall h.label_ne_nil fun c hc => kind_eq_letter.mpr (h.letters c hc),
      runKind_of_forall h.digits_ne_nil fun c hc => kind_of_isDigit (h.digits c hc)⟩
  rw [gather, runs_reference h, gatherRuns, if_pos hboth, gatherRuns, List.append_nil]

theorem gather_append_reference (plain : Char → List α) (reference : Text → Text → List α)
    (hu : ∀ c ∈ u, isLetter c = false) (h : Spells label digits) :
    gather plain reference (u ++ (label ++ digits)) = u.flatMap plain ++ reference label digits := by
  have hcut : ∀ c ∈ u.getLast?, ∀ d ∈ (label ++ digits).head?, kind c ≠ kind d := by
    intro c hc d hd
    rw [List.head?_append_of_ne_nil _ h.label_ne_nil] at hd
    have hletter : kind d = .letter := kind_eq_letter.mpr (h.letters d (List.mem_of_mem_head? hd))
    rw [hletter, ne_eq, kind_eq_letter, hu c (List.mem_of_mem_getLast? hc)]
    exact Bool.false_ne_true
  rw [gather_append_of_not_letter plain reference hu hcut, gather_reference plain reference h]

theorem matched_of_not_letter (ht : ∀ c ∈ t, isLetter c = false) : matched t = [] :=
  (gather_of_not_letter _ _ ht).trans (by simp)

theorem moved_append_reference (hu : ∀ c ∈ u, isLetter c = false) (h : Spells label digits) :
    moved rows cols (u ++ (label ++ digits)) = u ++ movedReference rows cols label digits :=
  (gather_append_reference _ _ hu h).trans (by simp)

theorem shiftReference_of_fits (h : Spells label digits) (hfits : Fits rows digits) :
    shiftReference (label ++ digits) rows cols = .ok (movedReference rows cols label digits) := by
  have hprint : print (digitsValue digits + rows) = .ok (written (digitsValue digits + rows)) := by
    rw [print, if_pos hfits.shortMoved]
  simp only [shiftReference, CellKey.ofReference_short h.split? hfits.short, bind, Except.bind,
    CellKey.toReference, CellKey.shift, hprint]
  rfl

theorem shiftReference_of_not_fits (h : Spells label digits) (hfits : ¬Fits rows digits) :
    shiftReference (label ++ digits) rows cols = .error .numeralTooLong := by
  by_cases hshort : digits.length ≤ digitLimit
  · have hprint : print (digitsValue digits + rows) = .error .numeralTooLong := by
      rw [print, if_neg fun hmoved => hfits ⟨hshort, hmoved⟩]
    simp only [shiftReference, CellKey.ofReference_short h.split? hshort, bind, Except.bind,
      CellKey.toReference, CellKey.shift, hprint]
    rfl
  · simp only [shiftReference, CellKey.ofReference_overlong h.split? (Nat.lt_of_not_le hshort)]
    rfl

/-- Each run of letters that a run of digits follows is moved, and all other runs are kept. -/
theorem shiftRuns_eq {runs : List Text} (hruns : Homogeneous runs)
    (hfits : ∀ reference ∈ matchedRuns runs, Fits rows reference.2) :
    shiftRuns rows cols runs = .ok (movedRuns rows cols runs) := by
  induction runs using shiftRuns.induct with
  | case1 => rfl
  | case2 run => rw [shiftRuns, movedRuns_singleton]
  | case3 run next rest hboth ih =>
    rw [matchedRuns_of_reference hboth, List.forall_mem_cons] at hfits
    rw [movedRuns_of_reference hboth]
    simp only [shiftRuns, if_pos hboth, shiftReference_of_fits (hruns.spells hboth) hfits.1,
      ih hruns.tail.tail hfits.2]
    rfl
  | case4 run next rest hnot ih =>
    rw [matchedRuns_of_not hnot] at hfits
    rw [movedRuns_of_not hnot]
    simp only [shiftRuns, if_neg hnot, ih hruns.tail hfits]
    rfl

theorem shift_of_fits (hfits : ∀ reference ∈ matched t, Fits rows reference.2) :
    shift t rows cols = .ok (moved rows cols t) :=
  shiftRuns_eq (homogeneous_runs t) hfits

theorem shift_eq_moved (hm : AllMovable rows cols (matched t)) :
    shift t rows cols = .ok (moved rows cols t) :=
  shift_of_fits fun reference hmem => (hm reference.1 reference.2 hmem).toFits

theorem shiftRuns_error_iff {runs : List Text} (hruns : Homogeneous runs) :
    shiftRuns rows cols runs = .error .numeralTooLong ↔
      ∃ reference ∈ matchedRuns runs, ¬Fits rows reference.2 := by
  induction runs using shiftRuns.induct with
  | case1 => simp [shiftRuns, matchedRuns, gatherRuns]
  | case2 run => simp [shiftRuns, matchedRuns, gatherRuns]
  | case3 run next rest hboth ih =>
    have hspells := hruns.spells hboth
    rw [matchedRuns_of_reference hboth, List.exists_mem_cons_iff, ← ih hruns.tail.tail]
    simp only [shiftRuns, if_pos hboth]
    by_cases hfits : Fits rows next
    · rw [shiftReference_of_fits hspells hfits]
      cases shiftRuns rows cols rest <;> simp [hfits, bind, Except.bind, pure, Except.pure]
    · rw [shiftReference_of_not_fits hspells hfits]
      simp [hfits, bind, Except.bind]
  | case4 run next rest hnot ih =>
    rw [matchedRuns_of_not hnot, ← ih hruns.tail]
    simp only [shiftRuns, if_neg hnot]
    cases shiftRuns rows cols (next :: rest) <;> simp [bind, Except.bind, pure, Except.pure]

/-- A shift fails at the first reference whose row is too long, and at nothing else. -/
theorem shift_error_iff : shift t rows cols = .error .numeralTooLong ↔
    ∃ reference ∈ matched t, ¬Fits rows reference.2 :=
  shiftRuns_error_iff (homogeneous_runs t)

theorem movedRuns_of_matchedRuns_nil (runs : List Text) (h : matchedRuns runs = []) :
    movedRuns rows cols runs = runs.flatten := by
  induction runs using shiftRuns.induct with
  | case1 => rfl
  | case2 run => simp [movedRuns_singleton]
  | case3 run next rest hboth ih => simp [matchedRuns_of_reference hboth] at h
  | case4 run next rest hnot ih =>
    rw [matchedRuns_of_not hnot] at h
    rw [movedRuns_of_not hnot, ih h]
    rfl

/-- A text without references stays as it is. -/
theorem moved_of_matched_nil (h : matched t = []) : moved rows cols t = t := by
  rw [moved, movedRuns_of_matchedRuns_nil (runs t) h, flatten_runs]

/-- A character of a moved reference is a letter or a digit. -/
theorem Movable.mem_moved (hm : Movable rows cols label digits)
    (h : c ∈ movedReference rows cols label digits) : isLetter c ∨ isDigit c := by
  rcases List.mem_append.mp h with h | h
  · exact Or.inl (isLetter_of_mem_columnLabel h)
  · exact Or.inr (isDigit_of_mem_written hm.row h)

theorem mem_movedRuns {runs : List Text} (hm : AllMovable rows cols (matchedRuns runs))
    (h : c ∈ movedRuns rows cols runs) : c ∈ runs.flatten ∨ isLetter c ∨ isDigit c := by
  induction runs using shiftRuns.induct with
  | case1 => simp [movedRuns, gatherRuns] at h
  | case2 run =>
    rw [movedRuns_singleton] at h
    exact Or.inl (by simpa using h)
  | case3 run next rest hboth ih =>
    rw [matchedRuns_of_reference hboth] at hm
    rw [movedRuns_of_reference hboth] at h
    rcases List.mem_append.mp h with h | h
    · exact Or.inr ((hm run next (by simp)).mem_moved h)
    · refine (ih hm.tail h).imp_left fun hmem => ?_
      rw [List.flatten_cons, List.flatten_cons]
      exact List.mem_append_right run (List.mem_append_right next hmem)
  | case4 run next rest hnot ih =>
    rw [matchedRuns_of_not hnot] at hm
    rw [movedRuns_of_not hnot] at h
    rw [List.flatten_cons]
    rcases List.mem_append.mp h with h | h
    · exact Or.inl (List.mem_append_left _ h)
    · exact (ih hm h).imp_left fun hmem => List.mem_append_right run hmem

/-- Moving references brings no characters into a text but letters and digits. -/
theorem mem_moved (hm : AllMovable rows cols (matched t)) (h : c ∈ moved rows cols t) :
    c ∈ t ∨ isLetter c ∨ isDigit c := by
  have hruns := mem_movedRuns hm h
  rwa [flatten_runs] at hruns

theorem moved_ne_nil (hne : t ≠ []) : moved rows cols t ≠ [] := by
  obtain ⟨c, t, rfl⟩ := List.exists_cons_of_ne_nil hne
  obtain ⟨run, others, hruns⟩ := exists_runs_cons c t
  rw [moved, hruns]
  cases others with
  | nil => simp [movedRuns_singleton]
  | cons next rest =>
    by_cases hboth : runKind (c :: run) = .letter ∧ runKind next = .digit
    · simp [movedRuns_of_reference hboth, movedReference, written_ne_nil]
    · simp [movedRuns_of_not hboth]

end FormulaGrid.RefShift
