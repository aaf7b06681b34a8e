/-!
# Totals

Sums of a natural number for each element of a list.
-/
namespace FormulaGrid

variable {α : Type}

def total (f : α → Nat) : List α → Nat
  | [] => 0
  | a :: as => f a + total f as

@[simp]
theorem total_nil (f : α → Nat) : total f [] = 0 := rfl

@[simp]
theorem total_cons (f : α → Nat) (a : α) (as : List α) : total f (a :: as) = f a + total f as := rfl

@[simp]
theorem total_append (f : α → Nat) (as bs : List α) :
    total f (as ++ bs) = total f as + total f bs := by
  induction as with
  | nil => simp
  | cons a as ih => simp [ih, Nat.add_assoc]

end FormulaGrid
