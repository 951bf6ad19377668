/-!
# Totals

* `total`: the sum of a list of numbers;
* **`total_append`**: the total of two lists, one behind the other.
-/

namespace QueryEditor

def total (ns : List Nat) : Nat := ns.foldr (fun n sum => n + sum) 0

@[simp]
theorem total_nil : total [] = 0 := rfl

@[simp]
theorem total_cons (n : Nat) (ns : List Nat) : total (n :: ns) = n + total ns := rfl

@[simp]
theorem total_append (ms ns : List Nat) : total (ms ++ ns) = total ms + total ns := by
  induction ms with
  | nil => simp
  | cons m ms ih => rw [List.cons_append, total_cons, total_cons, ih, Nat.add_assoc]

end QueryEditor
