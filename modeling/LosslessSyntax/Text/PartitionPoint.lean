/-!
# Partition points by bisection

An array is partitioned by a test when all elements that pass come before all that fail. For such an
array `partitionPoint` finds the number of elements that pass, looking at logarithmically many of
them.
-/

namespace LosslessSyntax

/-- Bisects between `low`, below which all elements pass, and `high`, from which on all fail. -/
def bisect {α : Type} (test : α → Bool) (xs : Array α) (low high : Nat) (h : high ≤ xs.size) :
    Nat :=
  if _ : low < high then
    let middle := (low + high) / 2
    if test xs[middle] then bisect test xs (middle + 1) high h
    else bisect test xs low middle (by omega)
  else low
termination_by high - low

/-- The index of the first element that fails the test, or the size if all pass. -/
def partitionPoint {α : Type} (test : α → Bool) (xs : Array α) : Nat :=
  bisect test xs 0 xs.size (Nat.le_refl _)

theorem bisect_le {α : Type} (test : α → Bool) (xs : Array α) (low high : Nat) (h : high ≤ xs.size)
    (hlow : low ≤ xs.size) : bisect test xs low high h ≤ xs.size := by
  fun_induction bisect test xs low high h with
  | case1 low high h hlt middle _ ih => exact ih (by omega)
  | case2 low high h hlt middle _ ih => exact ih hlow
  | case3 => exact hlow

theorem partitionPoint_le {α : Type} (test : α → Bool) (xs : Array α) :
    partitionPoint test xs ≤ xs.size :=
  bisect_le test xs 0 xs.size _ (Nat.zero_le _)

end LosslessSyntax
