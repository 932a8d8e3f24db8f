import Mathlib.Data.List.Nodup

/-!
# Sorting by a key

Errors are sorted by where they start, which is a number. The sort is stable: of two elements with
the same key the one that comes first before comes first after
(`pairwise_mergeSort_key_of_key_eq`), and a part of the list that is in order is found in its order
(`filterMap_mergeSort_key`). A list whose keys increase is the sort of each of its permutations
(`mergeSort_key_of_perm`).
-/

namespace LosslessSyntax

variable {β : Type} (key : β → Nat)

theorem key_trans (a b c : β) (hab : decide (key a ≤ key b) = true)
    (hbc : decide (key b ≤ key c) = true) : decide (key a ≤ key c) = true :=
  decide_eq_true (Nat.le_trans (of_decide_eq_true hab) (of_decide_eq_true hbc))

theorem key_total (a b : β) :
    (decide (key a ≤ key b) || decide (key b ≤ key a)) = true := by
  simpa using Nat.le_total (key a) (key b)

theorem pairwise_mergeSort_key (xs : List β) :
    (xs.mergeSort fun a b => key a ≤ key b).Pairwise fun a b => key a ≤ key b := by
  simpa using List.pairwise_mergeSort (key_trans key) (key_total key) xs

theorem mergeSort_key_of_pairwise {xs : List β}
    (h : xs.Pairwise fun a b => key a ≤ key b) :
    (xs.mergeSort fun a b => key a ≤ key b) = xs :=
  List.mergeSort_of_pairwise (by simpa using h)

/-- An element that no other has to come before stays in front of the others. -/
theorem head?_mergeSort_key {x : β} {xs : List β} (h : ∀ y ∈ xs, key x ≤ key y) :
    ((x :: xs).mergeSort fun a b => key a ≤ key b).head? = some x := by
  obtain ⟨front, back, hsort, hothers, hfront⟩ :=
    List.mergeSort_cons (key_trans key) (key_total key) x xs
  cases front with
  | nil => rw [hsort, List.nil_append, List.head?_cons]
  | cons y front =>
    have hmem : y ∈ xs := by
      rw [← List.mem_mergeSort, hothers]
      exact List.mem_cons_self
    have hlt := hfront y List.mem_cons_self
    simp [h y hmem] at hlt

/-- Where the keys of a list increase, an element is known by its key. -/
theorem eq_of_key_eq {xs : List β} (h : xs.Pairwise fun a b => key a < key b) {a b : β}
    (ha : a ∈ xs) (hb : b ∈ xs) (heq : key a = key b) : a = b := by
  have hnodup : (xs.map key).Nodup := List.pairwise_map.mpr (h.imp Nat.ne_of_lt)
  exact List.inj_on_of_nodup_map hnodup ha hb heq

/-- The sort is the only arrangement of its elements in which the keys increase. -/
theorem mergeSort_key_of_perm {xs ys : List β} (hperm : xs.Perm ys)
    (h : ys.Pairwise fun a b => key a < key b) :
    (xs.mergeSort fun a b => key a ≤ key b) = ys := by
  have hsort := (List.mergeSort_perm xs fun a b => key a ≤ key b).trans hperm
  refine List.Perm.eq_of_pairwise (fun a b ha hb hab hba => ?_) (pairwise_mergeSort_key key xs)
    (h.imp Nat.le_of_lt) hsort
  exact eq_of_key_eq key h (hsort.subset ha) hb (Nat.le_antisymm hab hba)

/-- What holds between any two elements, the one that comes first before named first, holds after
sorting between those with the same key. -/
theorem pairwise_mergeSort_key_of_key_eq {r : β → β → Prop} {xs : List β} (h : xs.Pairwise r) :
    (xs.mergeSort fun a b => key a ≤ key b).Pairwise fun a b => key a = key b → r a b := by
  induction h with
  | nil =>
    rw [List.mergeSort_nil]
    exact .nil
  | @cons x xs hx _ ih =>
    -- The sort puts `x` behind some elements with smaller keys and leaves the others in place.
    obtain ⟨front, back, hsort, hothers, hfront⟩ :=
      List.mergeSort_cons (key_trans key) (key_total key) x xs
    rw [hothers] at ih
    obtain ⟨ihfront, ihback, ihcross⟩ := List.pairwise_append.mp ih
    have hback : ∀ y ∈ back, r x y := fun y hy => hx y (by
      rw [← List.mem_mergeSort, hothers]
      exact List.mem_append_right _ hy)
    rw [hsort]
    refine List.pairwise_append.mpr ⟨ihfront, .cons (fun y hy _ => hback y hy) ihback,
      fun y hy => List.forall_mem_cons.mpr ⟨fun heq => ?_, ihcross y hy⟩⟩
    have hlt := hfront y hy
    simp [heq] at hlt

/-- A part of a list that is in order stays as it is. -/
theorem filterMap_mergeSort_key {γ : Type} (f : β → Option γ) {xs : List β}
    (h : (xs.filter fun x => (f x).isSome).Pairwise fun a b => key a ≤ key b) :
    (xs.mergeSort fun a b => key a ≤ key b).filterMap f = xs.filterMap f := by
  have hkeep (ys : List β) : (ys.filter fun x => (f x).isSome).filterMap f = ys.filterMap f := by
    rw [List.filterMap_filter]
    refine List.filterMap_congr fun x _ => ?_
    cases f x <;> rfl
  have hsublist := List.sublist_mergeSort (key_trans key) (key_total key) (by simpa using h)
    List.filter_sublist
  have hpart := hsublist.filter fun x => (f x).isSome
  rw [List.filter_filter] at hpart
  simp only [Bool.and_self] at hpart
  have hlength := ((List.mergeSort_perm xs fun a b => key a ≤ key b).filter
    fun x => (f x).isSome).length_eq
  rw [← hkeep xs, hpart.eq_of_length hlength.symm, hkeep]

end LosslessSyntax
