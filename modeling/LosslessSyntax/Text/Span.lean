import LosslessSyntax.Fault

/-!
# Spans

A span is a stretch of a text, given by the byte offset at which it starts and its length in bytes.
`Span.ofBounds` builds one from its two ends and refuses a stop before the start.

The end of a span is a sum. `Span.stop` is the sum itself, and `Span.stopIn` what an arithmetic
keeps of it: nothing is lost where numbers have no bound, but in words up to a greatest one a sum
beyond it is either refused or wrapped around. The two agree on every span that ends within the
words (`Arithmetic.store_of_holds`), hence on those of every text that is short enough.
-/

namespace LosslessSyntax

/-! ### Words -/

/-- How sums of offsets are kept. -/
inductive Arithmetic
  /-- As they are. -/
  | exact
  /-- In words up to a greatest one, where a sum beyond it is a fault. -/
  | checked (greatest : Nat)
  /-- In words up to a greatest one, where counting goes on with zero after it. -/
  | wrapping (greatest : Nat)
deriving DecidableEq, Repr

namespace Arithmetic

variable {arithmetic : Arithmetic} {n : Nat}

/-- What is kept of a sum. -/
def store : Arithmetic → Nat → Except Fault Nat
  | exact, n => .ok n
  | checked greatest, n => if n ≤ greatest then .ok n else .error .overflow
  | wrapping greatest, n => .ok (n % (greatest + 1))

/-- Whether a sum is refused, since there is no word for it. -/
def Overflows (arithmetic : Arithmetic) (n : Nat) : Prop :=
  ∃ greatest, arithmetic = checked greatest ∧ greatest < n

/-- What is left of a sum that is not refused. -/
def residue : Arithmetic → Nat → Nat
  | exact, n | checked _, n => n
  | wrapping greatest, n => n % (greatest + 1)

/-- Whether there is a word for a sum. -/
def Holds : Arithmetic → Nat → Prop
  | exact, _ => True
  | checked greatest, n | wrapping greatest, n => n ≤ greatest

theorem store_of_overflows (h : arithmetic.Overflows n) :
    arithmetic.store n = .error .overflow := by
  obtain ⟨greatest, rfl, hlt⟩ := h
  exact if_neg (Nat.not_le_of_lt hlt)

theorem le_of_not_overflows {greatest : Nat} (h : ¬(checked greatest).Overflows n) : n ≤ greatest :=
  Nat.le_of_not_lt fun hlt => h ⟨greatest, rfl, hlt⟩

theorem store_of_not_overflows (h : ¬arithmetic.Overflows n) :
    arithmetic.store n = .ok (arithmetic.residue n) := by
  cases arithmetic with
  | exact | wrapping => rfl
  | checked greatest => exact if_pos (le_of_not_overflows h)

/-- A sum for which there is a word is kept as it is. -/
theorem store_of_holds (h : arithmetic.Holds n) : arithmetic.store n = .ok n := by
  cases arithmetic with
  | exact => rfl
  | checked greatest => exact if_pos h
  | wrapping greatest => exact congrArg Except.ok (Nat.mod_eq_of_lt (Nat.lt_succ_of_le h))

/-- There is a word for what is left of a sum. -/
theorem holds_residue (h : ¬arithmetic.Overflows n) : arithmetic.Holds (arithmetic.residue n) := by
  cases arithmetic with
  | exact => trivial
  | checked greatest => exact le_of_not_overflows h
  | wrapping greatest => exact Nat.le_of_lt_succ (Nat.mod_lt n (Nat.succ_pos greatest))

end Arithmetic

/-! ### Spans -/

/-- The bytes of a text from `start` on, `length` of them. -/
structure Span where
  start : Nat := 0
  length : Nat := 0
deriving DecidableEq, Repr, Inhabited

namespace Span

/-- The offset just after the last byte of a span. -/
def stop (span : Span) : Nat :=
  span.start + span.length

/-- The same offset as far as an arithmetic keeps it. -/
def stopIn (span : Span) (arithmetic : Arithmetic) : Except Fault Nat :=
  arithmetic.store span.stop

/-- The span between two offsets. -/
def ofBounds (start stop : Nat) : Except Fault Span :=
  if start ≤ stop then .ok ⟨start, stop - start⟩ else .error .reversedSpan

/-- Whether a span holds no byte. -/
def isEmpty (span : Span) : Bool :=
  span.length == 0

/-- Whether the byte at an offset belongs to a span. -/
def contains (span : Span) (position : Nat) : Bool :=
  span.start ≤ position && position < span.stop

/-- A span is written as its two ends, with two dots between them. -/
instance : ToString Span :=
  ⟨fun span => s!"{span.start}..{span.stop}"⟩

theorem ofBounds_of_le {start stop : Nat} (h : start ≤ stop) :
    ofBounds start stop = .ok ⟨start, stop - start⟩ :=
  if_pos h

theorem ofBounds_of_lt {start stop : Nat} (h : stop < start) :
    ofBounds start stop = .error .reversedSpan :=
  if_neg (Nat.not_le_of_lt h)

theorem stop_of_ofBounds {start stop : Nat} {span : Span} (h : ofBounds start stop = .ok span) :
    span.stop = stop := by
  rcases Nat.lt_or_ge stop start with hlt | hle
  · rw [ofBounds_of_lt hlt] at h
    cases h
  · rw [ofBounds_of_le hle] at h
    cases h
    exact Nat.add_sub_cancel' hle

/-- A span is what its two ends determine. -/
theorem ofBounds_start_stop (span : Span) : ofBounds span.start span.stop = .ok span := by
  rw [stop, ofBounds_of_le (Nat.le_add_right _ _), Nat.add_sub_cancel_left]

end Span

end LosslessSyntax
