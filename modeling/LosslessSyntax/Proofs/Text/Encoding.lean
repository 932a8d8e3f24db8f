import LosslessSyntax.Proofs.Text.Layout

/-!
# The bytes of a text

`encode` is the UTF-8 encoding of a text. The encoding of a front part is the front part of the
encoding (`drop_encode`), and of the bytes of a character only that of an ASCII character is below
128. So a byte that is compared with an ASCII character gives the same answer as the character of
which it is a byte (`eq_toUInt8_iff`, `isDigitByte_eq`), whichever of its bytes it is.
-/

namespace LosslessSyntax

/-- The bytes of a text. -/
def encode (cs : List Char) : List UInt8 :=
  cs.flatMap String.utf8EncodeChar

theorem encode_cons (c : Char) (cs : List Char) :
    encode (c :: cs) = String.utf8EncodeChar c ++ encode cs :=
  rfl

theorem encode_append (cs ds : List Char) : encode (cs ++ ds) = encode cs ++ encode ds :=
  List.flatMap_append

theorem length_encode (cs : List Char) : (encode cs).length = byteLength cs := by
  induction cs with
  | nil => rfl
  | cons c cs ih =>
    rw [encode_cons, List.length_append, String.length_utf8EncodeChar, ih, byteLength_cons]

/-- The bytes after a front part are those of the text after it. -/
theorem drop_encode (front cs : List Char) :
    (encode (front ++ cs)).drop (byteLength front) = encode cs := by
  rw [encode_append, ← length_encode front, List.drop_left]

/-! ### Bytes and ASCII characters -/

theorem utf8Size_eq_one_iff {c : Char} : c.utf8Size = 1 ↔ c.toNat < 128 := by
  rw [Char.utf8Size_eq_one_iff, UInt32.le_iff_toNat_le]
  exact Nat.lt_succ_iff.symm

theorem utf8EncodeChar_of_lt {c : Char} (h : c.toNat < 128) :
    String.utf8EncodeChar c = [c.toUInt8] :=
  String.utf8EncodeChar_eq_singleton (utf8Size_eq_one_iff.mpr h)

theorem encode_cons_of_lt {c : Char} (h : c.toNat < 128) (cs : List Char) :
    encode (c :: cs) = c.toUInt8 :: encode cs := by
  rw [encode_cons, utf8EncodeChar_of_lt h, List.singleton_append]

private theorem le_toNat_or {a b : UInt8} (h : 128 ≤ b.toNat) : 128 ≤ (a ||| b).toNat := by
  rw [UInt8.toNat_or]
  exact Nat.le_trans h Nat.right_le_or

/-- No byte of a character beyond ASCII is one of ASCII. -/
theorem le_toNat_of_mem_utf8EncodeChar {c : Char} (h : 128 ≤ c.toNat) :
    ∀ b ∈ String.utf8EncodeChar c, 128 ≤ b.toNat := by
  have hne : c.utf8Size ≠ 1 := fun hsize =>
    absurd (utf8Size_eq_one_iff.mp hsize) (Nat.not_lt_of_le h)
  intro b hb
  -- Every byte of a longer encoding has its highest bit set.
  rcases c.utf8Size_eq with hsize | hsize | hsize | hsize
  · exact absurd hsize hne
  · rw [String.utf8EncodeChar_eq_cons_cons hsize] at hb
    simp only [List.mem_cons, List.not_mem_nil, or_false] at hb
    rcases hb with rfl | rfl <;> exact le_toNat_or (by decide)
  · rw [String.utf8EncodeChar_eq_cons_cons_cons hsize] at hb
    simp only [List.mem_cons, List.not_mem_nil, or_false] at hb
    rcases hb with rfl | rfl | rfl <;> exact le_toNat_or (by decide)
  · rw [String.utf8EncodeChar_eq_cons_cons_cons_cons hsize] at hb
    simp only [List.mem_cons, List.not_mem_nil, or_false] at hb
    rcases hb with rfl | rfl | rfl | rfl <;> exact le_toNat_or (by decide)

/-- Only the first byte of a character can be one of ASCII. -/
theorem le_toNat_of_mem_tail_utf8EncodeChar (c : Char) :
    ∀ b ∈ (String.utf8EncodeChar c).tail, 128 ≤ b.toNat := by
  intro b hb
  by_cases hc : c.toNat < 128
  · rw [utf8EncodeChar_of_lt hc] at hb
    cases hb
  · exact le_toNat_of_mem_utf8EncodeChar (Nat.le_of_not_lt hc) b (List.mem_of_mem_tail hb)

private theorem toNat_toUInt8 {c : Char} (h : c.toNat < 128) : c.toUInt8.toNat = c.toNat := by
  change c.val.toUInt8.toNat = c.val.toNat
  rw [UInt32.toNat_toUInt8]
  exact Nat.mod_eq_of_lt (Nat.lt_trans h (by decide))

theorem ne_toUInt8_of_le {a : Char} (ha : a.toNat < 128) {b : UInt8} (hb : 128 ≤ b.toNat) :
    b ≠ a.toUInt8 := by
  rintro rfl
  rw [toNat_toUInt8 ha] at hb
  exact absurd ha (Nat.not_lt_of_le hb)

/-- A byte of a character is that of an ASCII character only if the character is this one. -/
theorem eq_toUInt8_iff {a c : Char} (ha : a.toNat < 128) :
    ∀ b ∈ String.utf8EncodeChar c, b = a.toUInt8 ↔ c = a := by
  intro b hb
  by_cases hc : c.toNat < 128
  · rw [utf8EncodeChar_of_lt hc, List.mem_singleton] at hb
    rw [hb, ← UInt8.toNat_inj, toNat_toUInt8 hc, toNat_toUInt8 ha]
    exact Char.toNat_inj
  · have hle := le_toNat_of_mem_utf8EncodeChar (Nat.le_of_not_lt hc) b hb
    refine iff_of_false (ne_toUInt8_of_le ha hle) ?_
    rintro rfl
    exact hc ha

/-- Whether a byte is that of an ASCII digit. -/
def isDigitByte (b : UInt8) : Bool :=
  '0'.toUInt8 ≤ b && b ≤ '9'.toUInt8

private theorem isDigitByte_iff {b : UInt8} :
    isDigitByte b = true ↔ 48 ≤ b.toNat ∧ b.toNat ≤ 57 := by
  rw [isDigitByte, Bool.and_eq_true, decide_eq_true_iff, decide_eq_true_iff, UInt8.le_iff_toNat_le,
    UInt8.le_iff_toNat_le]
  exact Iff.rfl

private theorem isDigit_iff {c : Char} : c.isDigit = true ↔ 48 ≤ c.toNat ∧ c.toNat ≤ 57 := by
  rw [Char.isDigit, Bool.and_eq_true, decide_eq_true_iff, decide_eq_true_iff, ge_iff_le,
    UInt32.le_iff_toNat_le, UInt32.le_iff_toNat_le]
  exact Iff.rfl

/-- A byte of a character is a digit only if the character is one. -/
theorem isDigitByte_eq {c : Char} :
    ∀ b ∈ String.utf8EncodeChar c, isDigitByte b = c.isDigit := by
  intro b hb
  rw [Bool.eq_iff_iff, isDigitByte_iff, isDigit_iff]
  by_cases hc : c.toNat < 128
  · rw [utf8EncodeChar_of_lt hc, List.mem_singleton] at hb
    rw [hb, toNat_toUInt8 hc]
  · have hle := le_toNat_of_mem_utf8EncodeChar (Nat.le_of_not_lt hc) b hb
    omega

/-! ### Bytes at the offset of a character -/

section

variable {byteTest : UInt8 → Bool} {charTest : Char → Bool}

/-- The longest run of bytes that pass a test is that of the characters, if the test answers for all
bytes of a character as for the character. -/
theorem length_takeWhile_encode
    (h : ∀ c, ∀ b ∈ String.utf8EncodeChar c, byteTest b = charTest c) (cs : List Char) :
    ((encode cs).takeWhile byteTest).length = byteLength (cs.takeWhile charTest) := by
  induction cs with
  | nil => rfl
  | cons c cs ih =>
    rw [encode_cons]
    by_cases hc : charTest c = true
    · rw [List.takeWhile_append_of_pos fun b hb => (h c b hb).trans hc,
        List.takeWhile_cons_of_pos hc, List.length_append, ih, String.length_utf8EncodeChar,
        byteLength_cons]
    · obtain ⟨b, bs, hbytes⟩ := List.exists_cons_of_ne_nil (String.utf8EncodeChar_ne_nil (c := c))
      have hb : ¬byteTest b = true := by
        rw [h c b (hbytes ▸ List.mem_cons_self)]
        exact hc
      rw [List.takeWhile_cons_of_neg hc, hbytes, List.cons_append, List.takeWhile_cons_of_neg hb]
      rfl

theorem any_head?_encode
    (h : ∀ c, ∀ b ∈ String.utf8EncodeChar c, byteTest b = charTest c) (cs : List Char) :
    (encode cs).head?.any byteTest = cs.head?.any charTest := by
  cases cs with
  | nil => rfl
  | cons c cs =>
    obtain ⟨b, bs, hbytes⟩ := List.exists_cons_of_ne_nil (String.utf8EncodeChar_ne_nil (c := c))
    rw [encode_cons, hbytes]
    exact h c b (hbytes ▸ List.mem_cons_self)

end

/-- A text begins with the byte of an ASCII character only if it begins with this character. -/
theorem head?_encode_eq_some_iff {a : Char} (ha : a.toNat < 128) (cs : List Char) :
    (encode cs).head? = some a.toUInt8 ↔ cs.head? = some a := by
  cases cs with
  | nil => exact iff_of_false nofun nofun
  | cons c cs =>
    obtain ⟨b, bs, hbytes⟩ := List.exists_cons_of_ne_nil (String.utf8EncodeChar_ne_nil (c := c))
    rw [encode_cons, hbytes, List.cons_append, List.head?_cons, List.head?_cons, Option.some_inj,
      Option.some_inj]
    exact eq_toUInt8_iff ha b (hbytes ▸ List.mem_cons_self)

/-- The byte at the offset of a part of the text is its first one. -/
theorem getElem?_encode (front cs : List Char) :
    (encode (front ++ cs))[byteLength front]? = (encode cs).head? := by
  rw [← drop_encode front cs, List.head?_drop]

/-- The byte after an ASCII character is the first one of the text after it. -/
theorem getElem?_encode_succ {c : Char} (hc : c.toNat < 128) (front cs : List Char) :
    (encode (front ++ c :: cs))[byteLength front + 1]? = (encode cs).head? := by
  have hfront : byteLength front + 1 = byteLength (front ++ [c]) := by
    rw [byteLength_append, byteLength_cons, utf8Size_eq_one_iff.mpr hc, byteLength_nil]
  rw [hfront, List.append_cons, getElem?_encode]

end LosslessSyntax
