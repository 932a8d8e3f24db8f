import LosslessSyntax.Proofs.Text.Encoding
import LosslessSyntax.Proofs.Token.Locality

/-!
# Scanning by offsets

`ByteScanner.tokens?` scans a text through its bytes: it steps over single bytes where it looks for
ASCII characters, and takes the text from an offset on, up to one, or between two, which is refused
where an offset is inside a character. A loop that comes no further is refused as well. Still the
scan is never refused, whatever the text is, and its answer is that of `tokenize`
(`ByteScanner.tokens?_eq`): wherever it takes a part of the text it stands between two characters.
-/

namespace LosslessSyntax

namespace ByteScanner

/-! ### The scanner -/

/-- Whether a byte is a space or a tab. -/
def isBlankByte (b : UInt8) : Bool :=
  b = ' '.toUInt8 || b = '\t'.toUInt8

/-- Whether a byte is one of the two that make up line breaks. -/
def isBreakByte (b : UInt8) : Bool :=
  b = '\r'.toUInt8 || b = '\n'.toUInt8

/-- The text between two offsets. -/
def between? (cs : List Char) (start stop : Nat) : Option (List Char) :=
  if start ≤ stop then (dropBytes? start cs).bind (takeBytes? (stop - start)) else none

/-- The offset after the longest run of bytes that pass a test. -/
def skipBytes (test : UInt8 → Bool) (bytes : List UInt8) (position : Nat) : Nat :=
  position + ((bytes.drop position).takeWhile test).length

theorem byteLength_of_dropBytes? {count : Nat} {cs rest : List Char}
    (h : dropBytes? count cs = some rest) : count + byteLength rest = byteLength cs := by
  fun_induction dropBytes? count cs with
  | case1 cs =>
    obtain rfl := Option.some.inj h
    exact Nat.zero_add _
  | case2 => cases h
  | case3 count c cs hle ih =>
    have := ih h
    rw [byteLength_cons]
    omega
  | case4 => cases h

/-- The offset after the longest run of characters that pass a test, which takes the text from the
offset of each of them on. -/
def skipChars? (test : Char → Bool) (cs : List Char) (position : Nat) : Option Nat :=
  match _ : dropBytes? position cs with
  | none => none
  | some [] => some position
  | some (c :: _) => if test c then skipChars? test cs (position + c.utf8Size) else some position
termination_by byteLength cs - position
decreasing_by
  have := byteLength_of_dropBytes? ‹_›
  have := c.utf8Size_pos
  rw [byteLength_cons] at *
  omega

/-- The kind of the item of trivia at an offset, and the offset after it. -/
def trivia? (cs : List Char) (position : Nat) : Option (Option (TriviaKind × Nat)) :=
  let bytes := encode cs
  match bytes[position]? with
  | none => some none
  | some b =>
    if isBlankByte b then some (some (.whitespace, skipBytes isBlankByte bytes position))
    else if isBreakByte b then
      let width := if b = '\r'.toUInt8 ∧ bytes[position + 1]? = some '\n'.toUInt8 then 2 else 1
      some (some (.endOfLine, position + width))
    else if b = '/'.toUInt8 ∧ bytes[position + 1]? = some '/'.toUInt8 then
      some (some (.singleLineComment, skipBytes (fun b => !isBreakByte b) bytes position))
    else if b = '/'.toUInt8 ∧ bytes[position + 1]? = some '*'.toUInt8 then
      (dropBytes? (position + 2) cs).map fun body =>
        some (.multiLineComment, position + 2 + byteLength (throughClosing body).1)
    else some none

/-- All the trivia at an offset, and the offset after it. -/
def gap? (cs : List Char) (position : Nat) : Option (List Trivia × Nat) := do
  match ← trivia? cs position with
  | none => return ([], position)
  | some (kind, stop) =>
    let text ← between? cs position stop
    if _ : position < stop ∧ stop ≤ byteLength cs then
      let (items, last) ← gap? cs stop
      return (⟨kind, String.ofList text, position, stop - position⟩ :: items, last)
    else none
termination_by byteLength cs - position

/-- The offset after the quote that closes a literal. A backslash takes the byte after it along,
which can be the first one of several of a character. -/
def closing? (quote : UInt8) : List UInt8 → Nat → Option Nat
  | [], _ => none
  | b :: bs, position =>
    if isBreakByte b then none
    else if b = '\\'.toUInt8 then
      if bs.head?.all isBreakByte then none else closing? quote bs.tail (position + 2)
    else if b = quote then some (position + 1)
    else closing? quote bs (position + 1)
termination_by bytes => bytes.length
decreasing_by
  · simp only [List.length_tail, List.length_cons]
    omega
  · exact Nat.lt_succ_self _

/-- The kind of a number, and the offset after it. -/
def number (bytes : List UInt8) (position : Nat) : TokenKind × Nat :=
  let stop := skipBytes isDigitByte bytes position
  if bytes[stop]? = some '.'.toUInt8 ∧ bytes[stop + 1]?.any isDigitByte then
    (.float, skipBytes isDigitByte bytes (stop + 1))
  else (.integer, stop)

/-- The kind of the token at an offset, and the offset after it. -/
def lexeme? (cs : List Char) (position : Nat) : Option (TokenKind × Nat) := do
  let bytes := encode cs
  match ← dropBytes? position cs with
  | [] => return (.endToken, position)
  | c :: _ =>
    let single := ((TokenKind.punctuation? c).getD .badToken, position + c.utf8Size)
    if startsWord c then
      let stop ← skipChars? isWord cs (position + c.utf8Size)
      return (.identifier, stop)
    else if c.isDigit then return number bytes position
    else if c = '.' ∧ bytes[position + 1]?.any isDigitByte then
      let before ← takeBytes? position cs
      if before.getLast?.any isWord then return single
      else return (.float, skipBytes isDigitByte bytes (position + 1))
    else if c = '"' ∨ c = '\'' then
      match closing? c.toUInt8 (bytes.drop (position + 1)) (position + 1) with
      | some stop => return (if c = '"' then .string else .char, stop)
      | none => return single
    else return single

/-- The tokens from an offset on. -/
def tokens? (cs : List Char) (position : Nat) : Option (List Token) := do
  let (leading, start) ← gap? cs position
  if byteLength cs ≤ start then return [{ Token.endAt start with leading := leading }]
  let (kind, stop) ← lexeme? cs start
  let value ← between? cs start stop
  let (trailing, next) ← gap? cs stop
  if _ : position < next ∧ next ≤ byteLength cs then
    let others ← tokens? cs next
    return ⟨kind, String.ofList value, ⟨start, stop - start⟩, leading, trailing⟩ :: others
  else none
termination_by byteLength cs - position

/-! ### Between two characters -/

theorem isBlankByte_eq : ∀ c, ∀ b ∈ String.utf8EncodeChar c, isBlankByte b = isBlank c := by
  intro c b hb
  rw [isBlankByte, isBlank, decide_eq_decide.mpr (eq_toUInt8_iff (by decide) b hb),
    decide_eq_decide.mpr (eq_toUInt8_iff (by decide) b hb)]

theorem isBreakByte_eq : ∀ c, ∀ b ∈ String.utf8EncodeChar c, isBreakByte b = isBreak c := by
  intro c b hb
  rw [isBreakByte, isBreak, decide_eq_decide.mpr (eq_toUInt8_iff (by decide) b hb),
    decide_eq_decide.mpr (eq_toUInt8_iff (by decide) b hb)]

theorem skipBytes_eq {byteTest : UInt8 → Bool} {charTest : Char → Bool}
    (h : ∀ c, ∀ b ∈ String.utf8EncodeChar c, byteTest b = charTest c) (front cs : List Char) :
    skipBytes byteTest (encode (front ++ cs)) (byteLength front) =
      byteLength front + byteLength (cs.takeWhile charTest) := by
  rw [skipBytes, drop_encode, length_takeWhile_encode h]

theorem skipChars?_eq (test : Char → Bool) (front cs : List Char) :
    skipChars? test (front ++ cs) (byteLength front) =
      some (byteLength front + byteLength (cs.takeWhile test)) := by
  induction cs generalizing front with
  | nil =>
    have hdrop := dropBytes?_byteLength_append front []
    rw [skipChars?]
    split
    · next hnone => exact nomatch hnone.symm.trans hdrop
    · rfl
    · next hcons => exact nomatch hcons.symm.trans hdrop
  | cons c cs ih =>
    have hdrop := dropBytes?_byteLength_append front (c :: cs)
    rw [skipChars?]
    split
    · next hnone => exact nomatch hnone.symm.trans hdrop
    · next hnil => exact nomatch hnil.symm.trans hdrop
    · next d ds hcons =>
      obtain ⟨rfl, rfl⟩ := List.cons.inj (Option.some.inj (hcons.symm.trans hdrop))
      by_cases hd : test d = true
      · have hfront : byteLength front + d.utf8Size = byteLength (front ++ [d]) := by simp
        rw [if_pos hd, hfront, List.append_cons, ih, List.takeWhile_cons_of_pos hd, ← hfront,
          byteLength_cons, Nat.add_assoc]
      · rw [if_neg hd, List.takeWhile_cons_of_neg hd]
        rfl

theorem between?_eq (front piece cs : List Char) :
    between? (front ++ (piece ++ cs)) (byteLength front) (byteLength front + byteLength piece) =
      some piece := by
  rw [between?, if_pos (Nat.le_add_right _ _), dropBytes?_byteLength_append, Option.bind_some,
    Nat.add_sub_cancel_left, takeBytes?_byteLength_append]

/-! ### Trivia -/

/-- The scan of a blank, a break or a comment. -/
theorem trivia?_eq (front cs : List Char) :
    trivia? (front ++ cs) (byteLength front) =
      some ((Trivia.next? cs).map fun cut =>
        (cut.kind, byteLength front + byteLength cut.piece)) := by
  cases cs with
  | nil =>
    have hbyte := getElem?_encode front []
    simp only [trivia?, hbyte]
    rfl
  | cons c cs =>
    obtain ⟨b, bs, hbytes⟩ := List.exists_cons_of_ne_nil (String.utf8EncodeChar_ne_nil (c := c))
    have hmem : b ∈ String.utf8EncodeChar c := hbytes ▸ List.mem_cons_self
    have hbyte : (encode (front ++ c :: cs))[byteLength front]? = some b := by
      rw [getElem?_encode, encode_cons, hbytes]
      rfl
    have hpair (a d : Char) (ha : a.toNat < 128) (hd : d.toNat < 128) :
        (b = a.toUInt8 ∧ (encode (front ++ c :: cs))[byteLength front + 1]? = some d.toUInt8) ↔
          (c = a ∧ cs.head? = some d) := by
      rw [eq_toUInt8_iff ha b hmem]
      refine and_congr_right fun hc => ?_
      rw [getElem?_encode_succ (hc ▸ ha), head?_encode_eq_some_iff hd]
    simp only [trivia?, hbyte, isBlankByte_eq c b hmem, isBreakByte_eq c b hmem, Trivia.next?_cons,
      hpair _ _ (show '\r'.toNat < 128 by decide) (show '\n'.toNat < 128 by decide),
      hpair _ _ (show '/'.toNat < 128 by decide) (show '/'.toNat < 128 by decide),
      hpair _ _ (show '/'.toNat < 128 by decide) (show '*'.toNat < 128 by decide)]
    by_cases hblank : isBlank c = true
    · rw [if_pos hblank, if_pos hblank, skipBytes_eq isBlankByte_eq,
        List.takeWhile_cons_of_pos hblank]
      rfl
    rw [if_neg hblank, if_neg hblank]
    by_cases hbreak : isBreak c = true
    · rw [if_pos hbreak, if_pos hbreak]
      split
      · rfl
      · have hsize : c.utf8Size = 1 := by
          rw [isBreak, Bool.or_eq_true, decide_eq_true_iff, decide_eq_true_iff] at hbreak
          rcases hbreak with rfl | rfl <;> rfl
        rw [Option.map_some, byteLength_cons, hsize]
        rfl
    rw [if_neg hbreak, if_neg hbreak]
    by_cases hline : c = '/' ∧ cs.head? = some '/'
    · obtain ⟨rfl, ds, rfl⟩ : c = '/' ∧ ∃ ds, cs = '/' :: ds :=
        ⟨hline.1, List.head?_eq_some_iff.mp hline.2⟩
      have htest : ∀ c, ∀ b ∈ String.utf8EncodeChar c, (!isBreakByte b) = !isBreak c :=
        fun c b hb => congrArg not (isBreakByte_eq c b hb)
      rw [if_pos hline, if_pos hline, skipBytes_eq htest]
      rfl
    rw [if_neg hline, if_neg hline]
    by_cases hblock : c = '/' ∧ cs.head? = some '*'
    · obtain ⟨rfl, ds, rfl⟩ : c = '/' ∧ ∃ ds, cs = '*' :: ds :=
        ⟨hblock.1, List.head?_eq_some_iff.mp hblock.2⟩
      have hbody : dropBytes? (byteLength front + 2) (front ++ '/' :: '*' :: ds) = some ds := by
        have := dropBytes?_byteLength_append (front ++ ['/', '*']) ds
        rwa [byteLength_append, List.append_assoc] at this
      have hopening : byteLength ('/' :: '*' :: (throughClosing ds).1) =
          2 + byteLength (throughClosing ds).1 :=
        byteLength_append ['/', '*'] (throughClosing ds).1
      rw [if_pos hblock, if_pos hblock, hbody, Option.map_some, Option.map_some, List.tail_cons,
        hopening, Nat.add_assoc]
    rw [if_neg hblock, if_neg hblock]
    rfl

/-- The scan of a gap. -/
theorem gap?_eq (front cs : List Char) :
    gap? (front ++ cs) (byteLength front) =
      some ((Gap.scan (byteLength front) cs).items,
        byteLength front + byteLength (Gap.scan (byteLength front) cs).piece) := by
  -- The text before the gap grows by each item that the induction passes.
  generalize hp : byteLength front = position
  fun_induction Gap.scan position cs generalizing front with
  | case1 position cs h =>
    subst hp
    rw [gap?, trivia?_eq, h]
    rfl
  | case2 position cs cut h gap ih =>
    subst hp
    obtain ⟨happend, hne⟩ := Trivia.of_next? h
    have hstop : byteLength front + byteLength cut.piece = byteLength (front ++ cut.piece) :=
      (byteLength_append front cut.piece).symm
    have hprogress : byteLength front < byteLength front + byteLength cut.piece ∧
        byteLength front + byteLength cut.piece ≤ byteLength (front ++ cs) := by
      rw [byteLength_append, ← happend, byteLength_append]
      have := byteLength_pos hne
      omega
    have hbetween := between?_eq front cut.piece cut.rest
    have hrest := ih (front ++ cut.piece) hstop.symm
    rw [happend] at hbetween
    rw [List.append_assoc, happend] at hrest
    rw [gap?, trivia?_eq, h]
    simp only [Option.map_some, Option.bind_eq_bind, Option.bind_some, hbetween, hrest,
      Nat.add_sub_cancel_left]
    rw [dif_pos hprogress, byteLength_append cut.piece, Nat.add_assoc]
    rfl

/-- After a gap there is no trivia to scan. -/
private theorem gap?_rest (front : List Char) (position : Nat) (cs : List Char) :
    gap? (front ++ (Gap.scan position cs).rest) (byteLength front) =
      some ([], byteLength front) := by
  rw [gap?, trivia?_eq, Gap.next?_rest]
  rfl

/-! ### Lexemes -/

/-- Whether a text begins with a dot and a digit. -/
def StartsFraction (cs : List Char) : Prop :=
  ∃ rest, cs = '.' :: rest ∧ startsWithDigit rest = true

private theorem startsFraction_iff (front cs : List Char) :
    ((encode (front ++ cs))[byteLength front]? = some '.'.toUInt8 ∧
      (encode (front ++ cs))[byteLength front + 1]?.any isDigitByte = true) ↔
      StartsFraction cs := by
  rw [getElem?_encode, head?_encode_eq_some_iff (by decide), List.head?_eq_some_iff]
  constructor
  · rintro ⟨⟨rest, rfl⟩, hdigit⟩
    rw [getElem?_encode_succ (by decide), any_head?_encode (fun _ => isDigitByte_eq)] at hdigit
    exact ⟨rest, rfl, hdigit⟩
  · rintro ⟨rest, rfl, hdigit⟩
    rw [getElem?_encode_succ (by decide), any_head?_encode (fun _ => isDigitByte_eq)]
    exact ⟨⟨rest, rfl⟩, hdigit⟩

theorem number_eq (front cs : List Char) {c : Char} (hc : c.isDigit = true) :
    number (encode (front ++ c :: cs)) (byteLength front) =
      ((Lexeme.number c cs).kind, byteLength front + byteLength (Lexeme.number c cs).piece) := by
  have hstop : skipBytes isDigitByte (encode (front ++ c :: cs)) (byteLength front) =
      byteLength (front ++ c :: cs.takeWhile Char.isDigit) := by
    rw [skipBytes_eq (fun _ => isDigitByte_eq), List.takeWhile_cons_of_pos hc, byteLength_append]
  have hwhole : front ++ c :: cs =
      (front ++ c :: cs.takeWhile Char.isDigit) ++ cs.dropWhile Char.isDigit := by
    rw [List.append_assoc, List.cons_append, List.takeWhile_append_dropWhile]
  rw [number, hstop, hwhole]
  rcases Lexeme.number_cases c cs with ⟨rest, hrest, hdigit, hnumber⟩ | ⟨hnone, hnumber⟩
  · rw [if_pos ((startsFraction_iff _ _).mpr ⟨rest, hrest, hdigit⟩)]
    have hdot : byteLength (front ++ c :: cs.takeWhile Char.isDigit) + 1 =
        byteLength (front ++ c :: cs.takeWhile Char.isDigit ++ ['.']) := by
      rw [byteLength_append _ ['.']]
      rfl
    rw [hrest, hdot, List.append_cons, skipBytes_eq (fun _ => isDigitByte_eq), hnumber]
    simp [Cut.run, Nat.add_assoc]
  · have hfraction : ¬StartsFraction (cs.dropWhile Char.isDigit) := by
      rintro ⟨rest, hrest, hdigit⟩
      exact hnone rest hrest hdigit
    rw [if_neg (fun h => hfraction ((startsFraction_iff _ _).mp h)), hnumber, byteLength_append]

/-- Bytes that neither close a literal nor end it nor escape are passed over. -/
private theorem closing?_append {quote : UInt8} {bytes : List UInt8}
    (h : ∀ b ∈ bytes, isBreakByte b = false ∧ b ≠ '\\'.toUInt8 ∧ b ≠ quote) (bs : List UInt8)
    (position : Nat) :
    closing? quote (bytes ++ bs) position = closing? quote bs (position + bytes.length) := by
  induction bytes generalizing position with
  | nil => rfl
  | cons b bytes ih =>
    obtain ⟨⟨hbreak, hescape, hquote⟩, hbytes⟩ := List.forall_mem_cons.mp h
    rw [List.cons_append, closing?, if_neg (Bool.eq_false_iff.mp hbreak), if_neg hescape,
      if_neg hquote, ih hbytes, List.length_cons, Nat.add_assoc, Nat.add_comm 1]

theorem closing?_eq {quote : Char} (hquote : quote = '"' ∨ quote = '\'') (cs : List Char)
    (position : Nat) :
    closing? quote.toUInt8 (encode cs) position =
      (throughQuote? quote cs).map fun cut => position + byteLength cut.1 := by
  have hlt : quote.toNat < 128 := by rcases hquote with rfl | rfl <;> decide
  have hother {c : Char} (hbreak : isBreak c = false) (hescape : c ≠ '\\') (hne : c ≠ quote) :
      ∀ b ∈ String.utf8EncodeChar c,
        isBreakByte b = false ∧ b ≠ '\\'.toUInt8 ∧ b ≠ quote.toUInt8 := fun b hb =>
    ⟨(isBreakByte_eq c b hb).trans hbreak,
      fun h => hescape ((eq_toUInt8_iff (by decide) b hb).mp h),
      fun h => hne ((eq_toUInt8_iff hlt b hb).mp h)⟩
  have hescape (cs : List Char) (position : Nat) :
      closing? quote.toUInt8 (encode ('\\' :: cs)) position =
        if (encode cs).head?.all isBreakByte then none
        else closing? quote.toUInt8 (encode cs).tail (position + 2) := by
    rw [encode_cons_of_lt (by decide), closing?, if_neg (by decide), if_pos rfl]
  fun_induction throughQuote? quote cs generalizing position with
  | case1 c cs hbreak =>
    obtain ⟨b, bs, hbytes⟩ := List.exists_cons_of_ne_nil (String.utf8EncodeChar_ne_nil (c := c))
    have hb : isBreakByte b = true :=
      (isBreakByte_eq c b (hbytes ▸ List.mem_cons_self)).trans hbreak
    rw [hescape, encode_cons, hbytes, List.cons_append, List.head?_cons, Option.all_some,
      if_pos hb, Option.map_none]
  | case2 c cs hbreak ih =>
    obtain ⟨b, bs, hbytes⟩ := List.exists_cons_of_ne_nil (String.utf8EncodeChar_ne_nil (c := c))
    have hb : ¬isBreakByte b = true := by
      rw [isBreakByte_eq c b (hbytes ▸ List.mem_cons_self)]
      exact hbreak
    -- What is left of the character that the backslash takes along is no ASCII.
    have hbs : ∀ b ∈ bs, isBreakByte b = false ∧ b ≠ '\\'.toUInt8 ∧ b ≠ quote.toUInt8 := by
      intro b hb
      have hle := le_toNat_of_mem_tail_utf8EncodeChar c b (by rwa [hbytes])
      refine ⟨?_, ne_toUInt8_of_le (by decide) hle, ne_toUInt8_of_le hlt hle⟩
      rw [isBreakByte, decide_eq_false (ne_toUInt8_of_le (by decide) hle),
        decide_eq_false (ne_toUInt8_of_le (by decide) hle), Bool.or_self]
    have hsize : bs.length + 1 = c.utf8Size := by
      rw [← String.length_utf8EncodeChar, hbytes, List.length_cons]
    rw [hescape, encode_cons, hbytes, List.cons_append, List.head?_cons, Option.all_some,
      if_neg hb, List.tail_cons, closing?_append hbs, ih, Option.map_map]
    refine Option.map_congr fun cut _ => ?_
    have hbackslash : '\\'.utf8Size = 1 := rfl
    simp only [Function.comp_apply, byteLength_cons]
    omega
  | case3 c cs hcons hends =>
    obtain ⟨b, bs, hbytes⟩ := List.exists_cons_of_ne_nil (String.utf8EncodeChar_ne_nil (c := c))
    -- The literal ends at a break, and at a backslash with nothing behind it.
    by_cases hbreak : isBreak c = true
    · have hb : isBreakByte b = true :=
        (isBreakByte_eq c b (hbytes ▸ List.mem_cons_self)).trans hbreak
      rw [encode_cons, hbytes, List.cons_append, closing?, if_pos hb, Option.map_none]
    · obtain rfl : c = '\\' := by simpa [hbreak] using hends
      obtain rfl : cs = [] := by
        cases cs with
        | nil => rfl
        | cons d cs => exact (hcons d cs rfl rfl).elim
      rw [hescape]
      rfl
  | case4 cs hcons hends =>
    obtain ⟨hbreakByte, hescapeByte⟩ : isBreakByte quote.toUInt8 = false ∧
        quote.toUInt8 ≠ '\\'.toUInt8 := by
      rcases hquote with rfl | rfl <;> decide
    rw [encode_cons_of_lt hlt, closing?, if_neg (Bool.eq_false_iff.mp hbreakByte),
      if_neg hescapeByte, if_pos rfl, Option.map_some, byteLength_cons,
      utf8Size_eq_one_iff.mpr hlt, byteLength_nil]
  | case5 c cs _ hends hne ih =>
    obtain ⟨hescape, hbreak⟩ : ¬c = '\\' ∧ isBreak c = false := by simpa using hends
    rw [encode_cons, closing?_append (hother hbreak hescape hne), ih,
      String.length_utf8EncodeChar, Option.map_map]
    simp [Function.comp_def, Nat.add_assoc]
  | case6 =>
    rw [encode, List.flatMap_nil, closing?]
    rfl

private theorem dot_iff (front cs : List Char) (c : Char) :
    (c = '.' ∧ (encode (front ++ c :: cs))[byteLength front + 1]?.any isDigitByte = true) ↔
      c = '.' ∧ startsWithDigit cs = true := by
  refine and_congr_right fun hc => ?_
  rw [getElem?_encode_succ (by rw [hc]; decide), any_head?_encode (fun _ => isDigitByte_eq)]
  exact Iff.rfl

/-- The scan of a quote, by what closes it. -/
private theorem quoted_eq (front cs : List Char) {c : Char} (hc : c = '"' ∨ c = '\'')
    (kind : TokenKind) :
    (match closing? c.toUInt8 ((encode (front ++ c :: cs)).drop (byteLength front + 1))
        (byteLength front + 1) with
      | some stop => some (kind, stop)
      | none => some ((TokenKind.punctuation? c).getD .badToken, byteLength front + c.utf8Size)) =
      some ((((Lexeme.quoted? kind c cs).getD (Lexeme.single c cs)).kind,
        byteLength front +
          byteLength ((Lexeme.quoted? kind c cs).getD (Lexeme.single c cs)).piece)) := by
  have hsize : c.utf8Size = 1 := by rcases hc with rfl | rfl <;> rfl
  have hfront : byteLength front + 1 = byteLength (front ++ [c]) := by simp [hsize]
  have hdrop : (encode (front ++ c :: cs)).drop (byteLength front + 1) = encode cs := by
    rw [hfront, List.append_cons front c cs, drop_encode]
  rw [hdrop, closing?_eq hc, Lexeme.quoted?]
  cases throughQuote? c cs with
  | none => simp [Lexeme.single]
  | some cut => simp [hsize, Nat.add_assoc]

/-- The scan of a lexeme. -/
theorem lexeme?_eq (front cs : List Char) (c : Char) :
    lexeme? (front ++ c :: cs) (byteLength front) =
      some ((Lexeme.next front.getLast? c cs).kind,
        byteLength front + byteLength (Lexeme.next front.getLast? c cs).piece) := by
  have hfront : byteLength front + c.utf8Size = byteLength (front ++ [c]) := by simp
  rw [lexeme?, dropBytes?_byteLength_append]
  simp only [Option.bind_eq_bind, Option.bind_some]
  rw [Lexeme.next]
  by_cases hword : startsWord c = true
  · rw [if_pos hword, if_pos hword, hfront, List.append_cons, skipChars?_eq]
    simp [Cut.run, Nat.add_assoc]
  rw [if_neg hword, if_neg hword]
  by_cases hdigit : c.isDigit = true
  · rw [if_pos hdigit, if_pos hdigit, number_eq front cs hdigit]
    rfl
  rw [if_neg hdigit, if_neg hdigit]
  by_cases hdot : c = '.' ∧ startsWithDigit cs = true
  -- The character before the dot is the last one of the text in front of it.
  · obtain ⟨rfl, hcs⟩ := hdot
    rw [if_pos ((dot_iff front cs '.').mpr ⟨rfl, hcs⟩), takeBytes?_byteLength_append,
      Option.bind_some]
    by_cases hbefore : front.getLast?.any isWord = true
    · have hguard : ¬(decide ('.' = '.') && startsWithDigit cs && !front.getLast?.any isWord) =
          true := by simp [hbefore]
      rw [if_pos hbefore, if_neg hguard, if_neg (by decide), if_neg (by decide)]
      rfl
    · have hguard : (decide ('.' = '.') && startsWithDigit cs && !front.getLast?.any isWord) =
          true := by simp [hcs, hbefore]
      have hsize : byteLength front + 1 = byteLength (front ++ ['.']) := hfront
      rw [if_neg hbefore, if_pos hguard, hsize, List.append_cons front '.' cs,
        skipBytes_eq (fun _ => isDigitByte_eq), ← hfront, Cut.run, byteLength_append, Nat.add_assoc]
      rfl
  have hguard : ¬(decide (c = '.') && startsWithDigit cs && !front.getLast?.any isWord) = true := by
    simp only [Bool.and_eq_true, decide_eq_true_iff]
    exact fun h => hdot h.1
  rw [if_neg (fun h => hdot ((dot_iff front cs c).mp h)), if_neg hguard]
  by_cases hdouble : c = '"'
  · rw [if_pos (.inl hdouble), if_pos hdouble, if_pos hdouble]
    exact quoted_eq front cs (.inl hdouble) .string
  rw [if_neg hdouble, if_neg hdouble]
  by_cases hsingle : c = '\''
  · rw [if_pos (.inr hsingle), if_pos hsingle]
    exact quoted_eq front cs (.inr hsingle) .char
  · rw [if_neg (fun h => h.elim hdouble hsingle), if_neg hsingle]
    simp [Lexeme.single]

/-! ### Tokens -/

/-- The scan of one token, and of the tokens from the text after it and its trivia on. -/
private theorem tokens?_cons {front cs : List Char} {c : Char} {leading : List Trivia}
    {position : Nat} {lexeme : Cut TokenKind} {gap : Gap}
    (hlexeme : Lexeme.next front.getLast? c cs = lexeme)
    (hscan : Gap.scan (byteLength front + byteLength lexeme.piece) lexeme.rest = gap)
    (hle : position ≤ byteLength front)
    (hgap : gap? (front ++ c :: cs) position = some (leading, byteLength front)) :
    tokens? (front ++ c :: cs) position =
      (tokens? (front ++ (lexeme.piece ++ gap.piece) ++ gap.rest)
        (byteLength (front ++ (lexeme.piece ++ gap.piece)))).map
        (Token.ofCut (byteLength front) lexeme leading gap.items :: ·) := by
  have hcut : lexeme.Of (c :: cs) := hlexeme ▸ Lexeme.of_next front.getLast? c cs
  have hwhole : front ++ (lexeme.piece ++ gap.piece) ++ gap.rest = front ++ c :: cs := by
    have hrest : gap.piece ++ gap.rest = lexeme.rest := hscan ▸ Gap.scan_append _ lexeme.rest
    rw [List.append_assoc, List.append_assoc, hrest, hcut.append_eq]
  have hnext : byteLength (front ++ (lexeme.piece ++ gap.piece)) =
      byteLength front + byteLength lexeme.piece + byteLength gap.piece := by
    rw [byteLength_append, byteLength_append, Nat.add_assoc]
  have hkind : lexeme? (front ++ c :: cs) (byteLength front) =
      some (lexeme.kind, byteLength front + byteLength lexeme.piece) :=
    hlexeme ▸ lexeme?_eq front cs c
  have hvalue : between? (front ++ c :: cs) (byteLength front)
      (byteLength front + byteLength lexeme.piece) = some lexeme.piece := by
    rw [← hcut.append_eq]
    exact between?_eq front lexeme.piece lexeme.rest
  have htrailing : gap? (front ++ c :: cs) (byteLength front + byteLength lexeme.piece) =
      some (gap.items, byteLength front + byteLength lexeme.piece + byteLength gap.piece) := by
    have := gap?_eq (front ++ lexeme.piece) lexeme.rest
    rwa [byteLength_append, hscan, List.append_assoc, hcut.append_eq] at this
  have hstart : ¬byteLength (front ++ c :: cs) ≤ byteLength front := by
    have := c.utf8Size_pos
    rw [byteLength_append, byteLength_cons]
    omega
  have hprogress : position < byteLength front + byteLength lexeme.piece + byteLength gap.piece ∧
      byteLength front + byteLength lexeme.piece + byteLength gap.piece ≤
        byteLength (front ++ c :: cs) := by
    have := byteLength_pos hcut.piece_ne_nil
    rw [← hwhole, byteLength_append _ gap.rest, hnext]
    omega
  rw [hwhole, hnext, tokens?, hgap]
  simp only [Option.bind_eq_bind, Option.bind_some]
  rw [if_neg hstart, hkind]
  simp only [Option.bind_some, hvalue, htrailing]
  rw [dif_pos hprogress, Nat.add_sub_cancel_left, Option.map_eq_bind]
  rfl

/-- The scan of the tokens from an offset on, by the trivia and the text that stand there. -/
private theorem tokens?_of_gap? (leading : List Trivia) (before : Option Char) (start : Nat)
    (cs : List Char) :
    ∀ front position, front.getLast? = before → byteLength front = start → position ≤ start →
      gap? (front ++ cs) position = some (leading, start) →
        tokens? (front ++ cs) position = some (Token.scan leading before start cs) := by
  -- The text before the tokens grows by each lexeme and by the trivia after it.
  fun_induction Token.scan leading before start cs with
  | case1 leading before start =>
    rintro front position - rfl - hgap
    rw [tokens?, hgap]
    simp
  | case2 leading before start c cs lexeme stop gap ih =>
    rintro front position rfl rfl hle hgap
    have hlexeme : lexeme.Of (c :: cs) := Lexeme.of_next front.getLast? c cs
    have hnext : byteLength (front ++ (lexeme.piece ++ gap.piece)) =
        stop + byteLength gap.piece := by
      rw [byteLength_append, byteLength_append]
      exact (Nat.add_assoc _ _ _).symm
    have hlast : (front ++ (lexeme.piece ++ gap.piece)).getLast? =
        (lexeme.piece ++ gap.piece).getLast? := by
      have hne : lexeme.piece ++ gap.piece ≠ [] := by simp [hlexeme.piece_ne_nil]
      rw [List.getLast?_append, List.getLast?_eq_some_getLast hne, Option.some_or]
    have hothers := ih (front ++ (lexeme.piece ++ gap.piece)) _ hlast hnext (Nat.le_of_eq hnext)
      (by rw [← hnext]; exact gap?_rest _ _ _)
    rw [tokens?_cons rfl rfl hle hgap]
    exact congrArg (Option.map _) hothers

/-- **The scan by offsets is that of the tokens.** -/
theorem tokens?_eq (text : String) : tokens? text.toList 0 = some (tokenize text) := by
  have hgap := gap?_eq [] text.toList
  rw [List.nil_append, byteLength_nil, Nat.zero_add] at hgap
  have := tokens?_of_gap? _ _ _ (Gap.scan 0 text.toList).rest (Gap.scan 0 text.toList).piece 0 rfl
    rfl (Nat.zero_le _) (by rwa [Gap.scan_append])
  rwa [Gap.scan_append] at this

end ByteScanner

end LosslessSyntax
