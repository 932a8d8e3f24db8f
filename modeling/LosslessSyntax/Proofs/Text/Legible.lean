import LosslessSyntax.Text.Cut
import LosslessSyntax.Text.Quoted
import Mathlib.Tactic.SplitIfs

/-!
# What is written can be read

A number, a span and a quoted text can each be read off a longer text that begins with it, and leave
the rest of that text. Numbers and names end where their characters do (`append_inj_of_run`). A
quoted text ends at its own quote whatever it holds and whichever characters show plainly, since its
characters are written in a way that no other begins with, and never with a quote
(`quotedString_append_inj`). Nor does any of them hold a line feed.
-/

namespace LosslessSyntax

theorem forall_mem_head?_cons {test : Char → Bool} {d : Char} {cs : List Char}
    (hd : test d = false) : ∀ c ∈ (d :: cs).head?, test c = false := by
  rintro _ ⟨⟩
  exact hd

theorem notMem_of_forall_mem {test : Char → Bool} {d : Char} {cs : List Char}
    (hcs : ∀ c ∈ cs, test c = true) (hd : test d = false) : d ∉ cs := fun hmem =>
  absurd (hcs d hmem) (Bool.eq_false_iff.mp hd)

/-- A run in front of what does not belong to it can be read. -/
theorem append_inj_of_run {test : Char → Bool} {run run' rest rest' : List Char}
    (hrun : ∀ c ∈ run, test c = true) (hrun' : ∀ c ∈ run', test c = true)
    (hrest : ∀ c ∈ rest.head?, test c = false) (hrest' : ∀ c ∈ rest'.head?, test c = false)
    (h : run ++ rest = run' ++ rest') : run = run' ∧ rest = rest' := by
  obtain ⟨htake, hdrop⟩ := takeWhile_append_of_run hrun hrest
  obtain ⟨htake', hdrop'⟩ := takeWhile_append_of_run hrun' hrest'
  exact ⟨by rw [← htake, h, htake'], by rw [← hdrop, h, hdrop']⟩

/-- A word in front of what is no letter can be read. -/
theorem word_append_inj {word word' : String} {rest rest' : List Char}
    (hword : ∀ c ∈ word.toList, c.isAlpha = true) (hword' : ∀ c ∈ word'.toList, c.isAlpha = true)
    (hrest : ∀ c ∈ rest.head?, c.isAlpha = false) (hrest' : ∀ c ∈ rest'.head?, c.isAlpha = false)
    (h : word.toList ++ rest = word'.toList ++ rest') : word = word' ∧ rest = rest' := by
  obtain ⟨heq, hrest⟩ := append_inj_of_run hword hword' hrest hrest' h
  exact ⟨String.toList_inj.mp heq, hrest⟩

/-! ### Numbers -/

section Digits

variable {b n : Nat}

theorem digitChar_inj {d e : Nat} (hd : d < 16) (he : e < 16)
    (h : d.digitChar = e.digitChar) : d = e := by
  have hall : ∀ d < 16, ∀ e < 16, d.digitChar = e.digitChar → d = e := by decide
  exact hall d hd e he h

/-- The digits of a number are those in front of its last one, if any, and the last one. -/
theorem toDigits_eq_append (hb : 1 < b) (n : Nat) : Nat.toDigits b n =
    (if n < b then [] else Nat.toDigits b (n / b)) ++ [(n % b).digitChar] := by
  rw [Nat.toDigits_eq_if hb]
  split_ifs with h
  · rw [Nat.mod_eq_of_lt h, List.nil_append]
  · rfl

/-- A number is known from its digits. -/
theorem toDigits_injective (hb : 1 < b) (hle : b ≤ 16) : Function.Injective (Nat.toDigits b) := by
  have hmod (k : Nat) : k % b < 16 := Nat.lt_of_lt_of_le (Nat.mod_lt k (by omega)) hle
  intro m
  induction m using Nat.strongRecOn with
  | ind m ih =>
    intro n h
    rw [toDigits_eq_append hb m, toDigits_eq_append hb n] at h
    obtain ⟨hfront, hlast⟩ := List.append_inj' h rfl
    have hdiv : m / b = n / b := by
      split_ifs at hfront with hm hn hn
      · rw [Nat.div_eq_of_lt hm, Nat.div_eq_of_lt hn]
      · exact absurd hfront.symm Nat.toDigits_ne_nil
      · exact absurd hfront Nat.toDigits_ne_nil
      · exact ih (m / b) (Nat.div_lt_self (by omega) hb) hfront
    rw [← Nat.div_add_mod m b, hdiv, digitChar_inj (hmod m) (hmod n) (List.singleton_inj.mp hlast),
      Nat.div_add_mod]

theorem isAlphanum_of_mem_toDigits (hb : 1 < b) (hle : b ≤ 16) :
    ∀ c ∈ Nat.toDigits b n, c.isAlphanum = true := by
  have hdigit : ∀ d < 16, d.digitChar.isAlphanum = true := by decide
  induction n using Nat.strongRecOn with
  | ind n ih =>
    intro c hc
    rw [toDigits_eq_append hb] at hc
    rcases List.mem_append.mp hc with hfront | hlast
    · split_ifs at hfront with hn
      · cases hfront
      · exact ih (n / b) (Nat.div_lt_self (by omega) hb) c hfront
    · rw [List.mem_singleton.mp hlast]
      exact hdigit _ (Nat.lt_of_lt_of_le (Nat.mod_lt n (by omega)) hle)

/-- A number in front of what is no digit can be read. -/
theorem decimal_append_inj {m : Nat} {rest rest' : List Char}
    (hrest : ∀ c ∈ rest.head?, c.isDigit = false) (hrest' : ∀ c ∈ rest'.head?, c.isDigit = false)
    (h : Nat.toDigits 10 m ++ rest = Nat.toDigits 10 n ++ rest') : m = n ∧ rest = rest' := by
  have hdigits (n : Nat) : ∀ c ∈ Nat.toDigits 10 n, c.isDigit = true := fun _ hc =>
    Nat.isDigit_of_mem_toDigits (by decide) (by decide) hc
  obtain ⟨hnumber, hrest⟩ := append_inj_of_run (hdigits m) (hdigits n) hrest hrest' h
  exact ⟨toDigits_injective (by decide) (by decide) hnumber, hrest⟩

end Digits

namespace Span

theorem toList_toString (span : Span) : (toString span).toList =
    Nat.toDigits 10 span.start ++ '.' :: '.' :: Nat.toDigits 10 span.stop := by
  have hstart : (toString span.start).toList = Nat.toDigits 10 span.start := Nat.toList_repr
  have hstop : (toString span.stop).toList = Nat.toDigits 10 span.stop := Nat.toList_repr
  change (toString span.start ++ ".." ++ toString span.stop).toList = _
  rw [String.toList_append, String.toList_append, hstart, hstop, List.append_assoc]
  rfl

/-- A span in front of what is no digit can be read. -/
theorem append_inj {span other : Span} {rest rest' : List Char}
    (hrest : ∀ c ∈ rest.head?, c.isDigit = false) (hrest' : ∀ c ∈ rest'.head?, c.isDigit = false)
    (h : (toString span).toList ++ rest = (toString other).toList ++ rest') :
    span = other ∧ rest = rest' := by
  have hdot : Char.isDigit '.' = false := by decide
  rw [toList_toString, toList_toString, List.append_assoc, List.append_assoc] at h
  obtain ⟨hstart, h⟩ := decimal_append_inj (forall_mem_head?_cons hdot)
    (forall_mem_head?_cons hdot) h
  obtain ⟨hstop, h⟩ := decimal_append_inj hrest hrest' (List.cons.inj (List.cons.inj h).2).2
  refine ⟨?_, h⟩
  have hlength : span.length = other.length := by
    rw [stop, stop, hstart] at hstop
    exact Nat.add_left_cancel hstop
  cases span
  cases other
  exact congr (congrArg mk hstart) hlength

theorem lineFeed_notMem_toString (span : Span) : '\n' ∉ (toString span).toList := by
  have hdigits (n : Nat) : '\n' ∉ Nat.toDigits 10 n :=
    notMem_of_forall_mem (isAlphanum_of_mem_toDigits (by decide) (by decide)) (by decide)
  rw [toList_toString]
  simp [hdigits]

end Span

/-! ### Quoted text -/

namespace Quoted

/-- The characters with a short escape, each behind the mark that stands for it. -/
def shortEscapes : List (Char × Char) :=
  [('0', '\x00'), ('t', '\t'), ('r', '\r'), ('n', '\n'), ('\\', '\\'), ('"', '"')]

/-- A mark stands for one character, and none opens a code point or breaks the line. -/
theorem mark_of_mem_shortEscapes : ∀ escape ∈ shortEscapes,
    (∀ other ∈ shortEscapes, escape.1 = other.1 → escape.2 = other.2) ∧
      escape.1 ≠ 'u' ∧ escape.1 ≠ '\n' := by
  decide

/-- The ways to write a character between double quotes. -/
inductive Writes (c : Char) : List Char → Prop
  | short {mark : Char} (h : (mark, c) ∈ shortEscapes) : Writes c ['\\', mark]
  | plain (hbackslash : c ≠ '\\') (hquote : c ≠ '"') (hfeed : c ≠ '\n') : Writes c [c]
  | codePoint : Writes c (escapeCodePoint c)

theorem writes_encodeChar (plain : Char → Bool) (c : Char) :
    Writes c (encodeChar plain '"' c) := by
  unfold encodeChar
  split_ifs with hnull htab hreturn hfeed hquote hplain
  · exact .short (by simp [hnull, shortEscapes])
  · exact .short (by simp [htab, shortEscapes])
  · exact .short (by simp [hreturn, shortEscapes])
  · exact .short (by simp [hfeed, shortEscapes])
  · exact .short (by rcases hquote with rfl | rfl <;> simp [shortEscapes])
  · exact .plain (fun h => hquote (.inl h)) (fun h => hquote (.inr h)) hfeed
  · exact .codePoint

section

variable {c d : Char} {piece piece' rest rest' : List Char}

theorem escapeCodePoint_append_inj (h : escapeCodePoint c ++ rest = escapeCodePoint d ++ rest') :
    c = d ∧ rest = rest' := by
  have hdigits (c : Char) : ∀ digit ∈ Nat.toDigits 16 c.toNat, digit.isAlphanum = true :=
    isAlphanum_of_mem_toDigits (by decide) (by decide)
  have hbrace : Char.isAlphanum '\x7d' = false := by decide
  simp only [escapeCodePoint, List.cons_append, List.append_assoc, List.cons.injEq, true_and,
    List.nil_append] at h
  obtain ⟨hnumber, h⟩ := append_inj_of_run (hdigits c) (hdigits d)
    (forall_mem_head?_cons hbrace) (forall_mem_head?_cons hbrace) h
  exact ⟨Char.toNat_inj.mp (toDigits_injective (by decide) (by decide) hnumber),
    (List.cons.inj h).2⟩

/-- No way to write a character is the beginning of one to write another. -/
theorem Writes.append_inj (hc : Writes c piece) (hd : Writes d piece')
    (h : piece ++ rest = piece' ++ rest') : c = d ∧ rest = rest' := by
  cases hc with
  | short hc =>
    cases hd with
    | short hd =>
      obtain ⟨hmark, hrest⟩ := List.cons.inj (List.cons.inj h).2
      exact ⟨(mark_of_mem_shortEscapes _ hc).1 _ hd hmark, hrest⟩
    | plain hbackslash => exact absurd (List.cons.inj h).1.symm hbackslash
    | codePoint =>
      exact absurd (List.cons.inj (List.cons.inj h).2).1 (mark_of_mem_shortEscapes _ hc).2.1
  | plain hbackslash =>
    cases hd with
    | short => exact absurd (List.cons.inj h).1 hbackslash
    | plain => exact List.cons.inj h
    | codePoint => exact absurd (List.cons.inj h).1 hbackslash
  | codePoint =>
    cases hd with
    | short hd =>
      exact absurd (List.cons.inj (List.cons.inj h).2).1.symm (mark_of_mem_shortEscapes _ hd).2.1
    | plain hbackslash => exact absurd (List.cons.inj h).1.symm hbackslash
    | codePoint => exact escapeCodePoint_append_inj h

theorem Writes.exists_cons_ne_quote (h : Writes c piece) :
    ∃ first tail, piece = first :: tail ∧ first ≠ '"' := by
  cases h with
  | short => exact ⟨_, _, rfl, by decide⟩
  | plain _ hquote => exact ⟨_, _, rfl, hquote⟩
  | codePoint => exact ⟨_, _, rfl, by decide⟩

theorem Writes.lineFeed_notMem (h : Writes c piece) : '\n' ∉ piece := by
  cases h with
  | short h => simp [(mark_of_mem_shortEscapes _ h).2.2.symm]
  | plain _ _ hfeed => simpa using hfeed.symm
  | codePoint =>
    have hdigits : '\n' ∉ Nat.toDigits 16 c.toNat :=
      notMem_of_forall_mem (isAlphanum_of_mem_toDigits (by decide) (by decide)) (by decide)
    simp [escapeCodePoint, hdigits]

end

/-- The characters of a quoted text end at its quote. -/
theorem encode_append_inj {plain : Char → Bool} {cs ds rest rest' : List Char}
    (h : encode plain '"' cs ++ '"' :: rest = encode plain '"' ds ++ '"' :: rest') :
    cs = ds ∧ rest = rest' := by
  have hquote {c : Char} {cs ds : List Char} :
      '"' :: ds ≠ encodeChar plain '"' c ++ cs := fun h => by
    obtain ⟨first, tail, hpiece, hfirst⟩ := (writes_encodeChar plain c).exists_cons_ne_quote
    rw [hpiece] at h
    exact hfirst (List.cons.inj h).1.symm
  simp only [encode] at h ⊢
  induction cs generalizing ds with
  | nil =>
    cases ds with
    | nil => exact ⟨rfl, (List.cons.inj h).2⟩
    | cons d ds =>
      rw [List.flatMap_cons, List.append_assoc] at h
      exact absurd h hquote
  | cons c cs ih =>
    cases ds with
    | nil =>
      rw [List.flatMap_cons, List.append_assoc] at h
      exact absurd h.symm hquote
    | cons d ds =>
      rw [List.flatMap_cons, List.flatMap_cons, List.append_assoc, List.append_assoc] at h
      obtain ⟨rfl, htail⟩ := (writes_encodeChar plain c).append_inj (writes_encodeChar plain d) h
      obtain ⟨rfl, hrest⟩ := ih htail
      exact ⟨rfl, hrest⟩

end Quoted

section

variable {plain : Char → Bool}

theorem toList_quotedString (s : String) : (quotedString s plain).toList =
    '"' :: (Quoted.encode plain '"' s.toList ++ ['"']) :=
  String.toList_ofList

/-- A quoted text can be read, whatever it holds and whatever is behind it. -/
theorem quotedString_append_inj {s t : String} {rest rest' : List Char}
    (h : (quotedString s plain).toList ++ rest = (quotedString t plain).toList ++ rest') :
    s = t ∧ rest = rest' := by
  rw [toList_quotedString, toList_quotedString, List.cons_append, List.cons_append,
    List.append_assoc, List.append_assoc] at h
  obtain ⟨hs, h⟩ := Quoted.encode_append_inj (List.cons.inj h).2
  exact ⟨String.toList_inj.mp hs, h⟩

theorem lineFeed_notMem_quotedString (s : String) : '\n' ∉ (quotedString s plain).toList := by
  have hencode : '\n' ∉ Quoted.encode plain '"' s.toList := fun h => by
    obtain ⟨c, -, hc⟩ := List.mem_flatMap.mp h
    exact (Quoted.writes_encodeChar plain c).lineFeed_notMem hc
  simp [toList_quotedString, hencode]

end

end LosslessSyntax
