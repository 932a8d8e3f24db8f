import LosslessSyntax.Proofs.Text.Legible
import LosslessSyntax.Token.Dump
import Mathlib.Data.List.Forall2

/-!
# The token dump can be read

What a dump shows of a token can be read off the line of the token, whatever its text and its trivia
hold. A kind ends at its blank, a quoted text at its quote, a span before what is no digit, and a
list of trivia at its bracket; and of the two lists the one that is left out is known from the label
of the other. So two streams have the same dump if and only if they show the same at each place
(`dumpTokens_eq_iff`), and the dump has as many line feeds as there are tokens.

Nothing here depends on which characters show plainly.
-/

namespace LosslessSyntax

/-! ### Kinds -/

theorem TokenKind.ofName?_name (kind : TokenKind) : ofName? kind.name = some kind := by
  cases kind <;> decide +kernel

theorem TokenKind.name_injective : Function.Injective name := fun kind other h =>
  Option.some.inj (by rw [← ofName?_name, h, ofName?_name])

theorem TokenKind.isAlpha_of_mem_name (kind : TokenKind) :
    ∀ c ∈ kind.name.toList, c.isAlpha = true :=
  List.all_eq_true.mp (by cases kind <;> decide +kernel)

theorem TriviaKind.ofName?_name (kind : TriviaKind) : ofName? kind.name = some kind := by
  cases kind <;> decide +kernel

theorem TriviaKind.name_injective : Function.Injective name := fun kind other h =>
  Option.some.inj (by rw [← ofName?_name, h, ofName?_name])

theorem TriviaKind.isAlpha_of_mem_name (kind : TriviaKind) :
    ∀ c ∈ kind.name.toList, c.isAlpha = true :=
  List.all_eq_true.mp (by cases kind <;> decide +kernel)

/-! ### Trivia -/

/-- What a dump shows of an item of trivia. -/
def Trivia.shown (item : Trivia) : TriviaKind × String :=
  (item.kind, item.text)

section

variable {plain : Char → Bool} {rest rest' : List Char}

theorem Trivia.toList_describe (item : Trivia) : (item.describe plain).toList =
    item.kind.name.toList ++ ' ' :: (quotedString item.text plain).toList := by
  simp [describe]

/-- The description of an item of trivia can be read, whatever is behind it. -/
theorem Trivia.describe_append_inj {item other : Trivia}
    (h : (item.describe plain).toList ++ rest = (other.describe plain).toList ++ rest') :
    item.shown = other.shown ∧ rest = rest' := by
  have hblank : Char.isAlpha ' ' = false := by decide
  rw [toList_describe, toList_describe, List.append_assoc, List.append_assoc] at h
  obtain ⟨hname, h⟩ := word_append_inj item.kind.isAlpha_of_mem_name other.kind.isAlpha_of_mem_name
    (forall_mem_head?_cons hblank) (forall_mem_head?_cons hblank) h
  obtain ⟨htext, hrest⟩ := quotedString_append_inj (List.cons.inj h).2
  exact ⟨Prod.ext (TriviaKind.name_injective hname) htext, hrest⟩

theorem Trivia.lineFeed_notMem_describe (item : Trivia) :
    '\n' ∉ (item.describe plain).toList := by
  have hname : '\n' ∉ item.kind.name.toList :=
    notMem_of_forall_mem item.kind.isAlpha_of_mem_name (by decide)
  simp [toList_describe, hname, lineFeed_notMem_quotedString]

/-- An item of trivia behind another in a list. -/
def Trivia.describeNext (plain : Char → Bool) (item : Trivia) : List Char :=
  ',' :: ' ' :: (item.describe plain).toList

/-- Items behind another can be read up to the bracket behind them. -/
theorem flatMap_describeNext_append_inj {items others : List Trivia}
    (h : items.flatMap (Trivia.describeNext plain) ++ ']' :: rest =
      others.flatMap (Trivia.describeNext plain) ++ ']' :: rest') :
    items.map Trivia.shown = others.map Trivia.shown ∧ rest = rest' := by
  induction items generalizing others with
  | nil =>
    cases others with
    | nil => exact ⟨rfl, (List.cons.inj h).2⟩
    | cons other others => exact absurd (List.cons.inj h).1 (by decide)
  | cons item items ih =>
    cases others with
    | nil => exact absurd (List.cons.inj h).1 (by decide)
    | cons other others =>
      rw [List.flatMap_cons, List.flatMap_cons, List.append_assoc, List.append_assoc] at h
      obtain ⟨hitem, h⟩ := Trivia.describe_append_inj (List.cons.inj (List.cons.inj h).2).2
      obtain ⟨hitems, hrest⟩ := ih h
      exact ⟨List.cons_eq_cons.mpr ⟨hitem, hitems⟩, hrest⟩

/-- What a list of trivia under a label begins with. -/
def triviaOpening (label : String) : List Char :=
  (" " ++ label ++ "=[").toList

theorem toList_intercalate_describe (item : Trivia) (items : List Trivia) :
    (", ".intercalate ((item :: items).map fun item => item.describe plain)).toList =
      (item.describe plain).toList ++ items.flatMap (Trivia.describeNext plain) := by
  induction items generalizing item with
  | nil => simp
  | cons next items ih =>
    have hnext := ih next
    rw [List.map_cons] at hnext
    rw [List.map_cons, List.map_cons, String.intercalate_cons_cons, String.toList_append,
      String.toList_append, hnext, List.append_assoc, List.flatMap_cons]
    rfl

theorem toList_describeTrivia_cons (label : String) (item : Trivia) (items : List Trivia) :
    (describeTrivia label (item :: items) plain).toList = triviaOpening label ++
      ((item.describe plain).toList ++ (items.flatMap (Trivia.describeNext plain) ++ [']'])) := by
  rw [describeTrivia, if_neg (by simp), String.toList_append, String.toList_append,
    toList_intercalate_describe, List.append_assoc, List.append_assoc]
  rfl

/-- A list of trivia can be read where no other list with its label may begin. -/
theorem describeTrivia_append_inj {label : String} {items others : List Trivia}
    (hrest : ¬triviaOpening label <+: rest) (hrest' : ¬triviaOpening label <+: rest')
    (h : (describeTrivia label items plain).toList ++ rest =
      (describeTrivia label others plain).toList ++ rest') :
    items.map Trivia.shown = others.map Trivia.shown ∧ rest = rest' := by
  have hopening (item : Trivia) (items : List Trivia) (rest : List Char) :
      triviaOpening label <+: (describeTrivia label (item :: items) plain).toList ++ rest := by
    rw [toList_describeTrivia_cons, List.append_assoc]
    exact List.prefix_append _ _
  cases items with
  | nil =>
    cases others with
    | nil => exact ⟨rfl, h⟩
    | cons other others =>
      obtain rfl : rest = _ := h
      exact absurd (hopening other others rest') hrest
  | cons item items =>
    cases others with
    | nil =>
      obtain rfl : _ = rest' := h
      exact absurd (hopening item items rest) hrest'
    | cons other others =>
      simp only [toList_describeTrivia_cons, List.append_assoc, List.singleton_append] at h
      obtain ⟨hitem, h⟩ := Trivia.describe_append_inj (List.append_cancel_left h)
      obtain ⟨hitems, hrest⟩ := flatMap_describeNext_append_inj h
      exact ⟨List.cons_eq_cons.mpr ⟨hitem, hitems⟩, hrest⟩

/-- A list of trivia is described by what is shown of its items. -/
theorem describeTrivia_congr {label : String} {items others : List Trivia}
    (h : items.map Trivia.shown = others.map Trivia.shown) :
    describeTrivia label items plain = describeTrivia label others plain := by
  have hdescribe (items : List Trivia) : items.map (fun item => item.describe plain) =
      (items.map Trivia.shown).map fun (kind, text) =>
        kind.name ++ " " ++ quotedString text plain := by
    rw [List.map_map]
    rfl
  rw [describeTrivia, describeTrivia, hdescribe, hdescribe, h,
    ← List.isEmpty_map (f := Trivia.shown), h, List.isEmpty_map]

theorem lineFeed_notMem_describeTrivia {label : String} (hlabel : '\n' ∉ label.toList)
    (items : List Trivia) : '\n' ∉ (describeTrivia label items plain).toList := by
  cases items with
  | nil => simp [describeTrivia]
  | cons item items =>
    simp [toList_describeTrivia_cons, triviaOpening, Trivia.describeNext, hlabel,
      Trivia.lineFeed_notMem_describe]

end

/-! ### Tokens -/

namespace Token

/-- A token without its trivia. -/
def withoutTrivia (token : Token) : Token :=
  { token with leading := [], trailing := [] }

theorem withoutTrivia_inj {token other : Token} : token.withoutTrivia = other.withoutTrivia ↔
    token.kind = other.kind ∧ token.value = other.value ∧ token.span = other.span := by
  simp [withoutTrivia]

/-- Tokens that look the same in a dump: only the places of their trivia may differ. -/
structure ShownAlike (token other : Token) : Prop where
  kind_eq : token.kind = other.kind
  value_eq : token.value = other.value
  span_eq : token.span = other.span
  leading_eq : token.leading.map Trivia.shown = other.leading.map Trivia.shown
  trailing_eq : token.trailing.map Trivia.shown = other.trailing.map Trivia.shown

variable {plain : Char → Bool} {token other : Token} {rest rest' : List Char}

theorem toList_describe (token : Token) : (token.describe plain).toList =
    token.kind.name.toList ++ ' ' ::
      ((quotedString token.value plain).toList ++ ' ' :: (toString token.span).toList) := by
  simp [describe]

/-- The description of a token can be read in front of what is no digit. -/
theorem describe_append_inj (hrest : ∀ c ∈ rest.head?, c.isDigit = false)
    (hrest' : ∀ c ∈ rest'.head?, c.isDigit = false)
    (h : (token.describe plain).toList ++ rest = (other.describe plain).toList ++ rest') :
    token.withoutTrivia = other.withoutTrivia ∧ rest = rest' := by
  have hblank : Char.isAlpha ' ' = false := by decide
  simp only [toList_describe, List.append_assoc, List.cons_append] at h
  obtain ⟨hname, h⟩ := word_append_inj token.kind.isAlpha_of_mem_name
    other.kind.isAlpha_of_mem_name (forall_mem_head?_cons hblank) (forall_mem_head?_cons hblank) h
  obtain ⟨hvalue, h⟩ := quotedString_append_inj (List.cons.inj h).2
  obtain ⟨hspan, hrest⟩ := Span.append_inj hrest hrest' (List.cons.inj h).2
  exact ⟨withoutTrivia_inj.mpr ⟨TokenKind.name_injective hname, hvalue, hspan⟩, hrest⟩

theorem lineFeed_notMem_describe (token : Token) : '\n' ∉ (token.describe plain).toList := by
  have hname : '\n' ∉ token.kind.name.toList :=
    notMem_of_forall_mem token.kind.isAlpha_of_mem_name (by decide)
  simp [toList_describe, hname, lineFeed_notMem_quotedString, Span.lineFeed_notMem_toString]

theorem toList_dumpLine (token : Token) (rest : List Char) :
    (token.dumpLine plain).toList ++ rest = (token.describe plain).toList ++
      ((describeTrivia "leading" token.leading plain).toList ++
        ((describeTrivia "trailing" token.trailing plain).toList ++ '\n' :: rest)) := by
  simp [dumpLine]

/-- The line of a token can be read, whatever is behind it. -/
theorem dumpLine_append_inj
    (h : (token.dumpLine plain).toList ++ rest = (other.dumpLine plain).toList ++ rest') :
    token.ShownAlike other ∧ rest = rest' := by
  have hdigit (items others : List Trivia) (rest : List Char) :
      ∀ c ∈ ((describeTrivia "leading" items plain).toList ++
        ((describeTrivia "trailing" others plain).toList ++ '\n' :: rest)).head?,
        c.isDigit = false := by
    cases items <;> cases others <;> simp [describeTrivia]
  have hleading (items : List Trivia) (rest : List Char) : ¬triviaOpening "leading" <+:
      (describeTrivia "trailing" items plain).toList ++ '\n' :: rest := by
    cases items <;> simp [describeTrivia, triviaOpening]
  have htrailing (rest : List Char) : ¬triviaOpening "trailing" <+: '\n' :: rest := by
    simp [triviaOpening]
  rw [toList_dumpLine, toList_dumpLine] at h
  obtain ⟨htoken, h⟩ := describe_append_inj (hdigit _ _ _) (hdigit _ _ _) h
  obtain ⟨hitems, h⟩ := describeTrivia_append_inj (hleading _ _) (hleading _ _) h
  obtain ⟨hothers, h⟩ := describeTrivia_append_inj (htrailing _) (htrailing _) h
  obtain ⟨hkind, hvalue, hspan⟩ := withoutTrivia_inj.mp htoken
  exact ⟨⟨hkind, hvalue, hspan, hitems, hothers⟩, (List.cons.inj h).2⟩

theorem count_lineFeed_dumpLine (token : Token) :
    (token.dumpLine plain).toList.count '\n' = 1 := by
  have hlabel : '\n' ∉ "leading".toList ∧ '\n' ∉ "trailing".toList := by decide +kernel
  rw [← List.append_nil (token.dumpLine plain).toList, toList_dumpLine, List.count_append,
    List.count_append, List.count_append, List.count_eq_zero.mpr token.lineFeed_notMem_describe,
    List.count_eq_zero.mpr (lineFeed_notMem_describeTrivia hlabel.1 _),
    List.count_eq_zero.mpr (lineFeed_notMem_describeTrivia hlabel.2 _)]
  rfl

/-- Tokens that look the same have the same line. -/
theorem ShownAlike.dumpLine_eq (h : token.ShownAlike other) :
    token.dumpLine plain = other.dumpLine plain := by
  rw [dumpLine, dumpLine, describe, describe, h.kind_eq, h.value_eq, h.span_eq,
    describeTrivia_congr h.leading_eq, describeTrivia_congr h.trailing_eq]

end Token

/-! ### The dump -/

section

variable {plain : Char → Bool}

theorem dumpTokens_cons (token : Token) (tokens : List Token) :
    dumpTokens (token :: tokens) plain = token.dumpLine plain ++ dumpTokens tokens plain := by
  rw [dumpTokens, dumpTokens, List.map_cons, String.join_cons]

theorem count_lineFeed_dumpTokens (tokens : List Token) :
    (dumpTokens tokens plain).toList.count '\n' = tokens.length := by
  induction tokens with
  | nil => rfl
  | cons token tokens ih =>
    rw [dumpTokens_cons, String.toList_append, List.count_append, token.count_lineFeed_dumpLine,
      ih, List.length_cons, Nat.add_comm]

/-- A stream can be read off its dump. -/
theorem forall₂_shownAlike_of_dumpTokens_eq {tokens others : List Token}
    (h : dumpTokens tokens plain = dumpTokens others plain) :
    List.Forall₂ Token.ShownAlike tokens others := by
  have hlength : tokens.length = others.length := by
    rw [← count_lineFeed_dumpTokens tokens, h, count_lineFeed_dumpTokens]
  induction tokens generalizing others with
  | nil =>
    rw [List.eq_nil_of_length_eq_zero hlength.symm]
    exact .nil
  | cons token tokens ih =>
    cases others with
    | nil => cases hlength
    | cons other others =>
      rw [dumpTokens_cons, dumpTokens_cons, ← String.toList_inj, String.toList_append,
        String.toList_append] at h
      obtain ⟨htoken, htokens⟩ := Token.dumpLine_append_inj h
      exact .cons htoken (ih (String.toList_inj.mp htokens) (Nat.succ.inj hlength))

theorem dumpTokens_eq_of_forall₂_shownAlike {tokens others : List Token}
    (h : List.Forall₂ Token.ShownAlike tokens others) :
    dumpTokens tokens plain = dumpTokens others plain := by
  induction h with
  | nil => rfl
  | cons htoken _ ih => rw [dumpTokens_cons, dumpTokens_cons, htoken.dumpLine_eq, ih]

end

/-- **The token dump loses nothing** of what it shows: whichever characters show plainly, two
streams have the same dump if and only if they are equally long and their tokens have the same kind,
the same text, the same span and the same kinds and texts of trivia on either side, one by one. And
each token has its own line. -/
theorem dumpTokens_eq_iff (plain : Char → Bool) (tokens others : List Token) :
    (dumpTokens tokens plain = dumpTokens others plain ↔
      List.Forall₂ Token.ShownAlike tokens others) ∧
    (dumpTokens tokens plain).toList.count '\n' = tokens.length :=
  ⟨⟨forall₂_shownAlike_of_dumpTokens_eq, dumpTokens_eq_of_forall₂_shownAlike⟩,
    count_lineFeed_dumpTokens tokens⟩

end LosslessSyntax
