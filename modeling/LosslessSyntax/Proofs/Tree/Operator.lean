import Mathlib.Data.List.Chain
import LosslessSyntax.Tree.Parser

/-!
# Operators at the front of a stream

The operator with which a stream begins is its first token, or a compound operator made of the
first two or three tokens (`operator_cases`): those that have the kinds of the spelling and touch.
A token of a kind that begins no spelling is always an operator by itself
(`operator_eq_one_of_not_starts`), and whether a spelling is there is decided by kinds and touching
alone (`spells_iff`).
-/

namespace LosslessSyntax.Parser

variable {α : Type} [Readable α]

/-- A stream begins with a spelling if its first tokens have the kinds of the spelling and each
touches the next. -/
theorem spells_iff {kinds : List TokenKind} {ts : List α} :
    spells kinds ts = true ↔ ∃ front rest, ts = front ++ rest ∧ front.map kind = kinds ∧
      front.IsChain (fun a b => touches a b = true) := by
  fun_induction spells kinds ts with
  | case1 ts => exact iff_of_true rfl ⟨[], ts, rfl, rfl, .nil⟩
  | case2 k kinds =>
    refine iff_of_false nofun ?_
    rintro ⟨front, rest, hts, hkinds, -⟩
    obtain ⟨rfl, -⟩ := List.append_eq_nil_iff.mp hts.symm
    cases hkinds
  | case3 k t ts =>
    rw [decide_eq_true_iff]
    constructor
    · rintro rfl
      exact ⟨[t], ts, rfl, rfl, .singleton t⟩
    · rintro ⟨front, rest, hts, hkinds, -⟩
      obtain ⟨u, rfl, rfl⟩ := List.map_eq_singleton_iff.mp hkinds
      rw [(List.cons.inj hts).1]
  | case4 k kinds t ts hne ih =>
    -- More of the spelling is to come, so that there is a next token for the first to touch.
    obtain ⟨l, kinds, rfl⟩ := List.exists_cons_of_ne_nil hne
    rw [Bool.and_eq_true, Bool.and_eq_true, decide_eq_true_iff, ih]
    constructor
    · rintro ⟨⟨rfl, htouch⟩, front, rest, rfl, hkinds, hchain⟩
      obtain ⟨u, front, rfl, -, -⟩ := List.map_eq_cons_iff.mp hkinds
      refine ⟨t :: u :: front, rest, rfl, by rw [List.map_cons, hkinds], ?_⟩
      exact .cons_cons (by simpa using htouch) hchain
    · rintro ⟨front, rest, hts, hkinds, hchain⟩
      obtain ⟨u, others, rfl, rfl, hothers⟩ := List.map_eq_cons_iff.mp hkinds
      rw [List.cons_append] at hts
      obtain ⟨rfl, rfl⟩ := List.cons.inj hts
      obtain ⟨v, front, rfl, -, -⟩ := List.map_eq_cons_iff.mp hothers
      obtain ⟨htouch, hchain⟩ := List.isChain_cons_cons.mp hchain
      exact ⟨⟨rfl, by simpa using htouch⟩, v :: front, rest, rfl, hothers, hchain⟩

/-- Some tokens spell a compound operator. -/
structure SpellsCompound (operator : TokenKind) (parts : List α) : Prop where
  mem : (parts.map kind, operator) ∈ compoundOperators
  chain : parts.IsChain fun a b => touches a b = true

/-- A compound operator is spelled by two or three tokens. -/
theorem SpellsCompound.length {operator : TokenKind} {parts : List α}
    (h : SpellsCompound operator parts) : parts.length = 2 ∨ parts.length = 3 := by
  have hall : ∀ compound ∈ compoundOperators,
      compound.1.length = 2 ∨ compound.1.length = 3 := by decide
  simpa using hall _ h.mem

private theorem operator_of_find?_eq_some {t : α} {ts : List α} {found : List TokenKind × TokenKind}
    (hfind : (compoundOperators.find? fun compound => spells compound.1 (t :: ts)) = some found) :
    ∃ compound others rest, ts = others ++ rest ∧ SpellsCompound compound (t :: others) ∧
      operator t ts = ⟨.merged compound t others, [], 1 + others.length, by omega⟩ := by
  obtain ⟨spelling, compound⟩ := found
  have hmem := List.mem_of_find?_eq_some hfind
  have hspells := List.find?_some hfind
  change spells spelling (t :: ts) = true at hspells
  obtain ⟨front, rest, hts, hkinds, hchain⟩ := spells_iff.mp hspells
  cases front with
  | nil =>
    have hall : ∀ compound ∈ compoundOperators, compound.1 ≠ [] := by decide
    exact absurd hkinds.symm (hall _ hmem)
  | cons u others =>
    rw [List.cons_append] at hts
    obtain ⟨rfl, rfl⟩ := List.cons.inj hts
    have htake : (others ++ rest).take (spelling.length - 1) = others := by
      rw [← hkinds, List.length_map, List.length_cons, Nat.add_sub_cancel, List.take_left]
    refine ⟨compound, others, rest, rfl, ⟨hkinds ▸ hmem, hchain⟩, ?_⟩
    simp only [operator, hfind, htake]

/-- The operator of a stream is its first token or a compound operator. -/
theorem operator_cases (t : α) (ts : List α) :
    operator t ts = .one (.plain t) ∨
      ∃ compound others rest, ts = others ++ rest ∧ SpellsCompound compound (t :: others) ∧
        operator t ts = ⟨.merged compound t others, [], 1 + others.length, by omega⟩ := by
  cases hfind : compoundOperators.find? fun compound => spells compound.1 (t :: ts) with
  | none => exact .inl (by simp only [operator, hfind])
  | some found => exact .inr (operator_of_find?_eq_some hfind)

/-- Two tokens that spell a compound operator are the operator of their stream, unless another
spelling begins in the same way. -/
theorem operator_of_spellsCompound {compound : TokenKind} {t u : α}
    (h : SpellsCompound compound [t, u])
    (hunique : ∀ other ∈ compoundOperators, other.1.take 2 = [kind t, kind u] →
      other = ([kind t, kind u], compound)) (ts : List α) :
    operator t (u :: ts) = ⟨.merged compound t [u], [], 2, Nat.two_pos⟩ := by
  have hspells : spells [kind t, kind u] (t :: u :: ts) = true :=
    spells_iff.mpr ⟨[t, u], ts, rfl, rfl, h.chain⟩
  have hsome : (compoundOperators.find? fun other => spells other.1 (t :: u :: ts)).isSome :=
    List.find?_isSome.mpr ⟨_, h.mem, hspells⟩
  -- Which spelling is found is not known, but it begins with the kinds of these two tokens.
  obtain ⟨found, hfind⟩ := Option.isSome_iff_exists.mp hsome
  obtain ⟨other, others, rest, hts, hother, hoperator⟩ := operator_of_find?_eq_some hfind
  cases others with
  | nil => exact absurd hother.length (by simp)
  | cons v others =>
    obtain ⟨rfl, rfl⟩ := List.cons.inj hts
    obtain ⟨hkinds, rfl⟩ := Prod.mk.inj (hunique _ hother.mem rfl)
    obtain rfl : others = [] := by simpa using hkinds
    exact hoperator

/-- A token that begins no spelling is an operator by itself. -/
theorem operator_eq_one_of_not_starts {t : α}
    (h : ∀ compound ∈ compoundOperators, compound.1.head? ≠ some (kind t)) (ts : List α) :
    operator t ts = .one (.plain t) := by
  rcases operator_cases t ts with hone | ⟨compound, others, rest, -, hspells, -⟩
  · exact hone
  · exact absurd rfl (h _ hspells.mem)

/-- An equals sign is a single token. -/
theorem equals?_eq_some {ts : List α} {equals : Parsed α (Leaf α)} (h : equals? ts = some equals) :
    ∃ t rest, ts = t :: rest ∧ kind t = .equals ∧ equals = .one (.plain t) := by
  cases ts with
  | nil => cases h
  | cons t rest =>
    rw [equals?, Option.ite_none_right_eq_some] at h
    obtain ⟨hkind, hequals⟩ := h
    rcases operator_cases t rest with hone | ⟨compound, others, after, -, hspells, hmerged⟩
    · rw [hone] at hkind hequals
      exact ⟨t, rest, rfl, hkind, (Option.some.inj hequals).symm⟩
    · have hall : ∀ compound ∈ compoundOperators, compound.2 ≠ .equals := by decide
      rw [hmerged] at hkind
      exact absurd hkind (hall _ hspells.mem)

end LosslessSyntax.Parser
