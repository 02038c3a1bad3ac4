/-
  File:      CccStorage/Lib/Chunks.lean
  Subject:   Texts put together from fixed words and given values, and when such a text contains a
             phrase. Names nothing of the storage service.

  * `Chunk`, `flat` -- a piece of a text, and the text;
  * `EndsApart`, `StartsApart`, `Apart` -- the phrase cannot begin in fixed words and go on in a
    value, or begin in a value and go on in fixed words;
  * `infix_flat_iff` -- the phrase is then in the text exactly when it is in one piece.
-/
import Mathlib

namespace Lib

variable {α : Type*}

inductive Chunk (α : Type*) where
  | fixed (l : List α)
  | given (l : List α)

def Chunk.items : Chunk α → List α
  | .fixed l | .given l => l

def flat (chunks : List (Chunk α)) : List α := chunks.flatMap Chunk.items

/-- No end of the words begins the phrase. -/
def EndsApart (phrase words : List α) : Prop :=
  ∀ p ∈ phrase.inits, p ≠ [] → p ≠ phrase → ¬ p <:+ words

/-- The words do not begin as an end of the phrase does. -/
def StartsApart (phrase words : List α) : Prop :=
  ∀ q ∈ phrase.tails, q ≠ [] → ¬ q <+: words ∧ ¬ words <+: q

instance [DecidableEq α] (phrase words : List α) : Decidable (EndsApart phrase words) :=
  inferInstanceAs (Decidable (∀ p ∈ phrase.inits, p ≠ [] → p ≠ phrase → ¬ p <:+ words))

instance [DecidableEq α] (phrase words : List α) : Decidable (StartsApart phrase words) :=
  inferInstanceAs (Decidable (∀ q ∈ phrase.tails, q ≠ [] → ¬ q <+: words ∧ ¬ words <+: q))

/-- **The phrase cannot lie across two pieces**; two values are never next to each other. -/
def Apart (phrase : List α) : List (Chunk α) → Prop
  | [] => True
  | .fixed words :: rest => EndsApart phrase words ∧ Apart phrase rest
  | [.given _] => True
  | .given _ :: .fixed words :: rest =>
    StartsApart phrase words ∧ Apart phrase (.fixed words :: rest)
  | .given _ :: .given _ :: _ => False

variable {phrase x y words : List α} {chunks : List (Chunk α)}

theorem infix_append_of_apart
    (h : ∀ p q, p ≠ [] → q ≠ [] → phrase = p ++ q → p <:+ x → ¬ q <+: y) :
    phrase <:+: x ++ y ↔ phrase <:+: x ∨ phrase <:+: y := by
  rw [List.infix_append_iff_ne_nil]
  constructor
  · rintro (hx | hy | ⟨p, q, hp, hq, hphrase, hpx, hqy⟩)
    · exact .inl hx
    · exact .inr hy
    · exact absurd hqy (h p q hp hq hphrase hpx)
  · rintro (hx | hy)
    · exact .inl hx
    · exact .inr (.inl hy)

theorem infix_fixed_iff (h : EndsApart phrase words) :
    phrase <:+: words ++ y ↔ phrase <:+: words ∨ phrase <:+: y := by
  refine infix_append_of_apart fun p q hp hq hphrase hsuffix => ?_
  refine absurd hsuffix (h p ?_ hp ?_)
  · rw [List.mem_inits]
    exact ⟨q, hphrase.symm⟩
  · rintro rfl
    exact hq (List.self_eq_append_right.mp hphrase)

theorem infix_given_iff (h : StartsApart phrase words) :
    phrase <:+: x ++ (words ++ y) ↔ phrase <:+: x ∨ phrase <:+: words ++ y := by
  refine infix_append_of_apart fun p q hp hq hphrase _ hprefix => ?_
  have hend : q ∈ phrase.tails := by
    rw [List.mem_tails]
    exact ⟨p, hphrase.symm⟩
  have hboth := h q hend hq
  rcases List.prefix_or_prefix_of_prefix hprefix (List.prefix_append words y) with hq | hw
  · exact hboth.1 hq
  · exact hboth.2 hw

/-- **A phrase is in a text** exactly when it is in one of its pieces. -/
theorem infix_flat_iff (h : Apart phrase chunks) (hne : phrase ≠ []) :
    phrase <:+: flat chunks ↔ ∃ c ∈ chunks, phrase <:+: c.items := by
  induction chunks with
  | nil => simp [flat, hne]
  | cons c rest ih =>
    have hcons : flat (c :: rest) = c.items ++ flat rest := List.flatMap_cons
    rw [hcons, List.exists_mem_cons_iff]
    cases c with
    | fixed words =>
      rw [← ih h.2]
      exact infix_fixed_iff h.1
    | given value =>
      match rest, h, ih with
      | [], _, _ => simp [flat, Chunk.items]
      | .fixed words :: rest, h, ih =>
        rw [← ih h.2]
        exact infix_given_iff h.1

end Lib
