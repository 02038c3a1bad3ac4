/-
  File:      CccStorage/Lib/Pages.lean
  Subject:   A list read in pages that are resumed at a position, while the list changes between
             two pages. Names nothing of the storage service.

  * `Page` -- the items a page meets, the position it starts at, the one it ends at, what it gives;
  * `Page.Gives` -- an item is given exactly where it lies between the two;
  * `Steady` -- no item that stays crosses the position the next page starts at;
  * `given_once` -- in steady pages an item that stays throughout is given exactly once;
  * `pages_length_le` -- pages that give something are at most as many as there are items.
-/
import Mathlib

namespace Lib

variable {α : Type*}

structure Page (α : Type*) where
  items : List α
  off : Nat
  next : Nat
  given : List α

/-- An item at hand is given once where it lies between the two positions, and not elsewhere. -/
structure Page.Gives [DecidableEq α] (p : Page α) (e : α) : Prop where
  le : p.off ≤ p.next
  count : p.given.count e = if e ∈ p.items.take p.next ∧ e ∉ p.items.take p.off then 1 else 0

/-- **No item crosses** the position at which `q` goes on. -/
def Steady (p q : Page α) : Prop :=
  ∀ e, e ∈ p.items → e ∈ q.items → (e ∈ p.items.take q.off ↔ e ∈ q.items.take q.off)

/-- The next page starts where the one before has ended. -/
def Resumes (p q : Page α) : Prop := q.off = p.next

section Once

variable [DecidableEq α] {e : α}

/-- From a page on, an item is given once, unless it lies before that page. -/
theorem given_from {ps : List (Page α)} {p : Page α} (hchain : (p :: ps).IsChain Resumes)
    (hsteady : (p :: ps).IsChain Steady) (hgives : ∀ q ∈ p :: ps, q.Gives e ∧ e ∈ q.items)
    (hlast : ∀ q ∈ (p :: ps).getLast?, e ∈ q.items.take q.off) :
    ((p :: ps).flatMap Page.given).count e = if e ∈ p.items.take p.off then 0 else 1 := by
  induction ps generalizing p with
  | nil =>
    have hbefore : e ∈ p.items.take p.off := hlast p rfl
    have hnone : ¬ (e ∈ p.items.take p.next ∧ e ∉ p.items.take p.off) := fun h => h.2 hbefore
    rw [List.flatMap_singleton, (hgives p List.mem_cons_self).1.count, if_neg hnone,
      if_pos hbefore]
  | cons q ps ih =>
    obtain ⟨hresumes, hchain'⟩ := List.isChain_cons_cons.mp hchain
    obtain ⟨hcross, hsteady'⟩ := List.isChain_cons_cons.mp hsteady
    obtain ⟨hp, hpitems⟩ := hgives p List.mem_cons_self
    have hq := hgives q (List.mem_cons_of_mem _ List.mem_cons_self)
    have hrest := ih hchain' hsteady' (fun r hr => hgives r (List.mem_cons_of_mem _ hr))
      (fun r hr => hlast r (by rwa [List.getLast?_cons_cons]))
    -- what lies before the next page is what this page has come past
    have hcome : e ∈ p.items.take p.next ↔ e ∈ q.items.take q.off := by
      rw [← hcross e hpitems hq.2, hresumes]
    have hmono : e ∈ p.items.take p.off → e ∈ p.items.take p.next := fun h =>
      (List.take_subset_take_left p.items hp.le) h
    rw [List.flatMap_cons, List.count_append, hrest, hp.count, if_congr hcome.symm rfl rfl]
    by_cases hoff : e ∈ p.items.take p.off
    · simp [hoff, hmono hoff]
    · by_cases hnext : e ∈ p.items.take p.next
      · simp [hoff, hnext]
      · simp [hoff, hnext]

/-- **Exactly once**: an item that is there throughout is given once in steady pages from the
    first position to one behind it. -/
theorem given_once {ps : List (Page α)} (hne : ps ≠ []) (hchain : ps.IsChain Resumes)
    (hsteady : ps.IsChain Steady) (hgives : ∀ q ∈ ps, q.Gives e ∧ e ∈ q.items)
    (hfirst : ∀ q ∈ ps.head?, q.off = 0) (hlast : ∀ q ∈ ps.getLast?, e ∈ q.items.take q.off) :
    (ps.flatMap Page.given).count e = 1 := by
  obtain ⟨p, ps, rfl⟩ := List.exists_cons_of_ne_nil hne
  have hzero : p.items.take p.off = [] := by rw [hfirst p rfl, List.take_zero]
  rw [given_from hchain hsteady hgives hlast, hzero]
  rfl

end Once

/-- **Pages come to an end**: those that move on from the first position are at most as many as
    there are items. -/
theorem pages_length_le {ps : List (Page α)} {n : Nat} (hchain : ps.IsChain Resumes)
    (hfirst : ∀ q ∈ ps.head?, q.off = 0) (hmove : ∀ q ∈ ps, q.off < q.next ∧ q.next ≤ n) :
    ps.length ≤ n := by
  have hfrom : ∀ (ps : List (Page α)) (p : Page α), (p :: ps).IsChain Resumes →
      (∀ q ∈ p :: ps, q.off < q.next ∧ q.next ≤ n) → p.off + (p :: ps).length ≤ n := by
    intro ps
    induction ps with
    | nil =>
      intro p _ hmove
      have hp := hmove p List.mem_cons_self
      rw [List.length_singleton]
      omega
    | cons q ps ih =>
      intro p hchain hmove
      obtain ⟨hresumes, hchain'⟩ := List.isChain_cons_cons.mp hchain
      have hrest := ih q hchain' fun r hr => hmove r (List.mem_cons_of_mem _ hr)
      have hp := (hmove p List.mem_cons_self).1
      have hoff : q.off = p.next := hresumes
      rw [List.length_cons]
      omega
  cases ps with
  | nil => exact Nat.zero_le n
  | cons p ps =>
    have hall := hfrom ps p hchain hmove
    rw [hfirst p rfl] at hall
    omega

end Lib
