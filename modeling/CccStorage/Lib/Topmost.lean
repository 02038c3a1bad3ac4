/-
  File:      CccStorage/Lib/Topmost.lean
  Subject:   The topmost items of a list: those below no other one. Names nothing of the storage
             service.

  * `topmost` -- a pass that keeps an item unless a kept one is above it;
  * `keptTopmost`, `mem_topmost_iff` -- over items sorted by rank, what is kept are the items below
    no other, and one is above every item;
  * `topmost_sublist` -- in their order, none twice.
-/
import Mathlib.Data.List.Basic

namespace Lib

variable {α : Type*} {above : α → α → Bool} {rank : α → Nat} {items done result : List α} {x : α}

def keepTopmost (above : α → α → Bool) (result : List α) (x : α) : List α :=
  if result.any fun y => above y x then result else result ++ [x]

/-- The items no earlier kept item is above. -/
def topmost (above : α → α → Bool) (items : List α) : List α :=
  items.foldl (keepTopmost above) []

/-- What the pass has kept of the items it is done with. -/
structure KeptTopmost (above : α → α → Bool) (done result : List α) : Prop where
  mem : ∀ r ∈ result, r ∈ done
  covered : ∀ x ∈ done, ∃ r ∈ result, above r x = true
  minimal : ∀ r ∈ result, ∀ y ∈ done, above y r = true → y = r

theorem KeptTopmost.step (hrefl : ∀ a, above a a = true)
    (htrans : ∀ {a b c}, above a b = true → above b c = true → above a c = true)
    (hrank : ∀ {a b}, above a b = true → a ≠ b → rank a < rank b)
    (h : KeptTopmost above done result) (hle : ∀ y ∈ done, rank y ≤ rank x) :
    KeptTopmost above (done ++ [x]) (keepTopmost above result x) := by
  have hbelow : ∀ r ∈ result, above x r = true → x = r := by
    intro r hr hxr
    by_contra hne
    have hlt := hrank hxr hne
    have hge := hle r (h.mem r hr)
    omega
  rw [keepTopmost]
  by_cases hany : (result.any fun y => above y x) = true
  · rw [if_pos hany]
    obtain ⟨r, hr, hrx⟩ := List.any_eq_true.mp hany
    refine ⟨fun s hs => List.mem_append_left _ (h.mem s hs), fun y hy => ?_, fun s hs y hy => ?_⟩
    · rcases List.mem_append.mp hy with hy | hy
      · exact h.covered y hy
      · rw [List.mem_singleton.mp hy]
        exact ⟨r, hr, hrx⟩
    · rcases List.mem_append.mp hy with hy | hy
      · exact h.minimal s hs y hy
      · rw [List.mem_singleton.mp hy]
        exact hbelow s hs
  · rw [if_neg hany]
    refine ⟨fun s hs => ?_, fun y hy => ?_, fun s hs y hy hys => ?_⟩
    · rcases List.mem_append.mp hs with hs | hs
      · exact List.mem_append_left _ (h.mem s hs)
      · exact List.mem_append_right _ hs
    · rcases List.mem_append.mp hy with hy | hy
      · obtain ⟨r, hr, hry⟩ := h.covered y hy
        exact ⟨r, List.mem_append_left _ hr, hry⟩
      · rw [List.mem_singleton.mp hy]
        exact ⟨x, List.mem_append_right _ (List.mem_singleton_self _), hrefl x⟩
    · rcases List.mem_append.mp hs with hs | hs
      · rcases List.mem_append.mp hy with hy | hy
        · exact h.minimal s hs y hy hys
        · rw [List.mem_singleton.mp hy] at hys ⊢
          exact hbelow s hs hys
      · rw [List.mem_singleton.mp hs] at hys ⊢
        rcases List.mem_append.mp hy with hy | hy
        · obtain ⟨r, hr, hry⟩ := h.covered y hy
          have hrx : above r x = true := htrans hry hys
          exact absurd (List.any_eq_true.mpr ⟨r, hr, hrx⟩) hany
        · exact List.mem_singleton.mp hy

theorem KeptTopmost.foldl (hrefl : ∀ a, above a a = true)
    (htrans : ∀ {a b c}, above a b = true → above b c = true → above a c = true)
    (hrank : ∀ {a b}, above a b = true → a ≠ b → rank a < rank b)
    (h : KeptTopmost above done result)
    (hsorted : (done ++ items).Pairwise fun a b => rank a ≤ rank b) :
    KeptTopmost above (done ++ items) (items.foldl (keepTopmost above) result) := by
  induction items generalizing done result with
  | nil =>
    rw [List.append_nil]
    exact h
  | cons x items ih =>
    have hle : ∀ y ∈ done, rank y ≤ rank x := fun y hy =>
      (List.pairwise_append.mp hsorted).2.2 y hy x List.mem_cons_self
    have hassoc : done ++ x :: items = (done ++ [x]) ++ items := by simp
    rw [hassoc] at hsorted ⊢
    exact ih (h.step hrefl htrans hrank hle) hsorted

/-- **Over items sorted by rank**, the pass keeps items below no other one, and one above every
    item. -/
theorem keptTopmost (hrefl : ∀ a, above a a = true)
    (htrans : ∀ {a b c}, above a b = true → above b c = true → above a c = true)
    (hrank : ∀ {a b}, above a b = true → a ≠ b → rank a < rank b)
    (hsorted : items.Pairwise fun a b => rank a ≤ rank b) :
    KeptTopmost above items (topmost above items) := by
  have hstart : KeptTopmost above ([] : List α) [] :=
    ⟨fun _ hr => hr, fun _ hx => absurd hx List.not_mem_nil, fun _ hr => absurd hr List.not_mem_nil⟩
  have hkept := hstart.foldl hrefl htrans hrank hsorted
  rwa [List.nil_append] at hkept

/-- **Over items sorted by rank**, the pass keeps exactly the items below no other one. -/
theorem mem_topmost_iff (hrefl : ∀ a, above a a = true)
    (htrans : ∀ {a b c}, above a b = true → above b c = true → above a c = true)
    (hrank : ∀ {a b}, above a b = true → a ≠ b → rank a < rank b)
    (hsorted : items.Pairwise fun a b => rank a ≤ rank b) :
    x ∈ topmost above items ↔ x ∈ items ∧ ∀ y ∈ items, above y x = true → y = x := by
  have hkept := keptTopmost hrefl htrans hrank hsorted
  constructor
  · exact fun hx => ⟨hkept.mem x hx, hkept.minimal x hx⟩
  · rintro ⟨hx, hmin⟩
    obtain ⟨r, hr, hrx⟩ := hkept.covered x hx
    rw [hmin r (hkept.mem r hr) hrx] at hr
    exact hr

theorem foldl_keepTopmost_sublist (above : α → α → Bool) (result items : List α) :
    (items.foldl (keepTopmost above) result).Sublist (result ++ items) := by
  induction items generalizing result with
  | nil => exact (List.append_nil result).symm ▸ List.Sublist.refl _
  | cons x items ih =>
    have hrest := ih (keepTopmost above result x)
    have hstep : (keepTopmost above result x).Sublist (result ++ [x]) := by
      unfold keepTopmost
      split
      · exact List.sublist_append_left _ _
      · exact List.Sublist.refl _
    have hall := hrest.trans (hstep.append (List.Sublist.refl items))
    rwa [List.append_assoc, List.singleton_append] at hall

/-- What is kept is there in the order of the items. -/
theorem topmost_sublist (above : α → α → Bool) (items : List α) :
    (topmost above items).Sublist items := foldl_keepTopmost_sublist above [] items

theorem nodup_eraseDups [BEq α] [LawfulBEq α] (items : List α) : items.eraseDups.Nodup := by
  induction hn : items.length using Nat.strongRecOn generalizing items with
  | ind n ih =>
    cases items with
    | nil => exact List.nodup_nil
    | cons x items =>
      have hlen : (items.filter fun y => !(y == x)).length < n := by
        have hle := List.length_filter_le (fun y => !(y == x)) items
        rw [← hn, List.length_cons]
        omega
      have hrest := ih _ hlen _ rfl
      have hx : x ∉ (items.filter fun y => !(y == x)).eraseDups := by
        rw [List.mem_eraseDups, List.mem_filter]
        rintro ⟨-, h⟩
        simp at h
      rw [List.eraseDups_cons]
      exact List.nodup_cons.mpr ⟨hx, hrest⟩

end Lib
