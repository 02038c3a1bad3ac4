/-
  File:      CccStorage/Lib/Longest.lean
  Subject:   The longest of the items that match: the first of greatest length. Names nothing of the
             storage service.

  * `longest` -- the first matching item that no matching item exceeds;
  * `foldl_longer` -- a loop that keeps an item until a longer one matches;
  * `find?_byLength` -- the first match of the items sorted by length, longest first;
  * `longest_eq_some_iff` -- with distinct lengths: the one match that is longest;
  * `latest`, `latest_eq_longest` -- the last match is the longest where later matches are longer.
-/
import Mathlib.Data.List.Sort

namespace Lib

variable {α : Type*} {len : α → Nat} {m : α → Bool} {x : α} {items : List α}

/-- The first matching item that no matching item exceeds in length. -/
def longest (len : α → Nat) (m : α → Bool) : List α → Option α
  | [] => none
  | x :: items =>
    match longest len m items with
    | none => if m x then some x else none
    | some y => if m x ∧ len y ≤ len x then some x else some y

theorem longest_mem (h : longest len m items = some x) : x ∈ items ∧ m x = true := by
  induction items generalizing x with
  | nil => cases h
  | cons y items ih =>
    rw [longest] at h
    split at h
    · split at h
      · rename_i hy
        obtain rfl := Option.some.inj h
        exact ⟨List.mem_cons_self, hy⟩
      · cases h
    · rename_i z hz
      split at h
      · rename_i hy
        obtain rfl := Option.some.inj h
        exact ⟨List.mem_cons_self, hy.1⟩
      · obtain rfl := Option.some.inj h
        exact ⟨List.mem_cons_of_mem _ (ih hz).1, (ih hz).2⟩

theorem longest_eq_none_iff : longest len m items = none ↔ ∀ x ∈ items, m x = false := by
  induction items with
  | nil => exact ⟨fun _ _ hx => absurd hx List.not_mem_nil, fun _ => rfl⟩
  | cons y items ih =>
    rw [longest, List.forall_mem_cons, ← ih]
    cases hrest : longest len m items with
    | none =>
      cases m y with
      | false => exact ⟨fun _ => ⟨rfl, rfl⟩, fun _ => rfl⟩
      | true => exact ⟨nofun, fun h => nomatch h.1⟩
    | some z =>
      refine ⟨fun h => ?_, fun h => nomatch h.2⟩
      dsimp only at h
      split at h <;> cases h

/-- No match is longer. -/
theorem le_longest (h : longest len m items = some x) {y : α} (hy : y ∈ items) (hm : m y = true) :
    len y ≤ len x := by
  induction items generalizing x with
  | nil => exact absurd hy List.not_mem_nil
  | cons z items ih =>
    rw [longest] at h
    rcases List.mem_cons.mp hy with rfl | hy
    · split at h
      · rw [if_pos hm] at h
        obtain rfl := Option.some.inj h
        exact Nat.le_refl _
      · rename_i w hw
        split at h
        · obtain rfl := Option.some.inj h
          exact Nat.le_refl _
        · rename_i hlt
          obtain rfl := Option.some.inj h
          have hnot : ¬ len w ≤ len y := fun hle => hlt ⟨hm, hle⟩
          omega
    · split at h
      · rename_i hnone
        rw [longest_eq_none_iff.mp hnone y hy] at hm
        cases hm
      · rename_i w hw
        have hyw := ih hw hy
        split at h
        · rename_i hz
          obtain rfl := Option.some.inj h
          omega
        · obtain rfl := Option.some.inj h
          exact hyw

/-- **With distinct lengths** the longest match is the match no other one exceeds. -/
theorem longest_eq_some_iff
    (hdistinct : ∀ a ∈ items, ∀ b ∈ items, m a = true → m b = true → len a = len b → a = b) :
    longest len m items = some x ↔
      x ∈ items ∧ m x = true ∧ ∀ y ∈ items, m y = true → len y ≤ len x := by
  constructor
  · intro h
    exact ⟨(longest_mem h).1, (longest_mem h).2, fun y hy hm => le_longest h hy hm⟩
  · rintro ⟨hx, hm, hmax⟩
    cases h : longest len m items with
    | none =>
      rw [longest_eq_none_iff.mp h x hx] at hm
      cases hm
    | some y =>
      obtain ⟨hy, hmy⟩ := longest_mem h
      have heq := Nat.le_antisymm (hmax y hy hmy) (le_longest h hx hm)
      rw [hdistinct y hy x hx hmy hm heq]

/-- Items that are left out and do not match change nothing. -/
theorem longest_filter {q : α → Bool} (hq : ∀ x ∈ items, q x = false → m x = false) :
    longest len m (items.filter q) = longest len m items := by
  induction items with
  | nil => rfl
  | cons x items ih =>
    have hrest := ih fun y hy => hq y (List.mem_cons_of_mem _ hy)
    cases hx : q x with
    | true => rw [List.filter_cons_of_pos hx, longest, longest, hrest]
    | false =>
      have hmx := hq x List.mem_cons_self hx
      rw [List.filter_cons_of_neg (by simp [hx]), hrest, longest]
      cases longest len m items with
      | none => simp [hmx]
      | some y => simp [hmx]

theorem longest_map {β : Type*} {f : β → α} {items : List β} :
    longest len m (items.map f) = (longest (len ∘ f) (m ∘ f) items).map f := by
  induction items with
  | nil => rfl
  | cons x items ih =>
    rw [List.map_cons, longest, longest, ih]
    cases longest (len ∘ f) (m ∘ f) items with
    | none => cases hx : m (f x) <;> simp [hx]
    | some y =>
      by_cases hx : m (f x) = true ∧ len (f y) ≤ len (f x)
      · simp [hx]
      · simp [hx]

theorem longest_congr {len' : α → Nat} {m' : α → Bool} (hlen : ∀ x ∈ items, len x = len' x)
    (hm : ∀ x ∈ items, m x = m' x) : longest len m items = longest len' m' items := by
  induction items with
  | nil => rfl
  | cons x items ih =>
    have hrest := ih (fun y hy => hlen y (List.mem_cons_of_mem _ hy))
      fun y hy => hm y (List.mem_cons_of_mem _ hy)
    rw [longest, longest, hrest, hm x List.mem_cons_self, hlen x List.mem_cons_self]
    cases hlong : longest len' m' items with
    | none => rfl
    | some y =>
      dsimp only
      rw [hlen y (List.mem_cons_of_mem _ (longest_mem hlong).1)]

/-! ## The last match -/

/-- The last item that matches. -/
def latest (m : α → Bool) : List α → Option α
  | [] => none
  | x :: items => (latest m items).or (if m x then some x else none)

theorem latest_concat : latest m (items ++ [x]) = if m x then some x else latest m items := by
  induction items with
  | nil => rfl
  | cons y items ih =>
    rw [List.cons_append, latest, ih, latest]
    cases m x with
    | true => rfl
    | false => rfl

theorem latest_congr {m' : α → Bool} (h : ∀ x ∈ items, m x = m' x) :
    latest m items = latest m' items := by
  induction items with
  | nil => rfl
  | cons y items ih =>
    rw [latest, latest, ih fun x hx => h x (List.mem_cons_of_mem _ hx), h y List.mem_cons_self]

theorem latest_mem (h : latest m items = some x) : x ∈ items ∧ m x = true := by
  induction items with
  | nil => cases h
  | cons y items ih =>
    rw [latest] at h
    cases hrest : latest m items with
    | some z =>
      rw [hrest] at h
      obtain rfl := Option.some.inj h
      exact ⟨List.mem_cons_of_mem _ (ih hrest).1, (ih hrest).2⟩
    | none =>
      rw [hrest, Option.none_or] at h
      by_cases hy : m y = true
      · rw [if_pos hy] at h
        obtain rfl := Option.some.inj h
        exact ⟨List.mem_cons_self, hy⟩
      · rw [if_neg hy] at h
        cases h

theorem exists_latest (hx : x ∈ items) (hm : m x = true) : ∃ y, latest m items = some y := by
  induction items with
  | nil => cases hx
  | cons z items ih =>
    rw [latest]
    rcases List.mem_cons.mp hx with rfl | hx
    · cases latest m items with
      | some y => exact ⟨y, rfl⟩
      | none => exact ⟨x, by rw [Option.none_or, if_pos hm]⟩
    · obtain ⟨y, hy⟩ := ih hx
      exact ⟨y, by rw [hy]; rfl⟩

theorem latest_append {rest : List α} {y : α} (hy : latest m rest = some y) :
    latest m (items ++ rest) = some y := by
  induction items with
  | nil => exact hy
  | cons z items ih =>
    rw [List.cons_append, latest, ih]
    rfl

/-- **Where later matches are longer**, the last match is the longest. -/
theorem latest_eq_longest
    (h : items.Pairwise fun a b => m a = true → m b = true → len a < len b) :
    latest m items = longest len m items := by
  induction items with
  | nil => rfl
  | cons x items ih =>
    obtain ⟨hx, hrest⟩ := List.pairwise_cons.mp h
    rw [latest, longest, ih hrest]
    cases hlong : longest len m items with
    | none => rfl
    | some y =>
      have hy := longest_mem hlong
      have hshort : ¬ (m x = true ∧ len y ≤ len x) := fun hboth =>
        absurd (hx y hy.1 hboth.1 hy.2) (Nat.not_lt.mpr hboth.2)
      dsimp only
      rw [if_neg hshort]
      rfl

/-! ## Two ways to look for it -/

/-- One round of a loop that keeps its best item until a longer one matches. -/
def longer (len : α → Nat) (m : α → Bool) (best : Option α) (x : α) : Option α :=
  if m x then
    match best with
    | none => some x
    | some y => if len y < len x then some x else some y
  else best

theorem foldl_longer_some (y : α) :
    items.foldl (longer len m) (some y) =
      match longest len m items with
      | none => some y
      | some z => if len y < len z then some z else some y := by
  induction items generalizing y with
  | nil => rfl
  | cons x items ih =>
    rw [List.foldl_cons, longer, longest]
    by_cases hx : m x = true
    · rw [if_pos hx]
      by_cases hyx : len y < len x
      · rw [if_pos hyx, ih]
        cases longest len m items with
        | none => simp [hx, hyx]
        | some z =>
          by_cases hz : len x < len z
          · have hnot : ¬ len z ≤ len x := by omega
            have hyz : len y < len z := by omega
            simp [hz, hnot, hyz]
          · have hle : len z ≤ len x := by omega
            simp [hx, hz, hle, hyx]
      · rw [if_neg hyx, ih]
        cases longest len m items with
        | none => simp [hx, hyx]
        | some z =>
          by_cases hz : len z ≤ len x
          · have hnot : ¬ len y < len z := by omega
            simp [hx, hz, hnot, hyx]
          · simp [hz]
    · rw [if_neg hx, ih]
      cases longest len m items with
      | none => simp [hx]
      | some z => simp [hx]

/-- **The loop** finds the longest match. -/
theorem foldl_longer : items.foldl (longer len m) none = longest len m items := by
  induction items with
  | nil => rfl
  | cons x items ih =>
    rw [List.foldl_cons, longer, longest]
    by_cases hx : m x = true
    · rw [if_pos hx]
      rw [foldl_longer_some]
      cases longest len m items with
      | none => simp
      | some z =>
        by_cases hz : len z ≤ len x
        · have hnot : ¬ len x < len z := by omega
          simp [hx, hz, hnot]
        · have hlt : len x < len z := by omega
          simp [hz, hlt]
    · rw [if_neg hx, ih]
      cases longest len m items with
      | none => simp
      | some z => simp [hx]

/-- `sorted(items, key=len, reverse=True)`: items of one length stay in order. -/
def byLength (len : α → Nat) (items : List α) : List α :=
  items.insertionSort fun x y => len y ≤ len x

theorem find?_orderedInsert {sorted : List α} (hsorted : sorted.Pairwise fun x y => len y ≤ len x) :
    (sorted.orderedInsert (fun x y => len y ≤ len x) x).find? m =
      match sorted.find? m with
      | none => if m x then some x else none
      | some y => if m x ∧ len y ≤ len x then some x else some y := by
  induction sorted with
  | nil => cases hx : m x <;> simp [hx]
  | cons y rest ih =>
    obtain ⟨hy, hrest⟩ := List.pairwise_cons.mp hsorted
    rw [List.orderedInsert_cons]
    by_cases hle : len y ≤ len x
    · rw [if_pos hle]
      cases hfind : (y :: rest).find? m with
      | none =>
        rw [List.find?_cons]
        cases m x with
        | true => rfl
        | false => exact hfind
      | some z =>
        have hz : len z ≤ len x := by
          rcases List.mem_cons.mp (List.mem_of_find?_eq_some hfind) with rfl | hz
          · exact hle
          · exact (hy z hz).trans hle
        rw [List.find?_cons]
        cases m x with
        | true => simp [hz]
        | false => simpa using hfind
    · rw [if_neg hle, List.find?_cons, List.find?_cons]
      cases m y with
      | true => simp [hle]
      | false => exact ih hrest

/-- **The first match of the sorted items** is the longest. -/
theorem find?_byLength : (byLength len items).find? m = longest len m items := by
  have htotal : Std.Total fun x y : α => len y ≤ len x := ⟨fun x y => Nat.le_total _ _⟩
  have htrans : IsTrans α fun x y => len y ≤ len x := ⟨fun _ _ _ h h' => h'.trans h⟩
  induction items with
  | nil => rfl
  | cons x items ih =>
    rw [byLength, List.insertionSort_cons, find?_orderedInsert (List.pairwise_insertionSort _ _),
      longest]
    rw [byLength] at ih
    rw [ih]

end Lib
