/-
  File:      CccStorage/Lib/Timer.lean
  Subject:   A task that is due again a fixed time after it last began, on a clock that is read now
             and then. Names nothing of the storage service.

  * `polled` -- the readings at which the task begins;
  * `polled_spaced`, `due_le_polled` -- never before it is due;
  * `polled_inTime` -- and at the first reading from then on;
  * `polled_most` -- no choice of readings with the same spacing has more of them.
-/
import Mathlib.Algebra.Order.Group.Defs
import Mathlib.Data.List.Basic

namespace Lib

variable {T : Type*} [AddCommGroup T] [LinearOrder T] [IsOrderedAddMonoid T]
  {wait due due' t : T} {nows l : List T}

/-- The readings at which a task begins that is next due at `due`, and then again `wait` after each
    of them. -/
def polled (wait : T) : T → List T → List T
  | _, [] => []
  | due, now :: nows =>
    if due ≤ now then now :: polled wait (now + wait) nows else polled wait due nows

omit [IsOrderedAddMonoid T] in
theorem polled_sublist (wait due : T) (nows : List T) : (polled wait due nows).Sublist nows := by
  induction nows generalizing due with
  | nil => exact List.Sublist.refl _
  | cons now nows ih =>
      rw [polled]
      split
      · exact (ih (now + wait)).cons_cons now
      · exact (ih due).cons now

theorem due_le_polled (hwait : 0 ≤ wait) (ht : t ∈ polled wait due nows) : due ≤ t := by
  induction nows generalizing due with
  | nil => exact absurd ht List.not_mem_nil
  | cons now nows ih =>
      rw [polled] at ht
      split at ht
      · rename_i hdue
        rcases List.mem_cons.mp ht with rfl | ht
        · exact hdue
        · exact (hdue.trans (le_add_of_nonneg_right hwait)).trans (ih ht)
      · exact ih ht

/-- **Two beginnings are at least the wait apart.** -/
theorem polled_spaced (hwait : 0 ≤ wait) (due : T) (nows : List T) :
    (polled wait due nows).Pairwise fun s t => s + wait ≤ t := by
  induction nows generalizing due with
  | nil => exact List.Pairwise.nil
  | cons now nows ih =>
      rw [polled]
      split
      · exact List.pairwise_cons.mpr ⟨fun t ht => due_le_polled hwait ht, ih (now + wait)⟩
      · exact ih due

/-- **No reading finds the task overdue**: at every reading that is not too early it begins, or has
    begun less than the wait before. -/
theorem polled_inTime (hwait : 0 < wait) (hclock : nows.Pairwise (· ≤ ·)) (ht : t ∈ nows) :
    t < due ∨ ∃ s ∈ polled wait due nows, s ≤ t ∧ t < s + wait := by
  induction nows generalizing due with
  | nil => exact absurd ht List.not_mem_nil
  | cons now nows ih =>
      obtain ⟨hnow, hclock⟩ := List.pairwise_cons.mp hclock
      rw [polled]
      by_cases hdue : due ≤ now
      · rw [if_pos hdue]
        right
        rcases List.mem_cons.mp ht with rfl | ht
        · exact ⟨t, List.mem_cons_self, le_refl t, lt_add_of_pos_right t hwait⟩
        · have hlater : t < now + wait ∨ ∃ s ∈ polled wait (now + wait) nows, s ≤ t ∧ t < s + wait :=
            ih hclock ht
          rcases hlater with hlt | ⟨s, hs, hst⟩
          · exact ⟨now, List.mem_cons_self, hnow t ht, hlt⟩
          · exact ⟨s, List.mem_cons_of_mem now hs, hst⟩
      · rw [if_neg hdue]
        rcases List.mem_cons.mp ht with rfl | ht
        · exact .inl (not_le.mp hdue)
        · exact ih hclock ht

/-- **No choice of readings with this spacing has more of them**: the polled ones stay ahead. -/
theorem polled_most (hclock : nows.Pairwise (· ≤ ·)) (hl : l.Sublist nows)
    (hspaced : l.Pairwise fun s t => s + wait ≤ t) (hdue : ∀ t ∈ l, due ≤ t) :
    l.length ≤ (polled wait due nows).length := by
  induction nows generalizing due l with
  | nil =>
      rw [List.sublist_nil.mp hl]
      exact Nat.le_refl _
  | cons now nows ih =>
      obtain ⟨hnow, hclock⟩ := List.pairwise_cons.mp hclock
      rw [polled]
      by_cases hready : due ≤ now
      · rw [if_pos hready, List.length_cons]
        cases l with
        | nil => exact Nat.zero_le _
        | cons t l =>
          obtain ⟨hnext, hspaced⟩ := List.pairwise_cons.mp hspaced
          have hle : now ≤ t := by
            rcases List.mem_cons.mp (hl.subset List.mem_cons_self) with rfl | ht
            · exact le_refl t
            · exact hnow t ht
          -- what comes after the choice's first reading is due after the polled one
          refine Nat.succ_le_succ (ih hclock (List.Sublist.of_cons_cons hl) hspaced fun s hs => ?_)
          exact (add_le_add_left hle wait).trans (hnext s hs)
      · rw [if_neg hready]
        refine ih hclock ?_ hspaced hdue
        rcases List.sublist_cons_iff.mp hl with hl | ⟨r, rfl, -⟩
        · exact hl
        · exact absurd (hdue now List.mem_cons_self) hready

end Lib
