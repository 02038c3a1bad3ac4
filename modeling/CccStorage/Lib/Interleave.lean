/-
  File:      CccStorage/Lib/Interleave.lean
  Subject:   Threads that act on one shared state in any order, and the rule for what may be
             asserted at their program points. Names nothing of the storage service.

  * `Threads`, `Threads.next` -- the shared state, where each thread is, and one step of one of
    them;
  * `Threads.sharing`, `Threads.moved` -- a step as a change of the shared state and a move;
  * `Outline`, `Outline.Holds` -- what holds of the shared state, of it at a program point, and
    of the program points of two threads;
  * `Outline.Keeps` -- a step that disturbs none of it;
  * `Outline.run` -- what no step disturbs holds at both ends of every transition of a run.
-/
import CccStorage.Lib.Run

namespace Lib

variable {n : Nat} {σ π α : Type*}

/-- `n` threads over a shared state. -/
structure Threads (n : Nat) (σ π : Type*) where
  shared : σ
  pc : Fin n → π

/-- **A step of one thread**: it acts on the shared state from where it is, and goes on. -/
def Threads.next (f : σ → π → α → Option (σ × π)) (s : Threads n σ π) (e : Fin n × α) :
    Option (Threads n σ π) :=
  match f s.shared (s.pc e.1) e.2 with
  | none => none
  | some r => some { shared := r.1, pc := Function.update s.pc e.1 r.2 }

/-- A run of the threads, one step of one thread at a time. -/
abbrev Interleaving (f : σ → π → α → Option (σ × π)) :
    Threads n σ π → List (Trans (Threads n σ π) (Fin n × α)) → Threads n σ π → Prop :=
  Run fun a e b => a.next f e = some b

theorem Threads.next_eq_some {f : σ → π → α → Option (σ × π)} {s t : Threads n σ π}
    {e : Fin n × α} (h : s.next f e = some t) : ∃ p,
      f s.shared (s.pc e.1) e.2 = some (t.shared, p) ∧ t.pc = Function.update s.pc e.1 p := by
  unfold Threads.next at h
  split at h
  · cases h
  · rename_i r hr
    cases h
    exact ⟨r.2, hr, rfl⟩

/-- One thread is elsewhere. -/
def Threads.moved (s : Threads n σ π) (i : Fin n) (p : π) : Threads n σ π :=
  { s with pc := Function.update s.pc i p }

/-- The shared state is another one. -/
def Threads.sharing (s : Threads n σ π) (u : σ) : Threads n σ π := { s with shared := u }

theorem Threads.moved_self (s : Threads n σ π) (i : Fin n) (p : π) : (s.moved i p).pc i = p :=
  Function.update_self ..

theorem Threads.moved_of_ne (s : Threads n σ π) {i j : Fin n} (p : π) (hj : j ≠ i) :
    (s.moved i p).pc j = s.pc j :=
  Function.update_of_ne hj ..

theorem Threads.moved_pc (s : Threads n σ π) (i : Fin n) : s.moved i (s.pc i) = s := by
  unfold Threads.moved
  rw [Function.update_eq_self]

/-- A step changes the shared state and moves its thread. -/
theorem Threads.next_eq_moved {f : σ → π → α → Option (σ × π)} {s t : Threads n σ π}
    {e : Fin n × α} (h : s.next f e = some t) : ∃ u p,
      f s.shared (s.pc e.1) e.2 = some (u, p) ∧ t = (s.sharing u).moved e.1 p := by
  unfold Threads.next at h
  split at h
  · cases h
  · rename_i r hr
    cases h
    exact ⟨r.1, r.2, hr, rfl⟩

/-- **A proof outline**: the invariant of the shared state, what holds at a program point, and
    which two program points two threads may be at. -/
structure Outline (σ π : Type*) where
  inv : σ → Prop
  point : σ → π → Prop
  apart : π → π → Prop
  symm : ∀ p q, apart p q → apart q p

/-- The outline holds of the threads. -/
structure Outline.Holds (A : Outline σ π) (s : Threads n σ π) : Prop where
  inv : A.inv s.shared
  point : ∀ i, A.point s.shared (s.pc i)
  apart : ∀ i j, i ≠ j → A.apart (s.pc i) (s.pc j)

/-- A step of thread `i` keeps the invariant, reaches its next assertion and disturbs no other
    thread. -/
structure Outline.Keeps (A : Outline σ π) (s : Threads n σ π) (i : Fin n) (u : σ) (p : π) :
    Prop where
  inv : A.inv u
  point : A.point u p
  others : ∀ j, j ≠ i → A.point u (s.pc j)
  apart : ∀ j, j ≠ i → A.apart p (s.pc j)

/-- Such a step keeps the outline. -/
theorem Outline.Holds.next {A : Outline σ π} {s t : Threads n σ π} {i : Fin n} {p : π}
    (h : A.Holds s) (hpc : t.pc = Function.update s.pc i p) (hk : A.Keeps s i t.shared p) :
    A.Holds t := by
  obtain ⟨hinv, hpoint, hothers, hapart⟩ := hk
  refine ⟨hinv, fun j => ?_, fun j k hjk => ?_⟩
  · rw [hpc]
    by_cases hj : j = i
    · rw [hj, Function.update_self]
      exact hpoint
    · rw [Function.update_of_ne hj]
      exact hothers j hj
  · rw [hpc]
    by_cases hj : j = i
    · have hk : k ≠ i := fun hk => hjk (hj.trans hk.symm)
      rw [hj, Function.update_self, Function.update_of_ne hk]
      exact hapart k hk
    · rw [Function.update_of_ne hj]
      by_cases hk : k = i
      · rw [hk, Function.update_self]
        exact A.symm _ _ (hapart j hj)
      · rw [Function.update_of_ne hk]
        exact h.apart j k hjk

/-- **The rule for interleavings**: an outline that every step meeting `G` keeps holds throughout
    a run whose steps all meet `G`. -/
theorem Outline.run (A : Outline σ π) {f : σ → π → α → Option (σ × π)}
    {G : Threads n σ π → Fin n × α → Prop} {s t : Threads n σ π}
    {tr : List (Trans (Threads n σ π) (Fin n × α))} (hrun : Interleaving f s tr t)
    (h0 : A.Holds s)
    (hstep : ∀ a e u p, A.Holds a → G a e → f a.shared (a.pc e.1) e.2 = some (u, p) →
      A.Keeps a e.1 u p)
    (hok : ∀ x ∈ tr, G x.pre x.ev) : A.Holds t ∧ ∀ x ∈ tr, A.Holds x.pre ∧ A.Holds x.post := by
  refine hrun.invariant (I := A.Holds) (G := G) h0 (fun a e b ha hg hs => ?_) hok
  obtain ⟨p, hf, hpc⟩ := Threads.next_eq_some hs
  exact ha.next hpc (hstep a e _ p ha hg hf)

end Lib
