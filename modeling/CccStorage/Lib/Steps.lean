/-
  File:      CccStorage/Lib/Steps.lean
  Subject:   Steps that change a state and may stop with an error, keeping what they changed.
             Names nothing of the storage service.

  * `Outcome`, `Outcome.andThen`, `forEach` -- one step, two, and a loop over a list;
  * `Along` -- a condition that holds at every round of a loop, on the state it starts from;
  * `forEach_invariant` -- what every round that meets its condition keeps, the loop keeps;
  * `Outcome.Meets` -- a step succeeds exactly under a condition, and what it then leaves;
    `Outcome.Meets.andThen`, `forEach_meets` -- its rules for two steps and for a loop.
-/
import Mathlib

namespace Lib

/-- The state a step leaves, and whether it stopped with an error. -/
abbrev Outcome (σ ε : Type*) := σ × Except ε Unit

variable {σ ε α : Type*}

def Outcome.andThen (r : Outcome σ ε) (k : σ → Outcome σ ε) : Outcome σ ε :=
  match r.2 with
  | .ok () => k r.1
  | .error _ => r

/-- Take the step for each element; stop at the first error. -/
def forEach (f : α → σ → Outcome σ ε) : List α → σ → Outcome σ ε
  | [], s => (s, .ok ())
  | a :: l, s => (f a s).andThen (forEach f l)

/-- `P` holds at the start of every round of the loop. -/
def Along (f : α → σ → Outcome σ ε) (P : α → σ → Prop) : List α → σ → Prop
  | [], _ => True
  | a :: l, s => P a s ∧ ((f a s).2 = .ok () → Along f P l (f a s).1)

variable {f : α → σ → Outcome σ ε} {P : α → σ → Prop} {I : σ → Prop} {s t : σ} {l : List α}

instance decidableOk : ∀ r : Except ε Unit, Decidable (r = .ok ())
  | .ok () => isTrue rfl
  | .error _ => isFalse nofun

instance decidableAlong [∀ a s, Decidable (P a s)] : ∀ l s, Decidable (Along f P l s)
  | [], _ => isTrue trivial
  | a :: l, s =>
    have := decidableAlong l (f a s).1
    inferInstanceAs (Decidable (P a s ∧ ((f a s).2 = .ok () → Along f P l (f a s).1)))

theorem Outcome.andThen_ok {r : Outcome σ ε} {k : σ → Outcome σ ε} (h : r.2 = .ok ()) :
    r.andThen k = k r.1 := by
  unfold andThen
  rw [h]

/-- What both steps keep, their sequence keeps. -/
theorem Outcome.andThen_invariant {r : Outcome σ ε} {k : σ → Outcome σ ε} (hr : I r.1)
    (hk : r.2 = .ok () → I (k r.1).1) : I (r.andThen k).1 := by
  unfold andThen
  split
  · rename_i h
    exact hk h
  · exact hr

/-- **The loop rule**: what each round that meets its condition keeps, the loop keeps. -/
theorem forEach_invariant (hstep : ∀ a ∈ l, ∀ s, I s → P a s → I (f a s).1) (h0 : I s)
    (hP : Along f P l s) : I (forEach f l s).1 := by
  induction l generalizing s with
  | nil => exact h0
  | cons a l ih =>
      have ha := hstep a List.mem_cons_self s h0 hP.1
      exact Outcome.andThen_invariant ha fun hok =>
        ih (fun b hb => hstep b (List.mem_cons_of_mem a hb)) ha (hP.2 hok)

theorem along_true : Along f (fun _ _ => True) l s := by
  induction l generalizing s with
  | nil => trivial
  | cons a l ih => exact ⟨trivial, fun _ => ih⟩

/-! ### Success -/

/-- **The step succeeds exactly under `C`**, and then leaves a state with `J`. -/
structure Outcome.Meets (r : Outcome σ ε) (C : Prop) (J : σ → Prop) : Prop where
  ok_iff : r.2 = .ok () ↔ C
  post : C → J r.1

section Meets

variable {r : Outcome σ ε} {k : σ → Outcome σ ε} {C D : Prop} {J K : σ → Prop}

theorem Outcome.Meets.of_ok (h : J s) : Outcome.Meets (ε := ε) (s, .ok ()) True J :=
  ⟨⟨fun _ => trivial, fun _ => rfl⟩, fun _ => h⟩

theorem Outcome.Meets.of_error {e : ε} (h : ¬ C) : Outcome.Meets (s, .error e) C J :=
  ⟨⟨fun hok => (by cases hok), fun hC => absurd hC h⟩, fun hC => absurd hC h⟩

theorem Outcome.Meets.congr (h : r.Meets C J) (hCD : C ↔ D) (hJK : C → ∀ s, J s → K s) :
    r.Meets D K :=
  ⟨h.ok_iff.trans hCD, fun hD => hJK (hCD.mpr hD) _ (h.post (hCD.mpr hD))⟩

/-- Two steps succeed when both do. -/
theorem Outcome.Meets.andThen (hr : r.Meets C J) (hk : C → ∀ s, J s → (k s).Meets D K) :
    (r.andThen k).Meets (C ∧ D) K := by
  by_cases hC : C
  · have hok := hr.ok_iff.mpr hC
    rw [Outcome.andThen_ok hok]
    exact (hk hC _ (hr.post hC)).congr ⟨fun hD => ⟨hC, hD⟩, fun h => h.2⟩ fun _ _ h => h
  · have hfail : ¬ r.2 = .ok () := fun hok => hC (hr.ok_iff.mp hok)
    have hstop : r.andThen k = r := by
      unfold Outcome.andThen
      split
      · rename_i hok
        exact absurd hok hfail
      · rfl
    rw [hstop]
    exact ⟨⟨fun hok => absurd hok hfail, fun h => absurd h.1 hC⟩, fun h => absurd h.1 hC⟩

/-- **The loop rule with a history**: a loop succeeds when every round does, on what the rounds
    before it have established. -/
theorem forEach_meets {J : List α → σ → Prop} {Q : List α → α → Prop}
    (hstep : ∀ done a rest s, l = done ++ a :: rest → J done s →
      (f a s).Meets (Q done a) (J (done ++ [a]))) (h0 : J [] s) :
    (forEach f l s).Meets (∀ done a rest, l = done ++ a :: rest → Q done a) (J l) := by
  suffices hgen : ∀ rest done s, l = done ++ rest → J done s → (forEach f rest s).Meets
      (∀ pre a post, rest = pre ++ a :: post → Q (done ++ pre) a) (J l) from hgen l [] s rfl h0
  intro rest
  induction rest with
  | nil =>
      intro done s hl hJ
      rw [List.append_nil] at hl
      subst hl
      refine (Outcome.Meets.of_ok hJ).congr ⟨fun _ pre a post h => ?_, fun _ => trivial⟩
        fun _ _ h => h
      exact absurd h (by simp)
  | cons a rest ih =>
      intro done s hl hJ
      have hnext := (hstep done a rest s hl hJ).andThen fun _ s hs =>
        ih (done ++ [a]) s (by rw [hl, List.append_assoc, List.singleton_append]) hs
      refine hnext.congr ⟨fun h pre b post hsplit => ?_, fun h => ⟨?_, ?_⟩⟩ fun _ _ h => h
      · cases pre with
        | nil =>
            cases hsplit
            rw [List.append_nil]
            exact h.1
        | cons c pre =>
            obtain ⟨rfl, hrest⟩ := List.cons.inj hsplit
            have hQ := h.2 pre b post hrest
            rwa [List.append_assoc] at hQ
      · have hQ := h [] a rest rfl
        rwa [List.append_nil] at hQ
      · intro pre b post hsplit
        have hQ := h (a :: pre) b post (by rw [hsplit, List.cons_append])
        rwa [List.append_assoc]

end Meets

end Lib
