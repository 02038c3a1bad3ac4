/-
  File:      CccStorage/Lib/Run.lean
  Subject:   Runs of a labelled transition relation, with their transitions kept, and the
             induction rules over them. Names nothing of the storage service.

  * `Trans`, `Run` -- a run from `s` to `t` is the list of its transitions (state before,
    event, state after), built one step at a time at the end;
  * `Run.eq_post`, `Run.cons` -- where a run ends, and that it may be built from the front;
  * `Run.invariant` -- what a guarded step preserves holds at both ends of every transition
    of a run whose transitions all meet the guard, and at its last state;
  * `Run.monotone` -- what no step decreases is in order along the run;
  * `trace`, `Run.trace` -- the run of a step function over a schedule of events;
  * `Run.iterate` -- a run with one event only.
-/
import Mathlib

namespace Lib

variable {σ ε : Type*}

/-- One transition: the state before, the event, the state after. -/
structure Trans (σ ε : Type*) where
  pre : σ
  ev : ε
  post : σ

/-- **A run** of `Step` from `s` to its last state, with the transitions it takes. -/
inductive Run (Step : σ → ε → σ → Prop) (s : σ) : List (Trans σ ε) → σ → Prop where
  | start : Run Step s [] s
  | step {tr : List (Trans σ ε)} {t u : σ} {e : ε} (h : Run Step s tr t) (hs : Step t e u) :
      Run Step s (tr ++ [⟨t, e, u⟩]) u

variable {Step : σ → ε → σ → Prop} {s t : σ} {tr : List (Trans σ ε)}

/-- Every transition of a run is a step. -/
theorem Run.isStep (h : Run Step s tr t) : ∀ x ∈ tr, Step x.pre x.ev x.post := by
  induction h with
  | start => intro x hx; cases hx
  | step _ hs ih =>
      intro x hx
      rcases List.mem_append.mp hx with hx | hx
      · exact ih x hx
      · rw [List.mem_singleton] at hx
        subst hx
        exact hs

/-- A run ends where its last transition does. -/
theorem Run.eq_post (h : Run Step s tr t) {x : Trans σ ε} (hx : tr.getLast? = some x) :
    t = x.post := by
  cases h with
  | start => cases hx
  | step _ _ =>
      rw [List.getLast?_concat] at hx
      rw [← Option.some.inj hx]

/-- A run may be extended at its front. -/
theorem Run.cons {r : σ} {e : ε} (hs : Step r e s) (h : Run Step s tr t) :
    Run Step r (⟨r, e, s⟩ :: tr) t := by
  induction h with
  | start =>
      have h1 : Run Step r ([] ++ [⟨r, e, s⟩]) s := .step .start hs
      exact h1
  | step _ hs' ih =>
      rw [← List.cons_append]
      exact .step ih hs'

/-- **The invariant rule**: if every step that meets `G` keeps `I`, then in a run whose
    transitions all meet `G` it holds at the last state and at both ends of every transition. -/
theorem Run.invariant {I : σ → Prop} {G : σ → ε → Prop} (h : Run Step s tr t) (h0 : I s)
    (hstep : ∀ a e b, I a → G a e → Step a e b → I b) (hok : ∀ x ∈ tr, G x.pre x.ev) :
    I t ∧ ∀ x ∈ tr, I x.pre ∧ I x.post := by
  induction h with
  | start => exact ⟨h0, fun x hx => by cases hx⟩
  | @step tr t u e _ hs ih =>
      obtain ⟨ht, hall⟩ := ih fun x hx => hok x (List.mem_append_left _ hx)
      have hu : I u := hstep _ _ _ ht (hok ⟨t, e, u⟩ (by simp)) hs
      refine ⟨hu, fun x hx => ?_⟩
      rcases List.mem_append.mp hx with hx | hx
      · exact hall x hx
      · rw [List.mem_singleton] at hx
        subst hx
        exact ⟨ht, hu⟩

/-- **What no step decreases** is in order along the run. -/
theorem Run.monotone {α : Type*} [Preorder α] {f : σ → α} (h : Run Step s tr t)
    (hle : ∀ x ∈ tr, f x.pre ≤ f x.post) :
    (tr.map fun x => f x.post).Pairwise (· ≤ ·) ∧ ∀ x ∈ tr, f x.post ≤ f t := by
  induction h with
  | start => exact ⟨.nil, fun x hx => by cases hx⟩
  | @step tr t u e _ _ ih =>
      obtain ⟨hsorted, hlast⟩ := ih fun x hx => hle x (List.mem_append_left _ hx)
      have hnew : f t ≤ f u := hle ⟨t, e, u⟩ (by simp)
      have hbelow : ∀ x ∈ tr, f x.post ≤ f u := fun x hx => (hlast x hx).trans hnew
      refine ⟨?_, fun x hx => ?_⟩
      · rw [List.map_append, List.pairwise_append]
        refine ⟨hsorted, List.pairwise_singleton _ _, fun a ha b hb => ?_⟩
        obtain ⟨x, hx, rfl⟩ := List.mem_map.mp ha
        rw [List.map_singleton, List.mem_singleton] at hb
        rw [hb]
        exact hbelow x hx
      · rcases List.mem_append.mp hx with hx | hx
        · exact hbelow x hx
        · rw [List.mem_singleton] at hx
          rw [hx]

/-! ## Schedules of a step function -/

/-- The transitions of a schedule; it ends at the first event that is not enabled. -/
def trace (f : σ → ε → Option σ) : σ → List ε → List (Trans σ ε)
  | _, [] => []
  | s, e :: es =>
    match f s e with
    | none => []
    | some t => ⟨s, e, t⟩ :: trace f t es

/-- **A schedule is a run.** -/
theorem Run.trace (f : σ → ε → Option σ) (es : List ε) (s : σ) :
    ∃ t, Run (fun a e b => f a e = some b) s (Lib.trace f s es) t := by
  induction es generalizing s with
  | nil => exact ⟨s, .start⟩
  | cons e es ih =>
      unfold Lib.trace
      cases hf : f s e with
      | none => exact ⟨s, .start⟩
      | some u =>
          obtain ⟨t, ht⟩ := ih u
          exact ⟨t, ht.cons hf⟩

/-- **A run with one event only** is where its length says. -/
theorem Run.iterate {f : σ → ε → Option σ} {e : ε} (he : ∀ e', e' = e)
    (h : Run (fun a e b => f a e = some b) s tr t) :
    (fun a : Option σ => a.bind fun b => f b e)^[tr.length] (some s) = some t := by
  induction h with
  | start => rfl
  | @step tr t u e' _ hs ih =>
      rw [List.length_append, List.length_singleton, Function.iterate_succ_apply', ih]
      exact (he e') ▸ hs

end Lib
