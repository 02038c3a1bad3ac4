/-
  File:      CccStorage/Lib/Programs.lean
  Subject:   Programs over a state that may raise, where an exception keeps what was done before
             it, and what they keep. Names nothing of the storage service.

  * `Program`, `exec` -- a program, and what running it from a state gives and leaves;
  * `raising` -- the same program under an `except` clause that raises another exception;
  * `onException`, `closing` -- a handler that raises the exception again, and a `finally` clause;
  * `Keeps` -- from a state with `I` the program leaves one, and a value it returns has `Q`;
  * `Keeps.bind`, `Keeps.tryCatch`, .. -- its rules, one for each way to build a program;
  * `Returns` -- a program that keeps `I`, and from a state with `I` returns exactly under `C`;
  * `Ends` -- from a state with `I`, what holds where it returns and what where it raises.
-/
import Mathlib

namespace Lib

variable {σ ε α β : Type}

abbrev Program (σ ε α : Type) := ExceptT ε (StateM σ) α

/-- The value or the exception of a run, and the state it leaves. -/
def exec (m : Program σ ε α) (s : σ) : Except ε α × σ := (ExceptT.run m).run s

/-- `except` clauses, each of which raises. -/
def raising (clauses : ε → ε) (m : Program σ ε α) : Program σ ε α :=
  tryCatch m fun e => throw (clauses e)

/-- `except` with a handler that raises the exception again. -/
def onException (handler : Program σ ε Unit) (m : Program σ ε α) : Program σ ε α :=
  tryCatch m fun e => do
    handler
    throw e

/-- `finally`: the clause runs after the program, whether that returns or raises. -/
def closing (clause : Program σ ε Unit) (m : Program σ ε α) : Program σ ε α := do
  let a ← onException clause m
  clause
  return a

section Exec

variable (m : Program σ ε α) (f : α → Program σ ε β) (s : σ)

@[simp] theorem exec_pure (a : α) : exec (pure a : Program σ ε α) s = (.ok a, s) := rfl

@[simp] theorem exec_throw (e : ε) : exec (throw e : Program σ ε α) s = (.error e, s) := rfl

@[simp] theorem exec_modify (g : σ → σ) : exec (modify g : Program σ ε Unit) s = (.ok (), g s) := rfl

@[simp] theorem exec_get : exec (get : Program σ ε σ) s = (.ok s, s) := rfl

theorem exec_bind : exec (m >>= f) s =
    match exec m s with
    | (.ok a, t) => exec (f a) t
    | (.error e, t) => (.error e, t) := by
  simp only [exec, ExceptT.run_bind, StateT.run_bind]
  rcases h : (ExceptT.run m).run s with ⟨r, t⟩
  cases r <;> rfl

theorem exec_tryCatch (handler : ε → Program σ ε α) : exec (tryCatch m handler) s =
    match exec m s with
    | (.ok a, t) => (.ok a, t)
    | (.error e, t) => exec (handler e) t := by
  change (ExceptT.run m >>= fun r => match r with
    | .ok a => pure (.ok a)
    | .error e => ExceptT.run (handler e)).run s = _
  rw [StateT.run_bind]
  unfold exec
  rcases h : (ExceptT.run m).run s with ⟨r, t⟩
  cases r <;> rfl

theorem exec_onException (handler : Program σ ε Unit) : exec (onException handler m) s =
    match exec m s with
    | (.ok a, t) => (.ok a, t)
    | (.error e, t) => exec (handler >>= fun _ => throw e) t :=
  exec_tryCatch m s _

/-- The clause runs where the program has come to an end, and its exception takes over. -/
theorem exec_closing (clause : Program σ ε Unit) : exec (closing clause m) s =
    match exec clause (exec m s).2 with
    | (.ok _, u) => ((exec m s).1, u)
    | (.error e, u) => (.error e, u) := by
  unfold closing
  rw [exec_bind, exec_onException]
  rcases h : exec m s with ⟨r, t⟩
  cases r with
  | ok a =>
      show exec (clause >>= fun _ => Pure.pure a) t = _
      rw [exec_bind]
      rcases exec clause t with ⟨_ | _, u⟩ <;> rfl
  | error e =>
      simp only [exec_bind]
      rcases exec clause t with ⟨_ | _, u⟩ <;> rfl

end Exec

/-- **What a program keeps**: from a state with `I` it leaves one, returning or raising, and what
    it returns has `Q`. -/
def Keeps (I : σ → Prop) (m : Program σ ε α) (Q : α → Prop) : Prop :=
  ∀ s, I s → I (exec m s).2 ∧ ∀ a, (exec m s).1 = .ok a → Q a

section Keeps

variable {I : σ → Prop} {m : Program σ ε α} {f : α → Program σ ε β} {Q Q' : α → Prop} {R : β → Prop}

theorem Keeps.pure {a : α} (h : Q a) : Keeps (ε := ε) I (Pure.pure a) Q := fun s hs =>
  ⟨hs, fun b hb => by cases hb; exact h⟩

theorem Keeps.throw {e : ε} : Keeps I (MonadExcept.throw e : Program σ ε α) Q := fun s hs =>
  ⟨hs, fun b hb => by cases hb⟩

theorem Keeps.state : Keeps (ε := ε) I get I := fun s hs =>
  ⟨hs, fun a ha => by cases ha; exact hs⟩

theorem Keeps.update {g : σ → σ} (h : ∀ s, I s → I (g s)) :
    Keeps I (modify g : Program σ ε Unit) fun _ => True := fun s hs =>
  ⟨h s hs, fun _ _ => trivial⟩

theorem Keeps.bind (hm : Keeps I m Q) (hf : ∀ a, Q a → Keeps I (f a) R) : Keeps I (m >>= f) R := by
  intro s hs
  have hrun := hm s hs
  rw [exec_bind]
  rcases h : exec m s with ⟨r, t⟩
  rw [h] at hrun
  cases r with
  | ok a => exact hf a (hrun.2 a rfl) t hrun.1
  | error e => exact ⟨hrun.1, fun b hb => by cases hb⟩

theorem Keeps.tryCatch {handler : ε → Program σ ε α} (hm : Keeps I m Q)
    (hh : ∀ e, Keeps I (handler e) Q) : Keeps I (MonadExcept.tryCatch m handler) Q := by
  intro s hs
  have hrun := hm s hs
  have hcatch := exec_tryCatch m s handler
  rcases h : exec m s with ⟨r, t⟩
  rw [h] at hrun hcatch
  cases r with
  | ok a => exact hcatch ▸ hrun
  | error e => exact hcatch ▸ hh e t hrun.1

theorem Keeps.raising {clauses : ε → ε} (hm : Keeps I m Q) : Keeps I (raising clauses m) Q :=
  hm.tryCatch fun _ => .throw

theorem Keeps.mono (h : Keeps I m Q) (hQ : ∀ a, Q a → Q' a) : Keeps I m Q' := fun s hs =>
  ⟨(h s hs).1, fun a ha => hQ a ((h s hs).2 a ha)⟩

theorem Keeps.and {J : σ → Prop} (h : Keeps I m Q) (h' : Keeps J m Q') :
    Keeps (fun s => I s ∧ J s) m fun a => Q a ∧ Q' a := fun s hs =>
  ⟨⟨(h s hs.1).1, (h' s hs.2).1⟩, fun a ha => ⟨(h s hs.1).2 a ha, (h' s hs.2).2 a ha⟩⟩

end Keeps

/-- **When a program returns**: it keeps `I`, and from a state with `I` it returns exactly under
    `C`. -/
structure Returns (I : σ → Prop) (m : Program σ ε α) (C : Prop) (Q : α → Prop) : Prop where
  keeps : Keeps I m Q
  returns_iff : ∀ s, I s → ((∃ a, (exec m s).1 = .ok a) ↔ C)

section Returns

variable {I : σ → Prop} {m : Program σ ε α} {f : α → Program σ ε β} {C D : Prop} {Q Q' : α → Prop}
  {R : β → Prop}

theorem Returns.pure {a : α} (h : Q a) : Returns (ε := ε) I (Pure.pure a) True Q :=
  ⟨.pure h, fun _ _ => ⟨fun _ => trivial, fun _ => ⟨a, rfl⟩⟩⟩

theorem Returns.throw {e : ε} : Returns I (MonadExcept.throw e : Program σ ε α) False Q :=
  ⟨.throw, fun s _ => ⟨fun ⟨a, ha⟩ => (by cases ha), False.elim⟩⟩

theorem Returns.state : Returns (ε := ε) I get True I :=
  ⟨.state, fun s _ => ⟨fun _ => trivial, fun _ => ⟨s, rfl⟩⟩⟩

theorem Returns.update {g : σ → σ} (h : ∀ s, I s → I (g s)) :
    Returns I (modify g : Program σ ε Unit) True fun _ => True :=
  ⟨.update h, fun _ _ => ⟨fun _ => trivial, fun _ => ⟨(), rfl⟩⟩⟩

/-- Two programs in a row return when both do. -/
theorem Returns.bind (hm : Returns I m C Q) (hf : ∀ a, Q a → Returns I (f a) D R) :
    Returns I (m >>= f) (C ∧ D) R := by
  refine ⟨hm.keeps.bind fun a ha => (hf a ha).keeps, fun s hs => ?_⟩
  have hkeeps := hm.keeps s hs
  have hreturns := hm.returns_iff s hs
  rw [exec_bind]
  rcases h : exec m s with ⟨r, t⟩
  rw [h] at hkeeps hreturns
  cases r with
  | ok a =>
      have hC : C := hreturns.mp ⟨a, rfl⟩
      rw [(hf a (hkeeps.2 a rfl)).returns_iff t hkeeps.1]
      exact ⟨fun hD => ⟨hC, hD⟩, fun hCD => hCD.2⟩
  | error e =>
      refine ⟨fun ⟨b, hb⟩ => (by cases hb), fun hCD => ?_⟩
      obtain ⟨a, ha⟩ := hreturns.mpr hCD.1
      cases ha

theorem Returns.congr (h : Returns I m C Q) (hCD : C ↔ D) (hQ : ∀ a, Q a → Q' a) :
    Returns I m D Q' :=
  ⟨h.keeps.mono hQ, fun s hs => (h.returns_iff s hs).trans hCD⟩

end Returns

/-- **How a program ends**: from a state with `I`, `Q` of what it returns and the state it leaves,
    or `E` of the state in which it raises. -/
def Ends (I : σ → Prop) (m : Program σ ε α) (Q : α → σ → Prop) (E : σ → Prop) : Prop :=
  ∀ s, I s → (∀ a, (exec m s).1 = .ok a → Q a (exec m s).2) ∧
    ∀ e, (exec m s).1 = .error e → E (exec m s).2

section Ends

variable {I : σ → Prop} {m : Program σ ε α} {f : α → Program σ ε β} {Q Q' : α → σ → Prop}
  {R : β → σ → Prop} {E E' : σ → Prop}

theorem Ends.pure {a : α} (h : ∀ s, I s → Q a s) : Ends (ε := ε) I (Pure.pure a) Q E := fun s hs =>
  ⟨fun b hb => (by cases hb; exact h s hs), fun e he => by cases he⟩

theorem Ends.throw {e : ε} (h : ∀ s, I s → E s) :
    Ends I (MonadExcept.throw e : Program σ ε α) Q E := fun s hs =>
  ⟨fun b hb => (by cases hb), fun _ _ => h s hs⟩

theorem Ends.update {g : σ → σ} {Q : Unit → σ → Prop} (h : ∀ s, I s → Q () (g s)) :
    Ends (ε := ε) I (modify g) Q E := fun s hs =>
  ⟨fun _ _ => h s hs, fun e he => by cases he⟩

theorem Ends.bind (hm : Ends I m Q E) (hf : ∀ a, Ends (Q a) (f a) R E) :
    Ends I (m >>= f) R E := by
  intro s hs
  have hrun := hm s hs
  rw [exec_bind]
  rcases h : exec m s with ⟨r, t⟩
  rw [h] at hrun
  cases r with
  | ok a => exact hf a t (hrun.1 a rfl)
  | error e => exact ⟨fun b hb => (by cases hb), fun e' _ => hrun.2 e rfl⟩

theorem Ends.raising {clauses : ε → ε} (hm : Ends I m Q E) : Ends I (raising clauses m) Q E := by
  intro s hs
  have hrun := hm s hs
  have hcatch : exec (Lib.raising clauses m) s = _ := exec_tryCatch m s _
  rcases h : exec m s with ⟨r, t⟩
  rw [h] at hrun hcatch
  cases r with
  | ok a => exact hcatch ▸ hrun
  | error e => exact hcatch ▸ ⟨fun b hb => (by cases hb), fun e' _ => hrun.2 e rfl⟩

theorem Ends.mono (h : Ends I m Q E) (hQ : ∀ a s, Q a s → Q' a s) (hE : ∀ s, E s → E' s) :
    Ends I m Q' E' := fun s hs =>
  ⟨fun a ha => hQ a _ ((h s hs).1 a ha), fun e he => hE _ ((h s hs).2 e he)⟩

/-- What a program keeps holds however it ends. -/
theorem Keeps.ends {P : α → Prop} (h : Keeps I m P) (hQ : ∀ a s, P a → I s → Q a s)
    (hE : ∀ s, I s → E s) : Ends I m Q E := fun s hs =>
  ⟨fun a ha => hQ a _ ((h s hs).2 a ha) (h s hs).1, fun _ _ => hE _ (h s hs).1⟩

/-- First a program that keeps `I`, then one that ends from there. -/
theorem Ends.after {P : α → Prop} (hm : Keeps I m P) (hE : ∀ s, I s → E s)
    (hf : ∀ a, P a → Ends I (f a) R E) : Ends I (m >>= f) R E := by
  have hfirst : Ends I m (fun a s => P a ∧ I s) E := hm.ends (fun _ _ ha hs => ⟨ha, hs⟩) hE
  exact hfirst.bind fun a s ⟨ha, hs⟩ => hf a ha s hs

end Ends

end Lib
