/-
  File:      CccStorage/Lib/Rounds.lean
  Subject:   A loop over keys whose body may raise: the first exception ends it. Names nothing of
             the storage service.

  * `rounds` -- the log of what was done, and the world after it;
  * `rounds_append`, `rounds_invariant`, `rounds_congr` -- two parts of the keys, what every round
    keeps, and two worlds.
-/
import Mathlib.Data.List.Basic

namespace Lib

variable {W W' K E R : Type*}

/-- **The loop**: `for key in keys: body(key)`. -/
def rounds (body : W → K → Except E R × W) : List K → W → List (K × Except E R) × W
  | [], w => ([], w)
  | key :: keys, w =>
    match body w key with
    | (.error e, w₁) => ([(key, .error e)], w₁)
    | (.ok r, w₁) =>
      let rest := rounds body keys w₁
      ((key, .ok r) :: rest.1, rest.2)

/-- The loop was ended by an exception. -/
def Stopped (log : List (K × Except E R)) : Prop := ∃ x ∈ log, ∃ e, x.2 = .error e

theorem not_stopped_nil : ¬ Stopped ([] : List (K × Except E R)) := by
  rintro ⟨x, hx, -⟩
  exact absurd hx List.not_mem_nil

theorem stopped_cons_ok {key : K} {r : R} {log : List (K × Except E R)} :
    Stopped ((key, .ok r) :: log) ↔ Stopped log := by
  constructor
  · rintro ⟨x, hx, e, he⟩
    rcases List.mem_cons.mp hx with rfl | hx
    · cases he
    · exact ⟨x, hx, e, he⟩
  · rintro ⟨x, hx, he⟩
    exact ⟨x, List.mem_cons_of_mem _ hx, he⟩

theorem stopped_singleton {key : K} {e : E} : Stopped [(key, (.error e : Except E R))] :=
  ⟨_, List.mem_singleton_self _, e, rfl⟩

section Loop

variable {body : W → K → Except E R × W} {w : W} {key : K} {keys : List K}

theorem rounds_cons_error {e : E} {w₁ : W} (h : body w key = (.error e, w₁)) :
    rounds body (key :: keys) w = ([(key, .error e)], w₁) := by
  simp only [rounds, h]

theorem rounds_cons_ok {r : R} {w₁ : W} (h : body w key = (.ok r, w₁)) :
    rounds body (key :: keys) w =
      ((key, .ok r) :: (rounds body keys w₁).1, (rounds body keys w₁).2) := by
  simp only [rounds, h]

theorem rounds_stopped (front : List K) (w : W) (h : Stopped (rounds body front w).1)
    (back : List K) : rounds body (front ++ back) w = rounds body front w := by
  induction front generalizing w with
  | nil => exact absurd h not_stopped_nil
  | cons key front ih =>
    rcases hbody : body w key with ⟨_ | _, w₁⟩
    · rw [List.cons_append, rounds_cons_error hbody, rounds_cons_error hbody]
    · rw [rounds_cons_ok hbody] at h
      rw [List.cons_append, rounds_cons_ok hbody, rounds_cons_ok hbody,
        ih w₁ (stopped_cons_ok.mp h)]

/-- **The keys in two parts**, when no exception ends the first. -/
theorem rounds_append (front : List K) (w : W) (h : ¬ Stopped (rounds body front w).1)
    (back : List K) : rounds body (front ++ back) w =
      ((rounds body front w).1 ++ (rounds body back (rounds body front w).2).1,
        (rounds body back (rounds body front w).2).2) := by
  induction front generalizing w with
  | nil => rfl
  | cons key front ih =>
    rcases hbody : body w key with ⟨_ | _, w₁⟩
    · rw [rounds_cons_error hbody] at h
      exact absurd stopped_singleton h
    · rw [rounds_cons_ok hbody] at h ⊢
      rw [List.cons_append, rounds_cons_ok hbody, ih w₁ (mt stopped_cons_ok.mpr h)]
      rfl

/-- **What is done is done to keys of the list.** -/
theorem rounds_keys {x : K × Except E R} (hx : x ∈ (rounds body keys w).1) : x.1 ∈ keys := by
  induction keys generalizing w with
  | nil => exact absurd hx List.not_mem_nil
  | cons key keys ih =>
    rcases hbody : body w key with ⟨_ | _, w₁⟩
    · rw [rounds_cons_error hbody] at hx
      obtain rfl := List.mem_singleton.mp hx
      exact List.mem_cons_self
    · rw [rounds_cons_ok hbody] at hx
      rcases List.mem_cons.mp hx with rfl | hx
      · exact List.mem_cons_self
      · exact List.mem_cons_of_mem _ (ih hx)

/-- **What every round keeps, the loop keeps.** -/
theorem rounds_invariant {I : W → Prop} (hbody : ∀ key ∈ keys, ∀ w, I w → I (body w key).2)
    (h : I w) : I (rounds body keys w).2 := by
  induction keys generalizing w with
  | nil => exact h
  | cons key keys ih =>
    have hnext := hbody key List.mem_cons_self w h
    rcases hb : body w key with ⟨_ | _, w₁⟩
    all_goals rw [hb] at hnext
    · rw [rounds_cons_error hb]
      exact hnext
    · rw [rounds_cons_ok hb]
      exact ih (fun key hkey => hbody key (List.mem_cons_of_mem _ hkey)) hnext

/-- **Two worlds**: a body that does the same in related worlds, and keeps them related. -/
theorem rounds_congr {body' : W' → K → Except E R × W'} {Rel : W → W' → Prop} {w' : W'}
    (hbody : ∀ key ∈ keys, ∀ w w', Rel w w' →
      (body w key).1 = (body' w' key).1 ∧ Rel (body w key).2 (body' w' key).2)
    (h : Rel w w') :
    (rounds body keys w).1 = (rounds body' keys w').1 ∧
      Rel (rounds body keys w).2 (rounds body' keys w').2 := by
  induction keys generalizing w w' with
  | nil => exact ⟨rfl, h⟩
  | cons key keys ih =>
    obtain ⟨hsame, hrel⟩ := hbody key List.mem_cons_self w w' h
    rcases hb : body w key with ⟨e | r, w₁⟩
    all_goals
      rcases hb' : body' w' key with ⟨e' | r', w₁'⟩
      all_goals rw [hb, hb'] at hsame hrel
    · rw [rounds_cons_error hb, rounds_cons_error hb']
      obtain rfl := Except.error.inj hsame
      exact ⟨rfl, hrel⟩
    · cases hsame
    · cases hsame
    · obtain rfl := Except.ok.inj hsame
      rw [rounds_cons_ok hb, rounds_cons_ok hb']
      obtain ⟨hlog, hfinal⟩ := ih (fun key hkey => hbody key (List.mem_cons_of_mem _ hkey)) hrel
      exact ⟨congrArg _ hlog, hfinal⟩

end Loop

end Lib
