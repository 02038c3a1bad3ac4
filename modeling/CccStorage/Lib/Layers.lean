/-
  File:      CccStorage/Lib/Layers.lean
  Subject:   A record under layers of settings: a later layer that names a field overrides it, one
             that does not leaves it. Names nothing of the storage service.

  * `Setting` -- one rule of a layer: the field it is for, and what it reads, when it is set;
  * `overlay` -- a layer over a record; a value that cannot be read refuses the whole record;
  * `OverlaidAt` -- what a layer makes of one field; `overlay_at`, `OverlaidAt.trans`.
-/
import Mathlib.Logic.Function.Basic
import Mathlib.Data.List.Basic

namespace Lib

variable {Field : Type*} {Value : Field → Type*} {ε : Type*}

/-- A rule for one field: `none` where it is not set. -/
structure Setting (Value : Field → Type*) (ε : Type*) where
  field : Field
  read : Option (Except ε (Value field))

namespace Setting

/-- The rule is set, and reads `v` for `f`. -/
inductive Gives : Setting Value ε → (f : Field) → Value f → Prop where
  | intro (f : Field) (v : Value f) : Gives ⟨f, some (.ok v)⟩ f v

theorem Gives.field {s : Setting Value ε} {f : Field} {v : Value f} (h : s.Gives f v) :
    s.field = f := by
  cases h
  rfl

theorem Gives.isSet {s : Setting Value ε} {f : Field} {v : Value f} (h : s.Gives f v) :
    s.read ≠ none := by
  cases h
  exact nofun

theorem gives_mk {f : Field} {read : Option (Except ε (Value f))} {v : Value f}
    (h : read = some (.ok v)) : Gives ⟨f, read⟩ f v := by
  subst h
  exact .intro f v

theorem gives_iff {f : Field} {read : Option (Except ε (Value f))} {v : Value f} :
    Gives ⟨f, read⟩ f v ↔ read = some (.ok v) := by
  refine ⟨fun h => ?_, gives_mk⟩
  cases h
  rfl

end Setting

variable [DecidableEq Field]

def Setting.apply (record : ∀ f, Value f) (s : Setting Value ε) : Except ε (∀ f, Value f) :=
  match s.read with
  | none => .ok record
  | some (.error e) => .error e
  | some (.ok v) => .ok (Function.update record s.field v)

/-- **The layer over the record**, in the order of its rules. -/
def overlay (settings : List (Setting Value ε)) (record : ∀ f, Value f) :
    Except ε (∀ f, Value f) :=
  settings.foldlM Setting.apply record

/-- What the layer leaves at `f`: what one of its rules reads, or the field as it was. -/
def OverlaidAt (settings : List (Setting Value ε)) (base record : ∀ f, Value f) (f : Field) :
    Prop :=
  (∃ s ∈ settings, s.Gives f (record f)) ∨
    ((∀ s ∈ settings, s.field = f → s.read = none) ∧ record f = base f)

section

variable {settings later : List (Setting Value ε)} {base record final : ∀ f, Value f} {f : Field}

omit [DecidableEq Field] in
theorem OverlaidAt.refl : OverlaidAt ([] : List (Setting Value ε)) base base f :=
  .inr ⟨fun _ hs => absurd hs List.not_mem_nil, rfl⟩

omit [DecidableEq Field] in
theorem OverlaidAt.trans (h : OverlaidAt settings base record f)
    (h' : OverlaidAt later record final f) : OverlaidAt (settings ++ later) base final f := by
  rcases h' with ⟨s, hs, hgives⟩ | ⟨hunset, heq⟩
  · exact .inl ⟨s, List.mem_append_right _ hs, hgives⟩
  · rcases h with ⟨s, hs, hgives⟩ | ⟨hunset', heq'⟩
    · refine .inl ⟨s, List.mem_append_left _ hs, ?_⟩
      rw [heq]
      exact hgives
    · refine .inr ⟨fun s hs => ?_, heq.trans heq'⟩
      rcases List.mem_append.mp hs with hs | hs
      · exact hunset' s hs
      · exact hunset s hs

omit [DecidableEq Field] in
/-- A field no rule of which is set stays as it was. -/
theorem OverlaidAt.unchanged (h : OverlaidAt settings base record f)
    (hunset : ∀ s ∈ settings, s.field = f → s.read = none) : record f = base f := by
  rcases h with ⟨s, hs, hgives⟩ | ⟨-, heq⟩
  · exact absurd (hunset s hs hgives.field) hgives.isSet
  · exact heq

omit [DecidableEq Field] in
/-- A field some rule of which is set has the value of one of its rules. -/
theorem OverlaidAt.given (h : OverlaidAt settings base record f)
    (hset : ∃ s ∈ settings, s.field = f ∧ s.read ≠ none) : ∃ s ∈ settings, s.Gives f (record f) := by
  rcases h with hgives | ⟨hunset, -⟩
  · exact hgives
  · obtain ⟨s, hs, hf, hread⟩ := hset
    exact absurd (hunset s hs hf) hread

theorem Setting.apply_at {s : Setting Value ε} (h : s.apply base = .ok record) (f : Field) :
    OverlaidAt [s] base record f := by
  obtain ⟨g, read⟩ := s
  simp only [Setting.apply] at h
  match read, h with
  | none, h =>
    obtain rfl := Except.ok.inj h
    exact .inr ⟨by simp, rfl⟩
  | some (.ok v), h =>
    obtain rfl := Except.ok.inj h
    by_cases hf : f = g
    · subst hf
      refine .inl ⟨_, List.mem_singleton_self _, ?_⟩
      rw [Function.update_self]
      exact .intro f v
    · refine .inr ⟨fun s hs hs' => ?_, Function.update_of_ne hf _ _⟩
      rw [List.mem_singleton] at hs
      subst hs
      exact absurd hs'.symm hf

/-- **What a layer makes of each field.** -/
theorem overlay_at (h : overlay settings base = .ok record) (f : Field) :
    OverlaidAt settings base record f := by
  induction settings generalizing base with
  | nil =>
    obtain rfl := Except.ok.inj h
    exact .refl
  | cons s settings ih =>
    rw [overlay, List.foldlM_cons] at h
    cases hs : s.apply base with
    | error e => rw [hs] at h; cases h
    | ok mid =>
      rw [hs] at h
      exact (Setting.apply_at hs f).trans (ih h)

/-- A layer no rule of which is set leaves the record. -/
theorem overlay_unset (hunset : ∀ s ∈ settings, s.read = none) :
    overlay settings base = .ok base := by
  induction settings with
  | nil => rfl
  | cons s settings ih =>
    have hs : s.apply base = .ok base := by
      rw [Setting.apply, hunset s List.mem_cons_self]
    rw [overlay, List.foldlM_cons, hs]
    exact ih fun t ht => hunset t (List.mem_cons_of_mem _ ht)

end

end Lib
