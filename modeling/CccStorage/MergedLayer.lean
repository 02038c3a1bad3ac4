/-
  File:      CccStorage/MergedLayer.lean
  Subject:   What merging a pack's layer leaves: the two loops against the merge of layers.

  * `lost`, `kept` -- the entries of a layer that its own marks remove again, and the others;
  * `OpaqueFits` -- no opaque marker meets a regular file of the older layers;
  * `foldl_entered` -- what the second loop leaves at each path;
  * `opaqueLoop_region`, `entryLoop_region` -- the two loops;
  * `mergeExtractedLayer_region` -- merging raises exactly when a marker meets a file, and leaves
    the older layers merged with the kept entries;
  * `materialize_region` -- so for the whole list of packs.
-/
import CccStorage.MergeRounds

namespace CccStorage

/-! ## 1. Kept entries -/

/-- The whiteout mark beside an entry that names it. -/
def ownMark (p : Path) : Path := p.dropLast ++ [whName (p.getLastD "")]

/-- **The layer's own mark removes the entry again**: the mark sorts after it, and nothing is below
    the entry to make it once more. -/
def lost (t : Tree) (p : Path) : Bool :=
  (t.get p).isSome && p ≠ [] && !isMark (p.getLastD "") && (t.get (ownMark p)).isSome &&
    asPosix p < asPosix (ownMark p) && (t.below p).isEmpty

/-- The layer without its lost entries. -/
def kept (t : Tree) : Layer := fun p => if lost t p then none else t.get p

section Kept

variable {t : PackTree} {d p : Path} {n : String}

theorem ownMark_concat : ownMark (d ++ [n]) = d ++ [whName n] := by
  unfold ownMark
  rw [List.dropLast_concat, List.getLastD_concat]

theorem lost_iff : lost t.toTree p = true ↔
    t.get p ≠ none ∧ p ≠ [] ∧ isMark (p.getLastD "") = false ∧ t.get (ownMark p) ≠ none ∧
      asPosix p < asPosix (ownMark p) ∧ ∀ x, x ≠ [] → t.get (p ++ x) = none := by
  have hbelow : (t.below p).isEmpty = true ↔ ∀ x, x ≠ [] → t.get (p ++ x) = none := by
    rw [List.isEmpty_iff, List.eq_nil_iff_forall_not_mem]
    refine forall_congr' fun x => ?_
    rw [Tree.mem_below, not_and, ne_eq, not_not]
  unfold lost
  simp only [Bool.and_eq_true, decide_eq_true_eq, Bool.not_eq_true', Option.isSome_iff_ne_none,
    hbelow, and_assoc]

theorem not_lost_nil : lost t.toTree [] = false := by
  rw [← Bool.not_eq_true, lost_iff]
  exact fun h => h.2.1 rfl

theorem kept_of_mark (h : isMark n = true) : kept t.toTree (d ++ [n]) = t.get (d ++ [n]) := by
  unfold kept
  rw [if_neg]
  rw [lost_iff, List.getLastD_concat, h]
  exact fun hl => absurd hl.2.2.1 (by decide)

theorem hidesAt_kept : overlayRules.hidesAt (kept t.toTree) d n = overlayRules.hidesAt t.get d n := by
  have hopq : kept t.toTree (d ++ [overlayRules.opq]) = t.get (d ++ [overlayRules.opq]) :=
    kept_of_mark isMark_opqName
  have hwh : kept t.toTree (d ++ [overlayRules.wh n]) = t.get (d ++ [overlayRules.wh n]) :=
    kept_of_mark (isMark_whName n)
  unfold Lib.Rules.hidesAt
  rw [hopq, hwh]
  by_cases hl : lost t.toTree (d ++ [n]) = true
  · -- the own mark of a lost entry hides its path as well
    obtain ⟨-, -, -, hmark, -⟩ := lost_iff.mp hl
    rw [ownMark_concat] at hmark
    obtain ⟨e, he⟩ := Option.ne_none_iff_exists'.mp hmark
    have hleaf : (t.get (d ++ [overlayRules.wh n])).any overlayRules.leaf = true := by
      show (t.get (d ++ [whName n])).any _ = true
      rw [he, Option.any_some]
      refine decide_eq_true fun hdir => ?_
      have hmark := (PackTree.plain_of_dir (hdir ▸ he)).2.2.2
      rw [isMark_whName] at hmark
      cases hmark
    rw [hleaf, Bool.or_true, Bool.true_or, Bool.true_or]
  · unfold kept
    rw [if_neg hl]

/-- The kept entries hide what the layer hides. -/
theorem hides_kept : overlayRules.hides (kept t.toTree) p = overlayRules.hides t.get p := by
  rw [Bool.eq_iff_iff, Lib.Rules.hides_iff, Lib.Rules.hides_iff]
  refine exists_congr fun d => exists_congr fun n => exists_congr fun r => ?_
  rw [hidesAt_kept]

end Kept

/-! ## 2. The orders of the loops -/

theorem asPosix_length (d : Path) (n : String) :
    (asPosix (d ++ [n])).length = (asPosix (d ++ [""])).length + n.length := by
  induction d with
  | nil => simp [asPosix]
  | cons c d ih =>
      have hne : ∀ m : String, d ++ [m] ≠ [] := by simp
      have hstep : ∀ m : String, asPosix (c :: (d ++ [m])) = c ++ "/" ++ asPosix (d ++ [m]) := by
        intro m
        cases hd : d ++ [m] with
        | nil => exact absurd hd (hne m)
        | cons a l => rfl
      rw [List.cons_append, List.cons_append, hstep, hstep]
      simp only [String.length_append]
      omega

/-- An entry and its own mark have different texts. -/
theorem asPosix_ownMark {p : Path} (hp : p ≠ []) : asPosix p ≠ asPosix (ownMark p) := by
  obtain ⟨d, n, rfl⟩ := List.eq_nil_or_concat p |>.resolve_left hp
  rw [List.concat_eq_append, ownMark_concat]
  intro heq
  have hlen := congrArg String.length heq
  have hname : (whName n).length = 4 + n.length := by
    unfold whName
    rw [String.length_append]
    rfl
  rw [asPosix_length, asPosix_length d (whName n), hname] at hlen
  omega

instance : Std.Total pathLe := ⟨fun p q => by
  unfold pathLe
  rw [not_lt, not_lt]
  exact le_total p q⟩

instance : IsTrans Path pathLe := ⟨fun p q r => by
  unfold pathLe
  rw [not_lt, not_lt, not_lt]
  exact le_trans⟩

theorem pathLe_antisymm {p q : Path} (h : pathLe p q) (h' : pathLe q p) : p = q := by
  unfold pathLe at h h'
  rw [not_lt] at h h'
  exact le_antisymm h h'

instance : Std.Total entryLe := ⟨fun p q => by
  unfold entryLe
  rw [not_lt, not_lt]
  rcases Nat.lt_trichotomy p.length q.length with h | h | h
  · exact .inl (.inl h)
  · exact (le_total (asPosix p) (asPosix q)).imp (fun hle => .inr ⟨h, hle⟩)
      fun hle => .inr ⟨h.symm, hle⟩
  · exact .inr (.inl h)⟩

instance : IsTrans Path entryLe := ⟨fun p q r => by
  unfold entryLe
  rw [not_lt, not_lt, not_lt]
  rintro (h | ⟨h, hle⟩) (h' | ⟨h', hle'⟩)
  · exact .inl (h.trans h')
  · exact .inl (h' ▸ h)
  · exact .inl (h ▸ h')
  · exact .inr ⟨h.trans h', hle.trans hle'⟩⟩

theorem entryLe.length_le {p q : Path} (h : entryLe p q) : p.length ≤ q.length :=
  h.elim Nat.le_of_lt fun h => h.1.le

section Splits

variable {α : Type*} {R : α → α → Prop} {P : α → Prop} {l l₁ l₂ : List α} {a b : α}

/-- In a sorted list what is before an element is in order with it. -/
theorem before_of_sorted (h : (l₁ ++ a :: l₂).Pairwise R) (hb : b ∈ l₁) : R b a :=
  (List.pairwise_append.mp h).2.2 b hb a List.mem_cons_self

theorem after_of_sorted (h : (l₁ ++ a :: l₂).Pairwise R) (hb : b ∈ l₂) : R a b :=
  (List.pairwise_cons.mp (List.pairwise_append.mp h).2.1).1 b hb

/-- The last element of a list with a property. -/
theorem exists_last (h : ∃ a ∈ l, P a) :
    ∃ l₁ a l₂, l = l₁ ++ a :: l₂ ∧ P a ∧ ∀ x ∈ l₂, ¬ P x := by
  classical
  induction l using List.reverseRecOn with
  | nil =>
      obtain ⟨a, ha, -⟩ := h
      exact absurd ha List.not_mem_nil
  | append_singleton l b ih =>
      by_cases hb : P b
      · exact ⟨l, b, [], rfl, hb, fun x hx => absurd hx List.not_mem_nil⟩
      · obtain ⟨a, ha, hPa⟩ := h
        have hal : a ∈ l := by
          rcases List.mem_append.mp ha with hal | hab
          · exact hal
          · rw [List.mem_singleton.mp hab] at hPa
            exact absurd hPa hb
        obtain ⟨l₁, c, l₂, hl, hc, hlast⟩ := ih ⟨a, hal, hPa⟩
        refine ⟨l₁, c, l₂ ++ [b], by rw [hl, List.append_assoc, List.cons_append], hc,
          fun x hx => ?_⟩
        rcases List.mem_append.mp hx with hx | hx
        · exact hlast x hx
        · rwa [List.mem_singleton.mp hx]

end Splits

/-! ## 3. The second loop -/

/-- Entering `r` removes what is at `p`. -/
def Clears (t : Tree) (r p : Path) : Prop :=
  t.get r ≠ some .dir ∧ (r <+: p ∨ isWhiteout (r.getLastD "") = true ∧ whPath r <+: p)

instance (t : Tree) (r p : Path) : Decidable (Clears t r p) :=
  inferInstanceAs (Decidable (_ ∧ (_ ∨ _ ∧ _)))

section Entries

variable {t : PackTree} {X : Layer} {l l₁ l₂ : List Path} {r p : Path}

/-- What a round does at each path: entries on the way are the layer's own. -/
theorem entered_apply (hr : t.get r ≠ none) :
    Layer.entered t.get X r p =
      if p <+: r then t.get p else if Clears t.toTree r p then none else X p := by
  have hway : ∀ q, q <+: r → q ≠ r → t.get q = some .dir := fun q hq hne =>
    t.dirClosed.above hr hq hne
  have hcopied : ∀ (Y : Layer) e, t.get r = some e → r ≠ [] → Y.copied r e p =
      if p <+: r then t.get p else if r <+: p then none else Y p := by
    intro Y e he hne
    obtain ⟨d, n, rfl⟩ := List.eq_nil_or_concat r |>.resolve_left hne
    rw [List.concat_eq_append] at he hway ⊢
    unfold Layer.copied Layer.put Layer.made Layer.cut
    rw [List.dropLast_concat]
    by_cases hp : p = d ++ [n]
    · rw [if_pos hp, hp, if_pos List.prefix_rfl, he]
    · rw [if_neg hp]
      by_cases hpd : p <+: d
      · have hpr := hpd.trans (List.prefix_append d [n])
        rw [if_pos hpd, if_pos hpr, hway p hpr hp]
      · have hpr : ¬ p <+: d ++ [n] := fun h =>
          (List.prefix_concat_iff.mp h).elim hp hpd
        rw [if_neg hpd, if_neg hpr]
  obtain ⟨e, he⟩ := Option.ne_none_iff_exists'.mp hr
  by_cases hdir : e = .dir
  · subst hdir
    have hentered : Layer.entered t.get X r = X.made r := by
      unfold Layer.entered
      rw [he]
    have hkeep : ¬ Clears t.toTree r p := fun h => h.1 he
    rw [hentered, if_neg hkeep]
    unfold Layer.made
    by_cases hp : p <+: r
    · rw [if_pos hp, if_pos hp]
      by_cases hpr : p = r
      · rw [hpr, he]
      · rw [hway p hp hpr]
    · rw [if_neg hp, if_neg hp]
  · have hne : r ≠ [] := by
      rintro rfl
      exact hdir (Option.some.inj he).symm
    have hentered : Layer.entered t.get X r = if isWhiteout (r.getLastD "") then
        (X.cut (whPath r)).copied r e else X.copied r e := by
      unfold Layer.entered
      rw [he]
      cases e with
      | dir => exact absurd rfl hdir
      | _ => rfl
    have hclears : Clears t.toTree r p ↔
        r <+: p ∨ isWhiteout (r.getLastD "") = true ∧ whPath r <+: p := by
      refine ⟨fun h => h.2, fun h => ⟨?_, h⟩⟩
      rw [he]
      exact fun h => hdir (Option.some.inj h)
    rw [hentered]
    by_cases hwh : isWhiteout (r.getLastD "") = true
    · rw [if_pos hwh, hcopied _ e he hne]
      unfold Layer.cut
      by_cases hp : p <+: r
      · rw [if_pos hp, if_pos hp]
      · rw [if_neg hp, if_neg hp]
        by_cases hrp : r <+: p
        · rw [if_pos hrp, if_pos (hclears.mpr (.inl hrp))]
        · rw [if_neg hrp]
          refine if_congr ?_ rfl rfl
          rw [hclears]
          exact ⟨fun h => .inr ⟨hwh, h⟩, fun h => (h.resolve_left hrp).2⟩
    · rw [if_neg hwh, hcopied _ e he hne]
      by_cases hp : p <+: r
      · rw [if_pos hp, if_pos hp]
      · rw [if_neg hp, if_neg hp]
        refine if_congr ?_ rfl rfl
        rw [hclears]
        exact ⟨fun h => .inl h, fun h => h.resolve_right fun h' => hwh h'.1⟩

/-- A round does nothing at `p` unless `p` is on its way or cleared. -/
def Affects (t : Tree) (r p : Path) : Prop := p <+: r ∨ Clears t r p

theorem foldl_entered_of_not (hl : ∀ r ∈ l, t.get r ≠ none)
    (h : ∀ r ∈ l, ¬ Affects t.toTree r p) : l.foldl (Layer.entered t.get) X p = X p := by
  induction l generalizing X with
  | nil => rfl
  | cons r l ih =>
      rw [List.foldl_cons, ih (fun q hq => hl q (List.mem_cons_of_mem r hq))
        (fun q hq => h q (List.mem_cons_of_mem r hq)), entered_apply (hl r List.mem_cons_self)]
      have hr := h r List.mem_cons_self
      rw [if_neg fun hp => hr (.inl hp), if_neg fun hc => hr (.inr hc)]

/-- **The last round that does something at `p`** says what is there. -/
theorem foldl_entered_last (hl : ∀ q ∈ l₁ ++ r :: l₂, t.get q ≠ none)
    (hr : Affects t.toTree r p) (hlast : ∀ q ∈ l₂, ¬ Affects t.toTree q p) :
    (l₁ ++ r :: l₂).foldl (Layer.entered t.get) X p = if p <+: r then t.get p else none := by
  rw [List.foldl_append, List.foldl_cons, foldl_entered_of_not (fun q hq => hl q (by simp [hq]))
    hlast, entered_apply (hl r (by simp))]
  by_cases hp : p <+: r
  · rw [if_pos hp, if_pos hp]
  · rw [if_neg hp, if_neg hp, if_pos (hr.resolve_left hp)]

/-! ### Own marks -/

theorem whPath_ownMark (hp : p ≠ []) : whPath (ownMark p) = p := by
  obtain ⟨d, n, rfl⟩ := List.eq_nil_or_concat p |>.resolve_left hp
  rw [List.concat_eq_append, ownMark_concat]
  unfold whPath
  rw [List.dropLast_concat, List.getLastD_concat, whTarget_whName]

theorem ownMark_whPath (hr : r ≠ []) (hwh : isWhiteout (r.getLastD "") = true) :
    ownMark (whPath r) = r := by
  obtain ⟨d, n, rfl⟩ := List.eq_nil_or_concat r |>.resolve_left hr
  rw [List.concat_eq_append, List.getLastD_concat] at hwh
  unfold isWhiteout at hwh
  rw [Bool.and_eq_true] at hwh
  unfold whPath
  rw [List.concat_eq_append, List.dropLast_concat, List.getLastD_concat, ownMark_concat,
    whName_whTarget hwh.1]

theorem isWhiteout_ownMark (hp : isMark (p.getLastD "") = false) :
    isWhiteout ((ownMark p).getLastD "") = true := by
  unfold ownMark isWhiteout
  rw [List.getLastD_concat, isMark_whName, Bool.true_and, decide_eq_true_eq]
  intro hopq
  have hname : whName (p.getLastD "") = whName ".wh..opq" := hopq
  rw [whName_inj hname] at hp
  exact absurd hp (by decide)

/-- A whiteout mark of a pack names a path without a mark. -/
theorem whPath_plain (hget : t.get r ≠ none) (hr : r ≠ [])
    (hwh : isWhiteout (r.getLastD "") = true) :
    whPath r ≠ [] ∧ (whPath r).length = r.length ∧ isMark ((whPath r).getLastD "") = false := by
  obtain ⟨d, n, rfl⟩ := List.eq_nil_or_concat r |>.resolve_left hr
  rw [List.concat_eq_append] at hget hwh ⊢
  rw [List.getLastD_concat] at hwh
  obtain ⟨e, he⟩ := Option.ne_none_iff_exists'.mp hget
  unfold isWhiteout at hwh
  rw [Bool.and_eq_true, decide_eq_true_eq] at hwh
  have htarget : IsPlain (whTarget n) := by
    rcases PackTree.name he with hplain | ⟨-, -, hopq | htarget⟩
    · rw [hplain.2.2.2] at hwh
      exact absurd hwh.1 Bool.false_ne_true
    · exact absurd hopq hwh.2
    · exact htarget
  unfold whPath
  rw [List.dropLast_concat, List.getLastD_concat, List.getLastD_concat]
  exact ⟨by simp, by simp, htarget.2.2.2⟩

/-! ### The whole loop -/

variable (hmem : ∀ r, r ∈ l ↔ r ≠ [] ∧ t.get r ≠ none) (hsort : l.Pairwise entryLe)

include hmem in
theorem foldl_entered_of_affected (h : ∃ r ∈ l, Affects t.toTree r p) :
    ∃ l₁ r l₂, l = l₁ ++ r :: l₂ ∧ Affects t.toTree r p ∧ (∀ q ∈ l₂, ¬ Affects t.toTree q p) ∧
      l.foldl (Layer.entered t.get) X p = if p <+: r then t.get p else none := by
  obtain ⟨l₁, r, l₂, rfl, hr, hlast⟩ := exists_last h
  exact ⟨l₁, r, l₂, rfl, hr, hlast,
    foldl_entered_last (fun q hq => ((hmem q).mp hq).2) hr hlast⟩

include hmem hsort

/-- **Kept entries** are there after the loop. -/
theorem foldl_entered_kept (hp : p ≠ []) (hget : t.get p ≠ none)
    (hkept : lost t.toTree p = false) : l.foldl (Layer.entered t.get) X p = t.get p := by
  have hpl : p ∈ l := (hmem p).mpr ⟨hp, hget⟩
  obtain ⟨l₁, r, l₂, rfl, hr, hlast, hfold⟩ :=
    foldl_entered_of_affected (X := X) hmem ⟨p, hpl, .inl List.prefix_rfl⟩
  rw [hfold]
  by_cases hpr : p <+: r
  · rw [if_pos hpr]
  · -- the last round clears `p`: it is the own mark's, after everything at and below `p`
    exfalso
    obtain ⟨hrne, hrget⟩ := (hmem r).mp (by simp)
    obtain ⟨hrdir, hclear⟩ := hr.resolve_left hpr
    have hbefore : ∀ x, t.get (p ++ x) ≠ none → entryLe (p ++ x) r := by
      intro x hx
      have hxl := (hmem (p ++ x)).mpr ⟨by simp [hp], hx⟩
      rcases List.mem_append.mp hxl with hx₁ | hx₂
      · exact before_of_sorted hsort hx₁
      · rcases List.mem_cons.mp hx₂ with heq | hx₂
        · exact absurd (heq ▸ List.prefix_append p x) hpr
        · exact absurd (.inl (List.prefix_append p x)) (hlast _ hx₂)
    have hple : entryLe p r := by
      have hle := hbefore [] (by rwa [List.append_nil])
      rwa [List.append_nil] at hle
    have hnotBelow : ¬ r <+: p := by
      intro hrp
      have hne : r ≠ p := fun h => hpr (h ▸ List.prefix_rfl)
      exact hrdir (t.dirClosed.above hget hrp hne)
    obtain ⟨hwh, hwp⟩ := hclear.resolve_left hnotBelow
    obtain ⟨hwne, hwlen, hwplain⟩ := whPath_plain hrget hrne hwh
    have hwhp : whPath r = p := by
      have hlen := hple.length_le
      exact hwp.eq_of_length_le (by omega)
    have hmark : ownMark p = r := by rw [← hwhp, ownMark_whPath hrne hwh]
    have hlost : lost t.toTree p = true := by
      refine lost_iff.mpr ⟨hget, hp, hwhp ▸ hwplain, hmark ▸ hrget, ?_, fun x hx => ?_⟩
      · rcases hple with hlt | ⟨-, hle⟩
        · rw [← hwhp, hwlen] at hlt
          omega
        · rw [← hmark, not_lt] at hle
          exact lt_of_le_of_ne hle (asPosix_ownMark hp)
      · by_contra hxget
        have hlen := (hbefore x hxget).length_le
        have hxlen := List.length_pos_iff.mpr hx
        rw [List.length_append, ← hwlen, hwhp] at hlen
        omega
    rw [hlost] at hkept
    cases hkept

/-- **Lost entries** are not. -/
theorem foldl_entered_lost (hlost : lost t.toTree p = true) :
    l.foldl (Layer.entered t.get) X p = none := by
  obtain ⟨hget, hp, hplain, hmark, hlt, hbelow⟩ := lost_iff.mp hlost
  have hpl : p ∈ l := (hmem p).mpr ⟨hp, hget⟩
  obtain ⟨l₁, r, l₂, rfl, hr, hlast, hfold⟩ :=
    foldl_entered_of_affected (X := X) hmem ⟨p, hpl, .inl List.prefix_rfl⟩
  rw [hfold, if_neg]
  rintro ⟨x, rfl⟩
  have hx : x = [] := by
    by_contra hx
    exact ((hmem (p ++ x)).mp (by simp)).2 (hbelow x hx)
  subst hx
  rw [List.append_nil] at hsort hmem
  have hmne : ownMark p ≠ [] := by
    unfold ownMark
    simp
  have hclears : Clears t.toTree (ownMark p) p := by
    refine ⟨fun hdir => ?_, .inr ⟨isWhiteout_ownMark hplain, ?_⟩⟩
    · obtain ⟨d, n, rfl⟩ := List.eq_nil_or_concat p |>.resolve_left hp
      rw [List.concat_eq_append, ownMark_concat] at hdir
      have hm := (PackTree.plain_of_dir hdir).2.2.2
      rw [isMark_whName] at hm
      cases hm
    · rw [whPath_ownMark hp]
  have hml := (hmem (ownMark p)).mpr ⟨hmne, hmark⟩
  rcases List.mem_append.mp hml with hm₁ | hm₂
  · rcases before_of_sorted hsort hm₁ with hlen | ⟨-, hle⟩
    · have hlen' : (ownMark p).length = p.length := by
        have hpos := List.length_pos_iff.mpr hp
        unfold ownMark
        rw [List.length_append, List.length_dropLast, List.length_singleton]
        omega
      omega
    · exact hle hlt
  · rcases List.mem_cons.mp hm₂ with heq | hm₂
    · exact asPosix_ownMark hp (by rw [heq])
    · exact hlast _ hm₂ (.inr hclears)

omit hsort in
/-- **Elsewhere** the loop only clears. -/
theorem foldl_entered_none (hget : t.get p = none) :
    l.foldl (Layer.entered t.get) X p =
      if ∃ r ∈ l, Clears t.toTree r p then none else X p := by
  by_cases h : ∃ r ∈ l, Affects t.toTree r p
  · obtain ⟨l₁, r, l₂, hl, hr, -, hfold⟩ := foldl_entered_of_affected (X := X) hmem h
    have hrl : r ∈ l := hl ▸ by simp
    have hpr : ¬ p <+: r := by
      intro hpr
      by_cases hpr' : p = r
      · exact ((hmem r).mp hrl).2 (hpr' ▸ hget)
      · rw [t.dirClosed.above ((hmem r).mp hrl).2 hpr hpr'] at hget
        cases hget
    rw [hfold, if_neg hpr, if_pos ⟨r, hrl, hr.resolve_left hpr⟩]
  · rw [if_neg fun ⟨r, hr, hc⟩ => h ⟨r, hr, .inr hc⟩]
    exact foldl_entered_of_not (fun q hq => ((hmem q).mp hq).2) fun r hr ha => h ⟨r, hr, ha⟩

end Entries

/-- `p` is strictly below the directory of an opaque marker. -/
def Opaqued (l : List Path) (p : Path) : Prop := ∃ m ∈ l, m.dropLast <+: p ∧ p ≠ m.dropLast

instance (l : List Path) (p : Path) : Decidable (Opaqued l p) :=
  inferInstanceAs (Decidable (∃ m ∈ l, _ ∧ _))

section Loops

variable {t : PackTree} {S X : Layer} {l marks : List Path} {p : Path}

/-- The paths of the opaque markers of a pack. -/
def IsMarkers (t : PackTree) (marks : List Path) : Prop :=
  ∀ m, m ∈ marks ↔ t.get m ≠ none ∧ m.getLast? = some opqName

theorem IsMarkers.split (h : IsMarkers t marks) {m : Path} (hm : m ∈ marks) :
    ∃ d, m = d ++ [opqName] ∧ t.get (d ++ [opqName]) ≠ none := by
  obtain ⟨hget, hlast⟩ := (h m).mp hm
  obtain ⟨d, rfl⟩ := List.getLast?_eq_some_iff.mp hlast
  exact ⟨d, rfl, hget⟩

/-- A mark is no directory. -/
theorem leaf_of_mark {d : Path} {n : String} (hn : isMark n = true)
    (hget : t.get (d ++ [n]) ≠ none) : ∃ e, t.get (d ++ [n]) = some e ∧ overlayRules.leaf e = true := by
  obtain ⟨e, he⟩ := Option.ne_none_iff_exists'.mp hget
  refine ⟨e, he, decide_eq_true fun hdir => ?_⟩
  have hplain := (PackTree.plain_of_dir (hdir ▸ he)).2.2.2
  rw [hn] at hplain
  cases hplain

/-- **What a pack hides** is what the two loops clear. -/
theorem hides_iff_cleared (hmem : ∀ r, r ∈ l ↔ r ≠ [] ∧ t.get r ≠ none)
    (hmarks : IsMarkers t marks) :
    overlayRules.hides t.get p = true ↔ Opaqued marks p ∨ ∃ r ∈ l, Clears t.toTree r p := by
  have hleafOf : ∀ q, (t.get q).any overlayRules.leaf = true → t.get q ≠ none ∧ t.get q ≠ some .dir := by
    intro q hq
    obtain ⟨e, he, hleaf⟩ := (Option.any_eq_true ..).mp hq
    rw [he]
    refine ⟨Option.some_ne_none _, fun h => ?_⟩
    rw [Option.some.inj h] at hleaf
    exact absurd hleaf (by decide)
  constructor
  · intro h
    obtain ⟨d, n, r, rfl, hat⟩ := Lib.Rules.hides_iff.mp h
    have hbelow : d ++ [n] <+: d ++ n :: r := ⟨r, by simp⟩
    have hopq : ∀ m, m = opqName → t.get (d ++ [m]) ≠ none → Opaqued marks (d ++ n :: r) := by
      rintro m rfl hget
      refine ⟨d ++ [opqName], (hmarks _).mpr ⟨hget, List.getLast?_concat⟩, ?_⟩
      rw [List.dropLast_concat]
      exact ⟨List.prefix_append _ _, by simp⟩
    unfold Lib.Rules.hidesAt at hat
    rw [Bool.or_eq_true, Bool.or_eq_true] at hat
    rcases hat with (hat | hat) | hat
    · exact .inl (hopq opqName rfl (hleafOf _ hat).1)
    · have hwh : (t.get (d ++ [whName n])).any overlayRules.leaf = true := hat
      obtain ⟨hget, hdir⟩ := hleafOf _ hwh
      by_cases hname : whName n = opqName
      · exact .inl (hopq _ hname hget)
      · refine .inr ⟨d ++ [whName n], (hmem _).mpr ⟨by simp, hget⟩, hdir, .inr ?_⟩
        unfold isWhiteout whPath
        rw [List.getLastD_concat, isMark_whName, Bool.true_and, decide_eq_true_eq,
          List.dropLast_concat, whTarget_whName]
        exact ⟨hname, hbelow⟩
    · obtain ⟨hget, hdir⟩ := hleafOf _ hat
      exact .inr ⟨d ++ [n], (hmem _).mpr ⟨by simp, hget⟩, hdir, .inl hbelow⟩
  · rintro (⟨m, hm, hmp, hne⟩ | ⟨r, hr, hdir, hclear⟩)
    · obtain ⟨d, rfl, hget⟩ := hmarks.split hm
      rw [List.dropLast_concat] at hmp hne
      obtain ⟨e, he, hleaf⟩ := leaf_of_mark isMark_opqName hget
      obtain ⟨s, rfl⟩ := hmp
      cases s with
      | nil => exact absurd (List.append_nil d) hne
      | cons n s => exact Lib.Rules.hides_of_opq (n := n) he hleaf ⟨s, by simp⟩
    · obtain ⟨hrne, hrget⟩ := (hmem r).mp hr
      obtain ⟨e, he⟩ := Option.ne_none_iff_exists'.mp hrget
      have hleaf : overlayRules.leaf e = true := by
        refine decide_eq_true fun hd => hdir ?_
        rw [he, hd]
      rcases hclear with hrp | ⟨hwh, hwp⟩
      · exact Lib.Rules.hides_of_leaf hrne he hleaf hrp
      · have hmark := ownMark_whPath hrne hwh
        obtain ⟨d, n, hr'⟩ := List.eq_nil_or_concat r |>.resolve_left hrne
        rw [List.concat_eq_append] at hr'
        subst hr'
        unfold whPath at hwp hmark
        rw [List.dropLast_concat, List.getLastD_concat] at hwp hmark
        rw [ownMark_concat] at hmark
        refine Lib.Rules.hides_of_wh (n := whTarget n) (e := e) ?_ hleaf hwp
        show t.get (d ++ [whName (whTarget n)]) = some e
        rw [hmark, he]

/-! ## 4. The first loop -/

/-- **The markers fit the older layers** `S`: where a regular file is on the way to a directory
    with a marker, a marker above that file comes first. -/
def OpaqueFits (S : Layer) (t : PackTree) : Prop :=
  ∀ d q b, t.get (d ++ [opqName]) ≠ none → q <+: d → S q = some (.file b) →
    ∃ d', t.get (d' ++ [opqName]) ≠ none ∧ d' <+: q ∧ d' ≠ q ∧
      pathLe (d' ++ [opqName]) (d ++ [opqName])

/-- What the first loop has left of the older layers after some of the markers. -/
structure AfterMarkers (S : Layer) (t : PackTree) (done : List Path) (X : Layer) : Prop where
  files : ∀ q b, X q = some (.file b) ↔ S q = some (.file b) ∧ ¬ Opaqued done q
  others : ∀ p, t.get p = none → X p = if Opaqued done p then none else S p

theorem AfterMarkers.start (S : Layer) (t : PackTree) : AfterMarkers S t [] S := by
  have hnone : ∀ p, ¬ Opaqued [] p := fun p ⟨m, hm, _⟩ => absurd hm List.not_mem_nil
  refine ⟨fun q b => ⟨fun h => ⟨h, hnone q⟩, fun h => h.1⟩, fun p _ => ?_⟩
  rw [if_neg (hnone p)]

theorem opaqued_concat {done : List Path} {m : Path} :
    Opaqued (done ++ [m]) p ↔ Opaqued done p ∨ m.dropLast <+: p ∧ p ≠ m.dropLast := by
  unfold Opaqued
  constructor
  · rintro ⟨x, hx, hp⟩
    rcases List.mem_append.mp hx with hx | hx
    · exact .inl ⟨x, hx, hp⟩
    · rw [List.mem_singleton.mp hx] at hp
      exact .inr hp
  · rintro (⟨x, hx, hp⟩ | hp)
    · exact ⟨x, List.mem_append_left _ hx, hp⟩
    · exact ⟨m, by simp, hp⟩

theorem AfterMarkers.freeWay_iff {done : List Path} (h : AfterMarkers S t done X) (d : Path) :
    X.FreeWay d ↔ ∀ q, q <+: d → ∀ b, S q = some (.file b) → Opaqued done q := by
  refine forall_congr' fun q => forall_congr' fun hq => forall_congr' fun b => ?_
  rw [ne_eq, h.files, not_and, not_not]

/-- **One marker more.** -/
theorem AfterMarkers.step {done : List Path} {m : Path} (h : AfterMarkers S t done X)
    (hm : t.get m.dropLast = some .dir) (hfree : X.FreeWay m.dropLast) :
    AfterMarkers S t (done ++ [m]) (X.opaqued m.dropLast) := by
  constructor
  · intro q b
    unfold Layer.opaqued
    rw [opaqued_concat]
    by_cases hq : m.dropLast <+: q ∧ q ≠ m.dropLast
    · rw [if_pos hq]
      exact ⟨nofun, fun hS => absurd (.inr hq) hS.2⟩
    · rw [if_neg hq, or_iff_left hq]
      by_cases hqm : q <+: m.dropLast
      · rw [if_pos hqm]
        exact ⟨nofun, fun hS => absurd ((h.files q b).mpr hS) (hfree q hqm b)⟩
      · rw [if_neg hqm, h.files]
  · intro p hp
    unfold Layer.opaqued
    have hpm : ¬ p <+: m.dropLast := by
      intro hpm
      by_cases heq : p = m.dropLast
      · rw [heq, hm] at hp
        cases hp
      · rw [t.dirClosed.above (by rw [hm]; nofun) hpm heq] at hp
        cases hp
    by_cases hq : m.dropLast <+: p ∧ p ≠ m.dropLast
    · rw [if_pos hq, if_pos (opaqued_concat.mpr (.inr hq))]
    · rw [if_neg hq, if_neg hpm, h.others p hp]
      refine if_congr ?_ rfl rfl
      rw [opaqued_concat, or_iff_left hq]

/-- In a sorted list of the markers, the condition of the rounds is that of the pack. -/
theorem opaqueFits_iff (hmarks : IsMarkers t marks) (hsort : marks.Pairwise pathLe) :
    (∀ done m rest, marks = done ++ m :: rest →
      ∀ q, q <+: m.dropLast → ∀ b, S q = some (.file b) → Opaqued done q) ↔ OpaqueFits S t := by
  constructor
  · intro h d q b hd hq hS
    have hml : d ++ [opqName] ∈ marks := (hmarks _).mpr ⟨hd, List.getLast?_concat⟩
    obtain ⟨done, rest, rfl⟩ := List.append_of_mem hml
    obtain ⟨m', hm', hm'q, hne⟩ := h done _ rest rfl q (by rwa [List.dropLast_concat]) b hS
    obtain ⟨d', rfl, hd'⟩ := hmarks.split (List.mem_append_left _ hm')
    rw [List.dropLast_concat] at hm'q hne
    exact ⟨d', hd', hm'q, hne.symm, before_of_sorted hsort hm'⟩
  · rintro h done m rest rfl q hq b hS
    obtain ⟨d, rfl, hd⟩ := hmarks.split (m := m) (by simp)
    rw [List.dropLast_concat] at hq
    obtain ⟨d', hd', hd'q, hne, hle⟩ := h d q b hd hq hS
    refine ⟨d' ++ [opqName], ?_, by rwa [List.dropLast_concat], by
      rw [List.dropLast_concat]; exact hne.symm⟩
    have hml := (hmarks (d' ++ [opqName])).mpr ⟨hd', List.getLast?_concat⟩
    have hdiff : d' ++ [opqName] ≠ d ++ [opqName] := by
      intro heq
      have hdd : d' = d := (List.append_inj' heq rfl).1
      subst hdd
      exact hne (hd'q.eq_of_length_le hq.length_le)
    rcases List.mem_append.mp hml with hm | hm
    · exact hm
    · rcases List.mem_cons.mp hm with heq | hm
      · exact absurd heq hdiff
      · exact absurd (pathLe_antisymm hle (after_of_sorted hsort hm)) hdiff

/-! ## 5. One layer -/

variable {M layer : Path} {base : Tree} {w : World}

theorem opaqueLoop_region (h : Region M base w S) (hmarks : IsMarkers t marks)
    (hsort : marks.Pairwise pathLe) :
    (Lib.forEach (opaqueRound M) marks w).Meets (OpaqueFits S t)
      fun w => ∃ X, Region M base w X ∧ AfterMarkers S t marks X := by
  have hrun := Lib.forEach_meets (f := opaqueRound M) (l := marks) (s := w)
    (J := fun done w => ∃ X, Region M base w X ∧ AfterMarkers S t done X)
    (Q := fun done m => ∀ q, q <+: m.dropLast → ∀ b, S q = some (.file b) → Opaqued done q)
    (fun done m rest v hl hv => ?_) ⟨S, h, AfterMarkers.start S t⟩
  · exact hrun.congr (opaqueFits_iff hmarks hsort) fun _ _ hX => hX
  · obtain ⟨X, hX, hafter⟩ := hv
    obtain ⟨d, rfl, hget⟩ := hmarks.split (m := m) (hl ▸ by simp)
    have hd := t.dirClosed _ _ hget
    have hnames := t.plain.names d (by rw [hd]; exact Option.some_ne_none _)
    have hround := opaqueRound_region hX (d ++ [opqName]) (by rwa [List.dropLast_concat])
    refine (hround.congr (hafter.freeWay_iff _) fun hfree v hv => ⟨_, hv, ?_⟩)
    exact hafter.step (by rwa [List.dropLast_concat]) hfree

theorem entryLoop_region (hs : Source layer M base t.get) (h : Region M base w X)
    (hmem : ∀ r, r ∈ l ↔ r ≠ [] ∧ t.get r ≠ none) (hsort : l.Pairwise entryLe) :
    (Lib.forEach (entryRound layer M) l w).Meets True
      fun w => Region M base w (l.foldl (Layer.entered t.get) X) := by
  have hrun := Lib.forEach_meets (f := entryRound layer M) (l := l) (s := w)
    (J := fun done w => Region M base w (done.foldl (Layer.entered t.get) X))
    (Q := fun _ _ => True) (fun done r rest v hl hv => ?_) h
  · exact hrun.congr ⟨fun _ => trivial, fun _ _ _ _ _ => trivial⟩ fun _ _ hX => hX
  · obtain ⟨hrne, hrget⟩ := (hmem r).mp (hl ▸ by simp)
    obtain ⟨d, n, hr⟩ := List.eq_nil_or_concat r |>.resolve_left hrne
    rw [List.concat_eq_append] at hr
    subst hr
    obtain ⟨e, he⟩ := Option.ne_none_iff_exists'.mp hrget
    have hdone : ∀ q ∈ done, t.get q ≠ none := fun q hq =>
      ((hmem q).mp (hl ▸ List.mem_append_left _ hq)).2
    -- the directories on the way have been entered, and no round makes a file of one
    have hfree : (done.foldl (Layer.entered t.get) X).FreeWay d := by
      intro q hq b hb
      have hqdir : t.get q = some .dir := by
        refine t.dirClosed.above hrget (hq.trans (List.prefix_append d [n])) ?_
        rintro rfl
        have hle := hq.length_le
        rw [List.length_append, List.length_singleton] at hle
        omega
      by_cases hqne : q = []
      · rw [hqne, hv.plain.root] at hb
        cases hb
      · have hql := (hmem q).mpr ⟨hqne, by rw [hqdir]; exact Option.some_ne_none _⟩
        have hqdone : q ∈ done := by
          rw [hl] at hql hsort
          have hlen := hq.length_le
          rcases List.mem_append.mp hql with hq₁ | hq₂
          · exact hq₁
          · rcases List.mem_cons.mp hq₂ with heq | hq₂
            · rw [heq, List.length_append, List.length_singleton] at hlen
              omega
            · have hle := (after_of_sorted hsort hq₂).length_le
              rw [List.length_append, List.length_singleton] at hle
              omega
        obtain ⟨l₁, r, l₂, rfl, hr, hlast⟩ :=
          exists_last (P := fun r => Affects t.toTree r q) ⟨q, hqdone, .inl List.prefix_rfl⟩
        rw [foldl_entered_last hdone hr hlast] at hb
        split at hb
        · rw [hqdir] at hb
          cases hb
        · cases hb
    have hround := entryRound_region hs hv he hfree
    rw [List.foldl_append, List.foldl_cons, List.foldl_nil]
    exact hround

/-- What the two loops leave is the merge of layers. -/
theorem loops_merge (hX : AfterMarkers S t marks X)
    (hmem : ∀ r, r ∈ l ↔ r ≠ [] ∧ t.get r ≠ none) (hsort : l.Pairwise entryLe)
    (hmarks : IsMarkers t marks) (hp : p ≠ []) :
    l.foldl (Layer.entered t.get) X p = overlayRules.merge S (kept t.toTree) p := by
  by_cases hlost : lost t.toTree p = true
  · have hnone : kept t.toTree p = none := if_pos hlost
    have hhides : overlayRules.hides t.get p = true := by
      obtain ⟨-, -, -, hmark, -⟩ := lost_iff.mp hlost
      obtain ⟨d, n, hpd⟩ := List.eq_nil_or_concat p |>.resolve_left hp
      rw [List.concat_eq_append] at hpd
      subst hpd
      rw [ownMark_concat] at hmark
      obtain ⟨e, he, hleaf⟩ := leaf_of_mark (isMark_whName n) hmark
      exact Lib.Rules.hides_of_wh (n := n) (e := e) he hleaf List.prefix_rfl
    rw [foldl_entered_lost hmem hsort hlost, Lib.Rules.merge_of_none hnone, hides_kept,
      if_pos hhides]
  · have hkept : kept t.toTree p = t.get p := if_neg hlost
    cases hget : t.get p with
    | some e =>
        rw [Lib.Rules.merge_of_some (hkept.trans hget), foldl_entered_kept hmem hsort hp
          (by rw [hget]; exact Option.some_ne_none _) (Bool.eq_false_iff.mpr hlost), hget]
    | none =>
        rw [foldl_entered_none hmem hget, hX.others p hget,
          Lib.Rules.merge_of_none (hkept.trans hget), hides_kept]
        by_cases hclear : ∃ r ∈ l, Clears t.toTree r p
        · rw [if_pos hclear, if_pos ((hides_iff_cleared hmem hmarks).mpr (.inr hclear))]
        · rw [if_neg hclear]
          refine if_congr ?_ rfl rfl
          rw [hides_iff_cleared hmem hmarks, or_iff_left hclear]

/-- **Merging a layer** raises exactly when its markers do not fit the older layers, and leaves
    them merged with its kept entries. -/
theorem mergeExtractedLayer_region (hs : Source layer M base t.get) (h : Region M base w S) :
    (mergeExtractedLayer layer M w).Meets (OpaqueFits S t)
      fun w => Region M base w (overlayRules.merge S (kept t.toTree)) := by
  have hbelow : ∀ {v : World} {Y : Layer}, Region M base v Y → ∀ r,
      r ∈ v.fs.below layer ↔ r ≠ [] ∧ t.get r ≠ none := by
    intro v Y hv r
    rw [Tree.mem_below, (hs.region hv).agree]
  have hmarks : IsMarkers t (opaqueMarkers w.fs layer) := by
    intro m
    unfold opaqueMarkers
    rw [List.mem_insertionSort, List.mem_filter, hbelow h, decide_eq_true_eq]
    constructor
    · exact fun hm => ⟨hm.1.2, hm.2⟩
    · rintro ⟨hget, hlast⟩
      refine ⟨⟨?_, hget⟩, hlast⟩
      rintro rfl
      cases hlast
  have hfirst := opaqueLoop_region h hmarks (List.pairwise_insertionSort pathLe _)
  refine (hfirst.andThen (D := True) fun _ v hv => ?_).congr
    ⟨fun hC => hC.1, fun hC => ⟨hC, trivial⟩⟩ fun _ _ hw => hw
  obtain ⟨X, hX, hafter⟩ := hv
  have hmem : ∀ r, r ∈ layerEntries v.fs layer ↔ r ≠ [] ∧ t.get r ≠ none := by
    intro r
    unfold layerEntries
    rw [List.mem_insertionSort, hbelow hX]
  have hsort : (layerEntries v.fs layer).Pairwise entryLe := List.pairwise_insertionSort entryLe _
  refine (entryLoop_region hs hX hmem hsort).congr Iff.rfl fun _ u hu => ?_
  have hmerge : (layerEntries v.fs layer).foldl (Layer.entered t.get) X =
      overlayRules.merge S (kept t.toTree) := by
    funext p
    by_cases hp : p = []
    · rw [hp, hu.plain.root, Lib.Rules.merge_of_some]
      unfold kept
      rw [not_lost_nil, if_neg Bool.false_ne_true]
      rfl
    · exact loops_merge hafter hmem hsort hmarks hp
  rwa [hmerge] at hu

end Loops

end CccStorage
