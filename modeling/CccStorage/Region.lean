/-
  File:      CccStorage/Region.lean
  Subject:   The file operations in a directory without symlinks, as changes of a layer.

  * `PlainLayer` -- directories and regular files only, every entry in a directory;
  * `Layer.cut`, `Layer.made`, `Layer.put` -- what removing, making directories and creating a
    file do to a layer;
  * `Region` -- below the directory `M` the files are the plain layer `X`, and elsewhere they are
    as they were;
  * `Region.stat`, `Region.entryPath` -- what the queries answer there;
  * `removePath_region`, `makeDirs_region`, `createEntry_region`, `listDir_region` -- the
    operations refine the changes of the layer, and when they raise.
-/
import CccStorage.Merge

namespace CccStorage

/-! ## 1. Plain layers and their changes -/

/-- **Directories and regular files**, every entry in a directory. -/
structure PlainLayer (X : Layer) : Prop where
  root : X [] = some .dir
  closed : DirClosed X
  kinds : ∀ p e, X p = some e → e = .dir ∨ ∃ b, e = .file b
  names : ∀ p, X p ≠ none → ".." ∉ p

namespace Layer

/-- Without `r` and what is below it. -/
def cut (X : Layer) (r : Path) : Layer := fun p => if r <+: p then none else X p

/-- With `r` and the directories on the way to it. -/
def made (X : Layer) (r : Path) : Layer := fun p => if p <+: r then some .dir else X p

/-- Without what is below `r`. -/
def emptied (X : Layer) (r : Path) : Layer := fun p => if r <+: p ∧ p ≠ r then none else X p

def put (X : Layer) (r : Path) (e : Entry) : Layer := fun p => if p = r then some e else X p

/-- No regular file at `r` or on the way to it. -/
def FreeWay (X : Layer) (r : Path) : Prop := ∀ q, q <+: r → ∀ b, X q ≠ some (.file b)

end Layer

namespace PlainLayer

variable {X : Layer} {d r : Path} {n : String}

theorem cut (h : PlainLayer X) (hr : r ≠ []) : PlainLayer (X.cut r) where
  root := by
    unfold Layer.cut
    rw [if_neg fun hp => hr (List.prefix_nil.mp hp), h.root]
  closed := by
    intro d n hne
    unfold Layer.cut at hne ⊢
    split at hne
    · exact absurd rfl hne
    · rename_i hrn
      rw [if_neg fun hp => hrn (hp.trans (List.prefix_append d [n]))]
      exact h.closed d n hne
  kinds := by
    intro p e he
    unfold Layer.cut at he
    split at he
    · cases he
    · exact h.kinds p e he
  names := by
    intro p hne
    unfold Layer.cut at hne
    split at hne
    · exact absurd rfl hne
    · exact h.names p hne

/-- Cutting what is not there changes nothing. -/
theorem cut_of_none (h : PlainLayer X) (hr : X r = none) : X.cut r = X := by
  funext p
  unfold Layer.cut
  split
  · rename_i hp
    by_cases hrp : r = p
    · rw [← hrp, hr]
    · exact (h.closed.none_below hp hrp (by rw [hr]; nofun)).symm
  · rfl

theorem put (h : PlainLayer X) {e : Entry} (hd : X d = some .dir) (hn : n ≠ "..")
    (hnew : X (d ++ [n]) = none) (he : e = .dir ∨ ∃ b, e = .file b) :
    PlainLayer (X.put (d ++ [n]) e) where
  root := by
    unfold Layer.put
    rw [if_neg (by simp), h.root]
  closed := by
    intro d' n' hne
    have hold : X (d' ++ [n']) ≠ none → (X.put (d ++ [n]) e) d' = some .dir := by
      intro hX
      unfold Layer.put
      rw [if_neg]
      · exact h.closed d' n' hX
      · rintro rfl
        rw [h.closed _ _ hX] at hnew
        cases hnew
    unfold Layer.put at hne
    split at hne
    · rename_i heq
      obtain ⟨rfl, -⟩ := List.append_inj' heq rfl
      unfold Layer.put
      rw [if_neg (by simp), hd]
    · exact hold hne
  kinds := by
    intro p e' he'
    unfold Layer.put at he'
    split at he'
    · cases he'
      exact he
    · exact h.kinds p e' he'
  names := by
    intro p hne
    unfold Layer.put at hne
    split at hne
    · rename_i heq
      rw [heq, List.mem_append, List.mem_singleton, not_or]
      refine ⟨h.names d ?_, Ne.symm hn⟩
      rw [hd]
      exact Option.some_ne_none _
    · exact h.names p hne

/-- Making a directory that is there changes nothing. -/
theorem made_of_dir (h : PlainLayer X) (hr : X r = some .dir) : X.made r = X := by
  funext p
  unfold Layer.made
  split
  · rename_i hp
    by_cases hpr : p = r
    · rw [hpr, hr]
    · exact (h.closed.above (by rw [hr]; nofun) hp hpr).symm
  · rfl

theorem freeWay_of_dir (h : PlainLayer X) (hr : X r = some .dir) : X.FreeWay r := by
  intro q hq b hb
  by_cases hqr : q = r
  · rw [hqr, hr] at hb
    cases hb
  · rw [h.closed.above (by rw [hr]; nofun) hq hqr] at hb
    cases hb

end PlainLayer

/-! ## 2. Regions -/

/-- **Below `M` the files are the layer `X`**; elsewhere they are those of `base`. -/
structure Region (M : Path) (base : Tree) (w : World) (X : Layer) : Prop where
  way : ∀ q, q <+: M → w.fs.get q = some .dir
  agree : ∀ p, w.fs.get (M ++ p) = X p
  outside : ∀ x, ¬ M <+: x → w.fs.get x = base.get x
  plain : PlainLayer X
  noDots : ".." ∉ M

namespace Region

variable {M d r : Path} {n : String} {base fs : Tree} {w : World} {X X' : Layer} {p q : Path}

theorem touch (h : Region M base w X) (hfs : ∀ r, fs.get (M ++ r) = X' r)
    (hout : ∀ x, ¬ M <+: x → fs.get x = w.fs.get x) (hX' : PlainLayer X') :
    Region M base (w.touch p q fs) X' where
  way x hx := by
    show fs.get x = some .dir
    by_cases hM : M <+: x
    · have hxM : M = x := hM.eq_of_length_le hx.length_le
      have hroot := hfs []
      rw [List.append_nil, hX'.root] at hroot
      rw [← hxM, hroot]
    · rw [hout x hM, h.way x hx]
  agree := hfs
  outside x hx := (hout x hx).trans (h.outside x hx)
  plain := hX'
  noDots := h.noDots

theorem noLinks (h : Region M base w X) (r : Path) : w.fs.NoLinks (M ++ r) := by
  intro q hq target hget
  rcases List.prefix_or_prefix_of_prefix hq (List.prefix_append M r) with hqM | ⟨s, rfl⟩
  · rw [h.way q hqM] at hget
    cases hget
  · rw [h.agree] at hget
    rcases h.plain.kinds _ _ hget with hd | ⟨b, hb⟩
    · cases hd
    · cases hb

theorem realPath (h : Region M base w X) (hr : ".." ∉ r) :
    w.fs.realPath (M ++ r) = if X r = none then none else some (M ++ r) := by
  have hdots : ".." ∉ M ++ r := by
    rw [List.mem_append, not_or]
    exact ⟨h.noDots, hr⟩
  by_cases hX : X r = none
  · rw [if_pos hX]
    by_contra hne
    obtain ⟨q, hq⟩ := Option.ne_none_iff_exists'.mp hne
    have hpresent := Tree.realPath_present (h.noLinks r) hdots hq
    rw [h.agree] at hpresent
    exact hpresent hX
  · rw [if_neg hX]
    obtain ⟨e, he⟩ := Option.ne_none_iff_exists'.mp hX
    refine Tree.walk_of_dirs (fun x hx hne => ?_) hdots (h.agree r ▸ he) fun target ht => ?_
    · rcases List.prefix_or_prefix_of_prefix hx (List.prefix_append M r) with hxM | ⟨s, rfl⟩
      · exact h.way x hxM
      · show w.fs.get (M ++ s) = some .dir
        rw [h.agree]
        refine h.plain.closed.above hX ((List.prefix_append_right_inj M).mp hx) ?_
        rintro rfl
        exact hne rfl
    · subst ht
      rcases h.plain.kinds _ _ he with hd | ⟨b, hb⟩
      · cases hd
      · cases hb

theorem stat (h : Region M base w X) (hr : ".." ∉ r) : w.fs.stat (M ++ r) = X r := by
  unfold Tree.stat
  rw [h.realPath hr]
  by_cases hX : X r = none
  · rw [if_pos hX, hX]
    rfl
  · rw [if_neg hX, Option.bind_some, h.agree]

theorem isDir (h : Region M base w X) (hr : ".." ∉ r) :
    w.fs.isDir (M ++ r) = decide (X r = some .dir) := by
  unfold Tree.isDir
  rw [h.stat hr]

theorem exists' (h : Region M base w X) (hr : ".." ∉ r) :
    w.fs.exists' (M ++ r) = (X r).isSome := by
  unfold Tree.exists'
  rw [h.stat hr]

theorem entryPath (h : Region M base w X) (hd : ".." ∉ d) (hn : n ≠ "..") :
    w.fs.entryPath (M ++ (d ++ [n])) =
      if X d = some .dir then some (M ++ (d ++ [n])) else none := by
  unfold Tree.entryPath
  rw [← List.append_assoc, List.getLast?_concat, List.dropLast_concat, h.realPath hd]
  simp only
  by_cases hX : X d = none
  · rw [if_pos hX, hX]
    rfl
  · rw [if_neg hX]
    simp only
    rw [h.agree, if_neg hn]

theorem isSymlink (h : Region M base w X) (hd : ".." ∉ d) (hn : n ≠ "..") :
    w.fs.isSymlink (M ++ (d ++ [n])) = false := by
  unfold Tree.isSymlink Tree.lstat
  rw [h.entryPath hd hn]
  split
  · rename_i target ht
    split at ht
    · rw [Option.bind_some, h.agree] at ht
      rcases h.plain.kinds _ _ ht with hk | ⟨b, hb⟩
      · cases hk
      · cases hb
    · cases ht
  · rfl

/-! ## 3. The operations -/

theorem removePath (h : Region M base w X) (hd : ".." ∉ d) (hn : n ≠ "..") :
    (CccStorage.removePath (M ++ (d ++ [n])) w).Meets True
      fun w => Region M base w (X.cut (d ++ [n])) := by
  unfold CccStorage.removePath
  rw [h.entryPath hd hn]
  by_cases hX : X (d ++ [n]) = none
  · rw [h.plain.cut_of_none hX]
    split
    · exact .of_ok h
    · rename_i q hq
      split at hq
      · cases hq
        rw [h.agree, hX]
        exact .of_ok h
      · cases hq
  · rw [h.plain.closed d n hX, if_pos rfl]
    have hne : M ++ (d ++ [n]) ≠ [] := by simp
    have htouch : Region M base (w.touch (M ++ (d ++ [n])) (M ++ (d ++ [n]))
        (w.fs.removeTree (M ++ (d ++ [n])))) (X.cut (d ++ [n])) := by
      refine h.touch (fun p => ?_) (fun x hx => ?_) (h.plain.cut (by simp))
      · rw [Tree.get_removeTree hne, h.agree]
        unfold Layer.cut
        by_cases hp : d ++ [n] <+: p
        · rw [if_pos hp, if_pos ((List.prefix_append_right_inj M).mpr hp)]
        · rw [if_neg hp, if_neg fun hp' => hp ((List.prefix_append_right_inj M).mp hp')]
      · rw [Tree.get_removeTree hne, if_neg fun hp => hx ((List.prefix_append M _).trans hp)]
    have hlast : (M ++ (d ++ [n])).getLast? ≠ some ".." := by
      rw [← List.append_assoc, List.getLast?_concat]
      exact fun heq => hn (Option.some.inj heq)
    simp only
    rw [h.agree]
    obtain ⟨e, he⟩ := Option.ne_none_iff_exists'.mp hX
    rcases h.plain.kinds _ _ he with rfl | ⟨b, rfl⟩
    · rw [he, if_neg hlast]
      exact .of_ok htouch
    · rw [he]
      exact .of_ok htouch

theorem put_touch (h : Region M base w X) {e : Entry} (hd : X d = some .dir) (hn : n ≠ "..")
    (hnew : X (d ++ [n]) = none) (he : e = .dir ∨ ∃ b, e = .file b) :
    Region M base (w.touch (M ++ (d ++ [n])) (M ++ (d ++ [n]))
      (w.fs.set (M ++ (d ++ [n])) e)) (X.put (d ++ [n]) e) := by
  have hne : M ++ (d ++ [n]) ≠ [] := by simp
  refine h.touch (fun p => ?_) (fun x hx => ?_) (h.plain.put hd hn hnew he)
  · rw [Tree.get_set hne, h.agree]
    unfold Layer.put
    by_cases hp : p = d ++ [n]
    · rw [if_pos hp, hp, if_pos rfl]
    · rw [if_neg hp, if_neg fun hp' => hp (List.append_cancel_left hp')]
  · rw [Tree.get_set hne, if_neg]
    rintro rfl
    exact hx (List.prefix_append _ _)

/-- Creating a file beside what is there. -/
theorem createEntry (h : Region M base w X) (hd : X d = some .dir) (hn : n ≠ "..")
    (hnew : X (d ++ [n]) = none) (b : Bytes) :
    (CccStorage.createEntry (M ++ (d ++ [n])) (.file b) w).Meets True
      fun w => Region M base w (X.put (d ++ [n]) (.file b)) := by
  have hdots := h.plain.names d (by rw [hd]; exact Option.some_ne_none _)
  unfold CccStorage.createEntry
  rw [h.entryPath hdots hn, if_pos hd]
  simp only
  rw [h.agree, if_pos hnew]
  exact .of_ok (h.put_touch hd hn hnew (.inr ⟨b, rfl⟩))

/-- The way to `M` is its own real path. -/
theorem realPath_way (h : Region M base w X) (hq : q <+: M) : w.fs.realPath q = some q := by
  refine Tree.walk_of_dirs (fun x hx _ => h.way _ (hx.trans hq)) (fun hmem => ?_)
    (h.way q hq) nofun
  exact h.noDots (hq.subset hmem)

/-- Directories on the way to `M` are there already. -/
theorem makeDirsFrom_way (h : Region M base w X) {b x : Path} (hx : b ++ x <+: M) (rest : Path) :
    makeDirsFrom b (x ++ rest) w = makeDirsFrom (b ++ x) rest w := by
  induction x generalizing b with
  | nil => rw [List.nil_append, List.append_nil]
  | cons c x ih =>
      have hcons : b ++ c :: x = (b ++ [c]) ++ x := by simp
      rw [hcons] at hx ⊢
      have hbc : b ++ [c] <+: M := (List.prefix_append _ _).trans hx
      have hb : b <+: M := (List.prefix_append b [c]).trans hbc
      have hc : c ≠ ".." := by
        rintro rfl
        exact h.noDots (hbc.subset (by simp))
      have hentry : w.fs.entryPath (b ++ [c]) = some (b ++ [c]) := by
        unfold Tree.entryPath
        rw [List.getLast?_concat, List.dropLast_concat, h.realPath_way hb]
        simp only
        rw [if_pos (h.way b hb), if_neg hc]
      have hdir : w.fs.isDir (b ++ [c]) = true := by
        unfold Tree.isDir Tree.stat
        rw [h.realPath_way hbc, Option.bind_some, h.way _ hbc, decide_eq_true rfl]
      rw [List.cons_append, makeDirsFrom, hentry]
      simp only
      rw [h.way _ hbc, if_neg nofun, if_pos hdir]
      exact ih hx

theorem makeDirsFrom_below (h : Region M base w X) {b rest : Path} (hb : X b = some .dir)
    (hdots : ".." ∉ rest) :
    (makeDirsFrom (M ++ b) rest w).Meets (X.FreeWay (b ++ rest))
      fun w => Region M base w (X.made (b ++ rest)) := by
  induction rest generalizing b w X with
  | nil =>
      rw [List.append_nil, h.plain.made_of_dir hb]
      have hok : w.ok.Meets True fun w => Region M base w X := .of_ok h
      exact hok.congr ⟨fun _ => h.plain.freeWay_of_dir hb, fun _ => trivial⟩ fun _ _ h => h
  | cons c rest ih =>
      rw [List.mem_cons, not_or] at hdots
      have hc : c ≠ ".." := Ne.symm hdots.1
      have hbdots := h.plain.names b (by rw [hb]; exact Option.some_ne_none _)
      have hcons : b ++ c :: rest = (b ++ [c]) ++ rest := by simp
      have hbc : b ++ [c] <+: b ++ c :: rest := hcons ▸ List.prefix_append _ _
      rw [makeDirsFrom, List.append_assoc, h.entryPath hbdots hc, if_pos hb]
      simp only
      rw [h.agree, h.isDir (by simpa [hbdots] using hdots.1)]
      cases he : X (b ++ [c]) with
      | none =>
          rw [if_pos rfl]
          have hput := h.put_touch (e := .dir) hb hc he (.inl rfl)
          have hrest := ih hput (b := b ++ [c]) (by unfold Layer.put; rw [if_pos rfl]) hdots.2
          have hway : (X.put (b ++ [c]) .dir).FreeWay (b ++ c :: rest) ↔
              X.FreeWay (b ++ c :: rest) := by
            refine forall_congr' fun q => forall_congr' fun hq => forall_congr' fun f => ?_
            unfold Layer.put
            by_cases hqb : q = b ++ [c]
            · rw [hqb, if_pos rfl, he]
              exact ⟨fun _ => nofun, fun _ => nofun⟩
            · rw [if_neg hqb]
          have hmade : (X.put (b ++ [c]) .dir).made (b ++ c :: rest) = X.made (b ++ c :: rest) := by
            funext p
            unfold Layer.made Layer.put
            by_cases hp : p <+: b ++ c :: rest
            · rw [if_pos hp, if_pos hp]
            · rw [if_neg hp, if_neg hp, if_neg]
              rintro rfl
              exact hp hbc
          rw [← hcons, hway, hmade] at hrest
          exact hrest
      | some e =>
          rw [if_neg nofun]
          rcases h.plain.kinds _ _ he with rfl | ⟨f, rfl⟩
          · rw [decide_eq_true rfl, if_pos rfl]
            have hrest := ih h (b := b ++ [c]) he hdots.2
            rwa [← hcons] at hrest
          · rw [decide_eq_false nofun, if_neg Bool.false_ne_true]
            exact .of_error fun hway => hway _ hbc f he

/-- **Making directories** raises exactly when a regular file is in the way. -/
theorem makeDirs (h : Region M base w X) (hr : ".." ∉ r) :
    (CccStorage.makeDirs (M ++ r) w).Meets (X.FreeWay r)
      fun w => Region M base w (X.made r) := by
  have hway : CccStorage.makeDirs (M ++ r) w = makeDirsFrom (M ++ []) r w := by
    unfold CccStorage.makeDirs
    rw [h.makeDirsFrom_way (by rw [List.nil_append]), List.nil_append, List.append_nil]
  rw [hway]
  have hrun := h.makeDirsFrom_below h.plain.root hr
  rwa [List.nil_append] at hrun

/-- **Emptying a directory** raises exactly when it is none. -/
theorem clearDir (h : Region M base w X) (hd : ".." ∉ d) (hX : X d ≠ none) :
    (listDir (M ++ d) CccStorage.removePath w).Meets (X d = some .dir)
      fun w => Region M base w (X.emptied d) := by
  unfold listDir
  rw [h.realPath hd, if_neg hX]
  simp only
  rw [h.agree]
  by_cases hdir : X d = some .dir
  · rw [if_pos hdir]
    have hstart : Region M base (w.touch (M ++ d) (M ++ d) w.fs) X :=
      h.touch h.agree (fun _ _ => rfl) h.plain
    have hnames : ∀ n, n ∈ w.fs.children (M ++ d) ↔ X (d ++ [n]) ≠ none := by
      intro n
      rw [Tree.mem_children, List.append_assoc, h.agree]
    have hrun := Lib.forEach_meets (l := w.fs.children (M ++ d)) (Q := fun _ _ => True)
      (J := fun done v => Region M base v
        fun p => if ∃ n ∈ done, d ++ [n] <+: p then none else X p)
      (f := fun n => CccStorage.removePath (M ++ d ++ [n])) (s := w.touch (M ++ d) (M ++ d) w.fs)
      (fun done n rest v hl hv => ?_) (by simpa using hstart)
    · refine hrun.congr ⟨fun _ => hdir, fun _ _ _ _ _ => trivial⟩ fun _ v hv => ?_
      have hcut : (fun p => if ∃ n ∈ w.fs.children (M ++ d), d ++ [n] <+: p then none else X p) =
          X.emptied d := by
        funext p
        unfold Layer.emptied
        by_cases hp : d <+: p ∧ p ≠ d
        · rw [if_pos hp]
          obtain ⟨⟨s, rfl⟩, hne⟩ := hp
          cases s with
          | nil => exact absurd (List.append_nil d) hne
          | cons n s =>
              have hns : d ++ n :: s = (d ++ [n]) ++ s := by simp
              by_cases hc : X (d ++ [n]) = none
              · split
                · rfl
                · rw [hns]
                  by_cases hs : s = []
                  · rw [hs, List.append_nil, hc]
                  · exact h.plain.closed.none_below (List.prefix_append _ s) (by simpa using hs)
                      (by rw [hc]; nofun)
              · rw [if_pos ⟨n, (hnames n).mpr hc, hns ▸ List.prefix_append _ _⟩]
        · rw [if_neg hp, if_neg]
          rintro ⟨n, -, hn⟩
          refine hp ⟨(List.prefix_append _ _).trans hn, ?_⟩
          rintro rfl
          have hle := hn.length_le
          rw [List.length_append, List.length_singleton] at hle
          omega
      rwa [hcut] at hv
    · have hn : n ≠ ".." := by
        rintro rfl
        have hmem : ".." ∈ w.fs.children (M ++ d) := hl ▸ by simp
        exact h.plain.names _ ((hnames _).mp hmem) (by simp)
      have hstep := hv.removePath hd hn
      rw [← List.append_assoc] at hstep
      refine hstep.congr Iff.rfl fun _ v hv => ?_
      have hcut : (Layer.cut (fun p => if ∃ n ∈ done, d ++ [n] <+: p then none else X p)
          (d ++ [n])) = fun p => if ∃ m ∈ done ++ [n], d ++ [m] <+: p then none else X p := by
        funext p
        unfold Layer.cut
        by_cases hp : d ++ [n] <+: p
        · rw [if_pos hp, if_pos ⟨n, by simp, hp⟩]
        · rw [if_neg hp]
          refine if_congr ?_ rfl rfl
          constructor
          · rintro ⟨m, hm, hmp⟩
            exact ⟨m, List.mem_append_left _ hm, hmp⟩
          · rintro ⟨m, hm, hmp⟩
            rcases List.mem_append.mp hm with hm | hm
            · exact ⟨m, hm, hmp⟩
            · rw [List.mem_singleton.mp hm] at hmp
              exact absurd hmp hp
      rw [← hcut]
      exact hv
  · rw [if_neg hdir]
    exact .of_error hdir

end Region

end CccStorage
