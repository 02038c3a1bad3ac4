/-
  File:      CccStorage/OverlayTexts.lean
  Subject:   The option texts of the overlay commands of `pack/reader.py`, and how they are read:
             options between commas, the lower directories between colons, and a backslash takes
             the meaning from the next character.

  * `readOptions` -- what is read from a text;
  * `OverlayPaths`, `readOptions_text_iff` -- a text is read as it is meant exactly when its paths
    hold none of the three characters; a colon may stand in the upper and the work directory;
  * `Composer.overlays`, `compose_optionTexts` -- the overlays of a composer, the top one first;
  * `compose_readsIntended_iff` -- when the options of a mount name the directories they should.

  Nothing is escaped and no path is refused.
-/
import CccStorage.MountLeaks
import CccStorage.Lib.Escaped

namespace CccStorage.Composers

open Observe

/-! ## 1. How an option text is read -/

inductive MountOption where
  | lowerdir (dirs : List String)
  | upperdir (dir : String)
  | workdir (dir : String)
  /-- Any other text. -/
  | other (text : String)
  deriving DecidableEq

/-- The characters, escaped or not. -/
def textOf (toks : List (Char × Bool)) : String := String.ofList (toks.map Prod.fst)

/-- One option. -/
def readOption (toks : List (Char × Bool)) : MountOption :=
  match toks.dropWhile (· ≠ ('=', false)) with
  | [] => .other (textOf toks)
  | _ :: value =>
    let key := textOf (toks.takeWhile (· ≠ ('=', false)))
    if key = "lowerdir" then .lowerdir ((Lib.fields ':' value).map textOf)
    else if key = "upperdir" then .upperdir (textOf value)
    else if key = "workdir" then .workdir (textOf value)
    else .other (textOf toks)

/-- **What is read from an option text.** -/
def readOptions (text : String) : List MountOption :=
  (Lib.fields ',' (Lib.lex '\\' text.toList)).map readOption

/-- An option as it is written. -/
def MountOption.written : MountOption → List Char
  | .lowerdir dirs => "lowerdir=".toList ++ Lib.joined ':' (dirs.map String.toList)
  | .upperdir dir => "upperdir=".toList ++ dir.toList
  | .workdir dir => "workdir=".toList ++ dir.toList
  | .other text => text.toList

theorem written_lowerdir (dirs : List String) : (MountOption.lowerdir dirs).written =
    "lowerdir=".toList ++ Lib.joined ':' (dirs.map String.toList) := rfl

theorem written_upperdir (dir : String) :
    (MountOption.upperdir dir).written = "upperdir=".toList ++ dir.toList := rfl

theorem written_workdir (dir : String) :
    (MountOption.workdir dir).written = "workdir=".toList ++ dir.toList := rfl

theorem toList_textOf (toks : List (Char × Bool)) : (textOf toks).toList = toks.map Prod.fst :=
  String.toList_ofList

/-- The text of an option before and after the equals sign. -/
theorem map_fst_of_dropWhile {toks value : List (Char × Bool)} {c : Char × Bool} {key : String}
    (hdrop : toks.dropWhile (· ≠ ('=', false)) = c :: value)
    (hkey : textOf (toks.takeWhile (· ≠ ('=', false))) = key) :
    toks.map Prod.fst = key.toList ++ '=' :: value.map Prod.fst := by
  have hc : c = ('=', false) := by
    have hhead := List.head?_dropWhile_not (· ≠ ('=', false)) toks
    rw [hdrop] at hhead
    simpa using hhead
  calc toks.map Prod.fst
      = (toks.takeWhile (· ≠ ('=', false)) ++ toks.dropWhile (· ≠ ('=', false))).map Prod.fst := by
        rw [List.takeWhile_append_dropWhile]
    _ = key.toList ++ '=' :: value.map Prod.fst := by
        rw [hdrop, List.map_append, List.map_cons, hc, ← hkey, toList_textOf]

/-- **Nothing is lost** when an option is read, but what is escaped. -/
theorem written_readOption (toks : List (Char × Bool)) :
    (readOption toks).written = toks.map Prod.fst := by
  unfold readOption
  cases hdrop : toks.dropWhile (· ≠ ('=', false)) with
  | nil => exact toList_textOf toks
  | cons c value =>
    dsimp only
    by_cases hlower : textOf (toks.takeWhile (· ≠ ('=', false))) = "lowerdir"
    · have hfields : ((Lib.fields ':' value).map textOf).map String.toList =
          (Lib.fields ':' value).map (List.map Prod.fst) := by
        rw [List.map_map]
        exact List.map_congr_left fun n _ => toList_textOf n
      rw [if_pos hlower, map_fst_of_dropWhile hdrop hlower, ← Lib.joined_fields ':' value,
        ← hfields]
      rfl
    · rw [if_neg hlower]
      by_cases hupper : textOf (toks.takeWhile (· ≠ ('=', false))) = "upperdir"
      · rw [if_pos hupper, map_fst_of_dropWhile hdrop hupper, ← toList_textOf value]
        rfl
      · rw [if_neg hupper]
        by_cases hwork : textOf (toks.takeWhile (· ≠ ('=', false))) = "workdir"
        · rw [if_pos hwork, map_fst_of_dropWhile hdrop hwork, ← toList_textOf value]
          rfl
        · rw [if_neg hwork]
          exact toList_textOf toks

/-- **What is read, written again**, is the text without its escapes. -/
theorem written_readOptions (text : String) :
    Lib.joined ',' ((readOptions text).map MountOption.written) =
      (Lib.lex '\\' text.toList).map Prod.fst := by
  have hfields : (readOptions text).map MountOption.written =
      (Lib.fields ',' (Lib.lex '\\' text.toList)).map (List.map Prod.fst) := by
    unfold readOptions
    rw [List.map_map]
    exact List.map_congr_left fun toks _ => written_readOption toks
  rw [hfields, Lib.joined_fields]

/-- An option without escapes. -/
def readPlain (text : List Char) : MountOption := readOption (text.map fun c => (c, false))

theorem readOptions_plain {text : String} (h : '\\' ∉ text.toList) :
    readOptions text = (text.toList.splitOn ',').map readPlain := by
  unfold readOptions
  rw [Lib.lex_of_not_mem h, Lib.fields_map, List.map_map]
  rfl

theorem textOf_plain (text : List Char) :
    textOf (text.map fun c => (c, false)) = String.ofList text := by
  unfold textOf
  rw [List.map_map]
  exact congrArg String.ofList (List.map_id text)

theorem readPlain_lowerdir (value : List Char) :
    readPlain ("lowerdir=".toList ++ value) =
      .lowerdir ((value.splitOn ':').map String.ofList) := by
  have hread : readPlain ("lowerdir=".toList ++ value) =
      .lowerdir ((Lib.fields ':' (value.map fun c => (c, false))).map textOf) := rfl
  rw [hread, Lib.fields_map, List.map_map]
  exact congrArg _ (List.map_congr_left fun n _ => textOf_plain n)

theorem readPlain_upperdir (value : List Char) :
    readPlain ("upperdir=".toList ++ value) = .upperdir (String.ofList value) :=
  congrArg MountOption.upperdir (textOf_plain value)

theorem readPlain_workdir (value : List Char) :
    readPlain ("workdir=".toList ++ value) = .workdir (String.ofList value) :=
  congrArg MountOption.workdir (textOf_plain value)

/-! ## 2. The texts -/

/-- The paths that an overlay command names. -/
structure OverlayPaths where
  lowerdirs : List String
  upper : Option (String × String) := none

namespace OverlayPaths

def text (o : OverlayPaths) : String :=
  let lowerdir := "lowerdir=" ++ Observe.lowerdirs o.lowerdirs
  match o.upper with
  | none => lowerdir
  | some (upper, work) => lowerdir ++ ",upperdir=" ++ upper ++ ",workdir=" ++ work

/-- **What the text is meant to say.** -/
def meant (o : OverlayPaths) : List MountOption :=
  match o.upper with
  | none => [.lowerdir o.lowerdirs]
  | some (upper, work) => [.lowerdir o.lowerdirs, .upperdir upper, .workdir work]

end OverlayPaths

/-- The text holds none of the characters. -/
def HoldsNone (cs text : List Char) : Prop := ∀ c ∈ cs, c ∉ text

/-- A path that can be named as a lower directory. -/
def PlainLower (path : String) : Prop := HoldsNone [':', ',', '\\'] path.toList

/-- A path that can be named as the upper or the work directory. -/
def PlainUpper (path : String) : Prop := HoldsNone [',', '\\'] path.toList

structure OverlayPaths.Plain (o : OverlayPaths) : Prop where
  lowerdirs : ∀ p ∈ o.lowerdirs, PlainLower p
  upper : ∀ u ∈ o.upper, PlainUpper u.1 ∧ PlainUpper u.2

section Texts

variable {o : OverlayPaths} {m : MountOption} {p : String} {c : Char}

theorem toList_text (o : OverlayPaths) :
    o.text.toList = Lib.joined ',' (o.meant.map MountOption.written) := by
  have hlowers : (Observe.lowerdirs o.lowerdirs).toList =
      Lib.joined ':' (o.lowerdirs.map String.toList) := by
    rw [Observe.lowerdirs, String.toList_intercalate]
    rfl
  cases o with
  | mk lowers upper =>
    cases upper with
    | none =>
      show ("lowerdir=" ++ Observe.lowerdirs lowers).toList =
        Lib.joined ',' [(MountOption.lowerdir lowers).written]
      rw [String.toList_append, hlowers, Lib.joined_singleton, written_lowerdir]
    | some u =>
      have hupper : ",upperdir=".toList = ',' :: "upperdir=".toList := by decide
      have hwork : ",workdir=".toList = ',' :: "workdir=".toList := by decide
      show ("lowerdir=" ++ Observe.lowerdirs lowers ++ ",upperdir=" ++ u.1 ++ ",workdir=" ++
        u.2).toList = Lib.joined ',' [(MountOption.lowerdir lowers).written,
          (MountOption.upperdir u.1).written, (MountOption.workdir u.2).written]
      rw [Lib.joined_cons _ (List.cons_ne_nil _ _), Lib.joined_cons _ (List.cons_ne_nil _ _),
        Lib.joined_singleton, written_lowerdir, written_upperdir, written_workdir]
      simp only [String.toList_append, hlowers, hupper, hwork, List.append_assoc, List.cons_append]

theorem lowerdir_mem_meant (o : OverlayPaths) : MountOption.lowerdir o.lowerdirs ∈ o.meant := by
  unfold OverlayPaths.meant
  cases o.upper with
  | none => exact List.mem_singleton_self _
  | some u => exact List.mem_cons_self

section Chars

variable {cs a b : List Char}

theorem holdsNone_append : HoldsNone cs (a ++ b) ↔ HoldsNone cs a ∧ HoldsNone cs b :=
  ⟨fun h => ⟨fun c hc hmem => h c hc (List.mem_append_left _ hmem),
      fun c hc hmem => h c hc (List.mem_append_right _ hmem)⟩,
    fun h c hc hmem => (List.mem_append.mp hmem).elim (h.1 c hc) (h.2 c hc)⟩

theorem holdsNone_append_left (ha : HoldsNone cs a) : HoldsNone cs (a ++ b) ↔ HoldsNone cs b :=
  holdsNone_append.trans (and_iff_right ha)

theorem holdsNone_append_right (hb : HoldsNone cs b) : HoldsNone cs (a ++ b) ↔ HoldsNone cs a :=
  holdsNone_append.trans (and_iff_left hb)

theorem holdsNone_reverse : HoldsNone cs a.reverse ↔ HoldsNone cs a := by
  unfold HoldsNone
  simp only [List.mem_reverse]

end Chars

theorem holdsNone_joined {cs : List Char} {sep : Char} {names : List (List Char)}
    (hsep : sep ∉ cs) : HoldsNone cs (Lib.joined sep names) ↔ ∀ n ∈ names, HoldsNone cs n := by
  refine ⟨fun h n hn c hc hmem => h c hc (Lib.mem_joined_of_mem hn hmem), fun h c hc hmem => ?_⟩
  rcases Lib.mem_joined hmem with rfl | ⟨n, hn, hcn⟩
  · exact hsep hc
  · exact h n hn c hc hcn

/-- The options hold no comma and no backslash exactly when the paths hold none. -/
theorem meant_holdsNone_iff :
    (∀ m ∈ o.meant, HoldsNone [',', '\\'] m.written) ↔
      (∀ p ∈ o.lowerdirs, PlainUpper p) ∧ ∀ u ∈ o.upper, PlainUpper u.1 ∧ PlainUpper u.2 := by
  have hkeys : ∀ key ∈ ["lowerdir=", "upperdir=", "workdir="], ∀ c ∈ [',', '\\'],
      c ∉ key.toList := by
    simp
  have hlower : HoldsNone [',', '\\'] (MountOption.lowerdir o.lowerdirs).written ↔
      ∀ p ∈ o.lowerdirs, PlainUpper p := by
    rw [written_lowerdir, holdsNone_append_left (hkeys "lowerdir=" (by decide)),
      holdsNone_joined (by decide), List.forall_mem_map]
    rfl
  have hupper : ∀ dir, HoldsNone [',', '\\'] (MountOption.upperdir dir).written ↔ PlainUpper dir :=
    fun dir => holdsNone_append_left (hkeys "upperdir=" (by decide))
  have hwork : ∀ dir, HoldsNone [',', '\\'] (MountOption.workdir dir).written ↔ PlainUpper dir :=
    fun dir => holdsNone_append_left (hkeys "workdir=" (by decide))
  unfold OverlayPaths.meant
  cases o.upper with
  | none =>
    dsimp only
    rw [List.forall_mem_singleton, hlower]
    exact ⟨fun h => ⟨h, fun u hu => absurd hu (Option.not_mem_none u)⟩, fun h => h.1⟩
  | some u =>
    dsimp only
    rw [List.forall_mem_cons, List.forall_mem_cons, List.forall_mem_singleton, hlower, hupper,
      hwork]
    refine and_congr_right fun _ => ⟨fun h v hv => ?_, fun h => h u (Option.mem_some_self u)⟩
    obtain rfl := Option.mem_some.mp hv
    exact h

theorem plain_iff :
    o.Plain ↔ (∀ m ∈ o.meant, HoldsNone [',', '\\'] m.written) ∧
      ∀ p ∈ o.lowerdirs, ':' ∉ p.toList := by
  have hlower : ∀ p, PlainLower p ↔ PlainUpper p ∧ ':' ∉ p.toList := by
    intro p
    unfold PlainLower PlainUpper HoldsNone
    rw [List.forall_mem_cons, and_comm]
  rw [meant_holdsNone_iff]
  constructor
  · rintro ⟨hlowerdirs, hupper⟩
    exact ⟨⟨fun p hp => ((hlower p).mp (hlowerdirs p hp)).1, hupper⟩,
      fun p hp => ((hlower p).mp (hlowerdirs p hp)).2⟩
  · rintro ⟨⟨hlowerdirs, hupper⟩, hcolon⟩
    exact ⟨fun p hp => (hlower p).mpr ⟨hlowerdirs p hp, hcolon p hp⟩, hupper⟩

/-- The lower directories are read back exactly when none holds a colon. -/
theorem readPlain_lowerdirs_iff (hne : o.lowerdirs ≠ []) :
    readPlain (MountOption.lowerdir o.lowerdirs).written = .lowerdir o.lowerdirs ↔
      ∀ p ∈ o.lowerdirs, ':' ∉ p.toList := by
  have hnames : (o.lowerdirs.map String.toList) ≠ [] := by simpa using hne
  have hback : (o.lowerdirs.map String.toList).map String.ofList = o.lowerdirs := by
    rw [List.map_map]
    exact (List.map_congr_left fun p _ => String.ofList_toList).trans (List.map_id _)
  have hinj : Function.Injective (List.map String.ofList) :=
    List.map_injective_iff.mpr fun _ _ => String.ofList_inj.mp
  rw [written_lowerdir, readPlain_lowerdir, MountOption.lowerdir.injEq]
  conv_lhs => rhs; rw [← hback]
  rw [hinj.eq_iff, Lib.splitOn_joined_iff hnames, List.forall_mem_map]

/-- **A text is read as it is meant** exactly when its paths are plain. -/
theorem readOptions_text_iff (hne : o.lowerdirs ≠ []) : readOptions o.text = o.meant ↔ o.Plain := by
  have hmeant : o.meant.map MountOption.written ≠ [] := by
    simpa using List.ne_nil_of_mem (lowerdir_mem_meant o)
  rw [plain_iff]
  constructor
  · intro h
    have hesc : '\\' ∉ o.text.toList := by
      rw [← Lib.lex_map_iff, ← written_readOptions, h, toList_text]
    rw [readOptions_plain hesc] at h
    have hpieces : o.text.toList.splitOn ',' = o.meant.map MountOption.written := by
      have hwritten : ∀ n ∈ o.text.toList.splitOn ',', (MountOption.written ∘ readPlain) n = n := by
        intro n _
        refine (written_readOption _).trans ?_
        rw [List.map_map]
        exact List.map_id n
      rw [← h, List.map_map, List.map_congr_left hwritten]
      exact (List.map_id _).symm
    refine ⟨fun m hm c hc hmem => ?_, ?_⟩
    · have hn : m.written ∈ o.meant.map MountOption.written := List.mem_map_of_mem hm
      rcases List.mem_cons.mp hc with rfl | hc
      · exact Lib.not_mem_of_mem_splitOn (hpieces ▸ hn) hmem
      · obtain rfl := List.mem_singleton.mp hc
        exact hesc (toList_text o ▸ Lib.mem_joined_of_mem hn hmem)
    · rw [hpieces, List.map_map] at h
      have hall := List.map_inj_left.mp (h.trans (List.map_id _).symm)
      exact (readPlain_lowerdirs_iff hne).mp (hall _ (lowerdir_mem_meant o))
  · rintro ⟨hwithout, hcolon⟩
    have hesc : '\\' ∉ o.text.toList := by
      intro hmem
      rw [toList_text] at hmem
      rcases Lib.mem_joined hmem with hcomma | ⟨n, hn, hmem⟩
      · revert hcomma
        decide
      · obtain ⟨m, hm, rfl⟩ := List.mem_map.mp hn
        exact hwithout m hm '\\' (by decide) hmem
    have hcomma : ∀ n ∈ o.meant.map MountOption.written, ',' ∉ n := by
      intro n hn
      obtain ⟨m, hm, rfl⟩ := List.mem_map.mp hn
      exact hwithout m hm ',' (by decide)
    rw [readOptions_plain hesc, toList_text, (Lib.splitOn_joined_iff hmeant).mpr hcomma,
      List.map_map]
    have hlower := (readPlain_lowerdirs_iff hne).mpr hcolon
    refine (List.map_congr_left fun m hm => ?_).trans (List.map_id _)
    unfold OverlayPaths.meant at hm
    cases hupper : o.upper with
    | none =>
      rw [hupper] at hm
      obtain rfl := List.mem_singleton.mp hm
      exact hlower
    | some u =>
      rw [hupper] at hm
      rcases List.mem_cons.mp hm with rfl | hm
      · exact hlower
      · rcases List.mem_cons.mp hm with rfl | hm
        · exact (readPlain_upperdir _).trans (congrArg _ String.ofList_toList)
        · obtain rfl := List.mem_singleton.mp hm
          exact (readPlain_workdir _).trans (congrArg _ String.ofList_toList)

end Texts

/-! ## 3. The overlays of a composer -/

mutual

/-- The option texts of a handle and its lower ones, the top one first. -/
def MountHandle.optionTexts : MountHandle → List String
  | .mk _ _ options _ lowers _ => (options.map OverlayOptions.text).toList ++ optionTextsOf lowers

def optionTextsOf : List MountHandle → List String
  | [] => []
  | handle :: handles => handle.optionTexts ++ optionTextsOf handles

end

/-- The overlay of a read-only stack: several packs below its mountpoint. -/
def stackOverlays (mnt : String) (packs : List PackInfo) : List OverlayPaths :=
  if packs.length ≤ 1 then []
  else [{ lowerdirs := packMountpoints (stackRoot mnt) packs.length }]

/-- **The overlays that a composer has to mount**, the top one first: the lower directories with the
    topmost first, the upper and the work directory. -/
def Composer.overlays : Composer → List OverlayPaths
  | .stackRo packs mnt _ => stackOverlays mnt packs
  | .layeredRw packs upper overlayRoot mnt given _ =>
    let root := scratchRoot given mnt ".rw-stack"
    { lowerdirs := [if packs = [] then root ++ "/empty-lower" else root ++ "/lower"]
      upper := some (upper.path, pathJoin overlayRoot "work") } ::
      stackOverlays (root ++ "/lower") packs
  | .kernelOverlay packs upper work mnt given _ =>
    let root := scratchRoot given mnt ".kernel-rw-stack"
    [{ lowerdirs := if packs = [] then [root ++ "/empty-lower"]
        else packMountpoints root packs.length
       upper := some (upper.path, work) }]
  | .dirsAndPacks topDirs packs mnt given _ =>
    [{ lowerdirs := topDirs.map (·.path) ++
        packMountpoints (scratchRoot given mnt ".dir-pack-stack") packs.length }]
  | .bindRo _ _ => []

/-- **No path that a composer is given can be misread.** -/
def Composer.PlainPaths : Composer → Prop
  | .stackRo packs mnt _ => packs.length ≤ 1 ∨ PlainLower mnt
  | .layeredRw _ upper overlayRoot mnt given _ =>
    PlainLower (given.getD mnt) ∧ PlainUpper upper.path ∧ PlainUpper overlayRoot
  | .kernelOverlay _ upper work mnt given _ =>
    PlainLower (given.getD mnt) ∧ PlainUpper upper.path ∧ PlainUpper work
  | .dirsAndPacks topDirs packs mnt given _ =>
    (∀ d ∈ topDirs, PlainLower d.path) ∧ (packs = [] ∨ PlainLower (given.getD mnt))
  | .bindRo _ _ => True

section Overlays

variable {h : Host} {s t : Machine} {packs : List PackInfo} {mnt root suffix : String}
  {preferKernel : Bool} {handle : MountHandle} {what : MountCommand} {argv : String → List String}
  {options : List MountHandle → OverlayOptions} {x : Lowers} {given : Option String}

def OverlayOptions.paths (o : OverlayOptions) : OverlayPaths where
  lowerdirs := o.lowerdirs.map (·.path)
  upper := o.upper.map fun u => (u.1.path, u.2)

theorem text_paths (o : OverlayOptions) : o.text = o.paths.text := by
  cases o with
  | mk lowers upper =>
    cases upper with
    | none => rfl
    | some u => rfl

theorem optionTextsOf_concat (handles : List MountHandle) (handle : MountHandle) :
    optionTextsOf (handles ++ [handle]) = optionTextsOf handles ++ handle.optionTexts := by
  induction handles with
  | nil => simp only [List.nil_append, optionTextsOf, List.append_nil]
  | cons first handles ih =>
    rw [List.cons_append, optionTextsOf, ih, optionTextsOf, List.append_assoc]

/-- The packs are mounted without an overlay. -/
theorem mountEach_optionTexts (h : Host) (preferKernel : Bool) (root : String) (idx : Nat)
    (packs : List PackInfo) (handles : List MountHandle) (s : Machine) :
    optionTextsOf (mountEach h preferKernel root idx packs handles s).handles =
      optionTextsOf handles := by
  induction packs generalizing idx handles s with
  | nil => rfl
  | cons pack packs ih =>
    unfold mountEach
    cases hmount : mountRo h preferKernel pack.path (lowerMnt root idx) s with
    | mk t answer =>
      cases answer with
      | error e => rfl
      | ok handle =>
        obtain ⟨cmd, rfl⟩ := mountRo_ok hmount
        dsimp only
        rw [ih, optionTextsOf_concat]
        exact List.append_nil _

theorem lowerDirs_path (packTree : String → Layer) (root : String) (idx : Nat)
    (packs : List PackInfo) :
    (lowerDirs packTree root idx packs).map (·.path) =
      (List.range' idx packs.length).map (lowerMnt root) := by
  induction packs generalizing idx with
  | nil => rfl
  | cons pack packs ih =>
    rw [List.length_cons, List.range'_succ, List.map_cons, ← ih (idx + 1)]
    rfl

theorem dirsReversed_path (hok : (mountEach h preferKernel root 0 packs [] s).error = none) :
    (dirsReversed (mountEach h preferKernel root 0 packs [] s).handles).map (·.path) =
      packMountpoints root packs.length := by
  rw [dirsReversed_of_mountEach hok, List.map_reverse, lowerDirs_path]
  rfl

/-- The texts of an overlay: its own, and the ones below. -/
theorem mountOverlay_optionTexts
    (hok : mountOverlay h what argv mnt root options x = (t, .ok handle)) :
    handle.optionTexts = (options x.handles).paths.text :: optionTextsOf x.handles := by
  obtain ⟨-, rfl⟩ := mountOverlay_ok hok
  rw [← text_paths]
  rfl

theorem mountStackRo_path (hok : mountStackRo h packs mnt preferKernel s = (t, .ok handle)) :
    handle.dir.path = mnt := by
  have horder := mountStackRo_order hok
  have hhead : (stackMountpoints mnt packs.length).head? = some mnt := by
    unfold stackMountpoints
    split
    · rfl
    · rfl
  rw [← horder] at hhead
  cases handle with
  | mk dir command options mounted lowers stackRoot => exact Option.some.inj hhead

theorem mountStackRo_optionTexts
    (hok : mountStackRo h packs mnt preferKernel s = (t, .ok handle)) :
    handle.optionTexts = (stackOverlays mnt packs).map OverlayPaths.text := by
  unfold mountStackRo at hok
  match packs, hok with
  | [], hok => cases congrArg Prod.snd hok
  | [pack], hok =>
    obtain ⟨cmd, rfl⟩ := mountRo_ok hok
    rfl
  | p₁ :: p₂ :: rest, hok =>
    dsimp only at hok
    cases hwhich : h.which s.commands .fuseOverlayfs with
    | none =>
      rw [hwhich] at hok
      cases congrArg Prod.snd hok
    | some fuseOverlayfs =>
      rw [hwhich] at hok
      have hnone := (mountOverlay_ok hok).1
      have hseveral : ¬ (p₁ :: p₂ :: rest).length ≤ 1 := by simp
      rw [mountOverlay_optionTexts hok, mountEach_optionTexts, stackOverlays, if_neg hseveral]
      unfold OverlayOptions.paths
      dsimp only
      rw [dirsReversed_path hnone]
      rfl

theorem mountLayeredRw_optionTexts {upper : Directory} {overlayRoot : String}
    (hok : mountLayeredRw h packs upper overlayRoot mnt given preferKernel s = (t, .ok handle)) :
    handle.optionTexts =
      (Composer.layeredRw packs upper overlayRoot mnt given preferKernel).overlays.map
        OverlayPaths.text := by
  unfold mountLayeredRw at hok
  cases hwhich : h.which s.commands .fuseOverlayfs with
  | none =>
    rw [hwhich] at hok
    cases congrArg Prod.snd hok
  | some fuseOverlayfs =>
    rw [hwhich] at hok
    dsimp only at hok
    by_cases hempty : packs = []
    · subst hempty
      exact mountOverlay_optionTexts hok
    · rw [if_neg hempty] at hok
      cases hstack : mountStackRo h packs (scratchRoot given mnt ".rw-stack" ++ "/lower")
          preferKernel (s.makeScratch (scratchRoot given mnt ".rw-stack")) with
      | mk u answer =>
        rw [hstack] at hok
        cases answer with
        | error e => cases congrArg Prod.snd hok
        | ok below =>
          have hbelow : optionTextsOf [below] =
              (stackOverlays (scratchRoot given mnt ".rw-stack" ++ "/lower") packs).map
                OverlayPaths.text := by
            rw [← mountStackRo_optionTexts hstack]
            exact List.append_nil _
          rw [mountOverlay_optionTexts hok]
          unfold OverlayOptions.paths Composer.overlays
          dsimp only
          rw [if_neg hempty, if_neg hempty, hbelow, List.map_singleton, List.map_singleton,
            mountStackRo_path hstack]
          rfl

theorem mountLayeredRwKernelOverlay_optionTexts {upper : Directory} {work : String}
    (hok : mountLayeredRwKernelOverlay h packs upper work mnt given preferKernel s =
      (t, .ok handle)) :
    handle.optionTexts =
      (Composer.kernelOverlay packs upper work mnt given preferKernel).overlays.map
        OverlayPaths.text := by
  unfold mountLayeredRwKernelOverlay at hok
  cases hwhich : h.which s.commands .mount with
  | none =>
    rw [hwhich] at hok
    cases congrArg Prod.snd hok
  | some mountBin =>
    rw [hwhich] at hok
    have hnone := (mountOverlay_ok hok).1
    rw [mountOverlay_optionTexts hok, mountEach_optionTexts]
    unfold OverlayOptions.paths Composer.overlays
    dsimp only
    by_cases hempty : packs = []
    · subst hempty
      rfl
    · rw [if_neg hempty, if_neg hempty, dirsReversed_path hnone]
      rfl

theorem mountDirsAndPacksRo_optionTexts {topDirs : List Directory}
    (hok : mountDirsAndPacksRo h topDirs packs mnt given preferKernel s = (t, .ok handle)) :
    (topDirs ≠ [] ∨ packs ≠ []) ∧ handle.optionTexts =
      (Composer.dirsAndPacks topDirs packs mnt given preferKernel).overlays.map
        OverlayPaths.text := by
  unfold mountDirsAndPacksRo at hok
  cases hwhich : h.which s.commands .fuseOverlayfs with
  | none =>
    rw [hwhich] at hok
    cases congrArg Prod.snd hok
  | some fuseOverlayfs =>
    rw [hwhich] at hok
    dsimp only at hok
    by_cases hempty : topDirs = [] ∧ packs = []
    · rw [if_pos hempty] at hok
      cases (mountOverlay_ok hok).1
    · rw [if_neg hempty] at hok
      have hnone := (mountOverlay_ok hok).1
      refine ⟨not_and_or.mp hempty, ?_⟩
      rw [mountOverlay_optionTexts hok, mountEach_optionTexts]
      unfold OverlayOptions.paths Composer.overlays
      dsimp only
      rw [List.map_append, dirsReversed_path hnone]
      rfl

theorem compose_optionTexts {c : Composer} (hok : compose h s c = (t, .ok handle)) :
    handle.optionTexts = c.overlays.map OverlayPaths.text := by
  cases c with
  | stackRo => exact mountStackRo_optionTexts hok
  | layeredRw => exact mountLayeredRw_optionTexts hok
  | kernelOverlay => exact mountLayeredRwKernelOverlay_optionTexts hok
  | dirsAndPacks => exact (mountDirsAndPacksRo_optionTexts hok).2
  | bindRo =>
    obtain ⟨cmd, rfl⟩ := mountBindRo_ok hok
    rfl

theorem mem_packMountpoints {p : String} {count : Nat} :
    p ∈ packMountpoints root count ↔ ∃ idx < count, lowerMnt root idx = p := by
  unfold packMountpoints
  simp [List.mem_range'_1]

theorem packMountpoints_ne_nil {count : Nat} (hcount : count ≠ 0) :
    packMountpoints root count ≠ [] :=
  List.ne_nil_of_mem (mem_packMountpoints.mpr ⟨0, Nat.pos_of_ne_zero hcount, rfl⟩)

theorem mem_stackOverlays {o : OverlayPaths} : o ∈ stackOverlays mnt packs ↔
    1 < packs.length ∧ o = { lowerdirs := packMountpoints (stackRoot mnt) packs.length } := by
  unfold stackOverlays
  by_cases hcount : packs.length ≤ 1
  · rw [if_pos hcount]
    exact ⟨fun hmem => absurd hmem List.not_mem_nil, fun h => absurd hcount (Nat.not_le.mpr h.1)⟩
  · rw [if_neg hcount, List.mem_singleton]
    exact ⟨fun h => ⟨Nat.not_le.mp hcount, h⟩, fun h => h.2⟩

/-- An overlay that is mounted has a lower directory. -/
theorem overlays_ne_nil {c : Composer} (hok : compose h s c = (t, .ok handle)) :
    ∀ o ∈ c.overlays, o.lowerdirs ≠ [] := by
  have hstack : ∀ {mnt : String} {packs : List PackInfo}, ∀ o ∈ stackOverlays mnt packs,
      o.lowerdirs ≠ [] := by
    intro mnt packs o ho
    obtain ⟨hcount, rfl⟩ := mem_stackOverlays.mp ho
    exact packMountpoints_ne_nil (by omega)
  cases c with
  | stackRo packs mnt preferKernel => exact hstack
  | layeredRw packs upper overlayRoot mnt given preferKernel =>
    intro o ho
    rcases List.mem_cons.mp ho with rfl | ho
    · exact List.cons_ne_nil _ _
    · exact hstack o ho
  | kernelOverlay packs upper work mnt given preferKernel =>
    intro o ho
    obtain rfl := List.mem_singleton.mp ho
    dsimp only
    by_cases hempty : packs = []
    · rw [if_pos hempty]
      exact List.cons_ne_nil _ _
    · rw [if_neg hempty]
      exact packMountpoints_ne_nil fun hzero => hempty (List.length_eq_zero_iff.mp hzero)
  | dirsAndPacks topDirs packs mnt given preferKernel =>
    intro o ho
    obtain rfl := List.mem_singleton.mp ho
    rcases (mountDirsAndPacksRo_optionTexts hok).1 with htop | hpacks
    · exact List.append_ne_nil_of_left_ne_nil (by simpa using htop) _
    · exact List.append_ne_nil_of_right_ne_nil _
        (packMountpoints_ne_nil fun hzero => hpacks (List.length_eq_zero_iff.mp hzero))
  | bindRo => exact fun o ho => absurd ho List.not_mem_nil

/-! ## 4. When the paths are plain -/

theorem plainLower_append {b : String} (hb : HoldsNone [':', ',', '\\'] b.toList) (a : String) :
    PlainLower (a ++ b) ↔ PlainLower a := by
  unfold PlainLower
  rw [String.toList_append, holdsNone_append_right hb]

theorem plainUpper_append {b : String} (hb : HoldsNone [',', '\\'] b.toList) (a : String) :
    PlainUpper (a ++ b) ↔ PlainUpper a := by
  unfold PlainUpper
  rw [String.toList_append, holdsNone_append_right hb]

theorem plainLower_lowerMnt (root : String) (idx : Nat) :
    PlainLower (lowerMnt root idx) ↔ PlainLower root := by
  have hdigits : HoldsNone [':', ',', '\\'] (pad4 idx).toList := by
    have hnone : ∀ c ∈ [':', ',', '\\'], c.isDigit = false := by
      simp only [List.forall_mem_cons, List.not_mem_nil, false_imp_iff, implies_true, and_true]
      decide
    intro c hc hmem
    have hdigit := isDigit_of_mem_pad4 hmem
    rw [hnone c hc] at hdigit
    cases hdigit
  have hlowers : HoldsNone [':', ',', '\\'] "/lowers/".toList := by
    unfold HoldsNone
    simp
  unfold lowerMnt
  rw [plainLower_append hdigits, plainLower_append hlowers]

/-- A directory beside the mountpoint. -/
theorem plainLower_beside (hsuffix : HoldsNone [':', ',', '\\'] suffix.toList) (mnt : String) :
    PlainLower (pathJoin (pathParent mnt) ("." ++ pathName mnt ++ suffix)) ↔ PlainLower mnt := by
  have hmnt : mnt.toList.reverse = mnt.toList.reverse.takeWhile (· ≠ '/') ++
      mnt.toList.reverse.dropWhile (· ≠ '/') := List.takeWhile_append_dropWhile.symm
  have hslash : HoldsNone [':', ',', '\\'] "/".toList := by
    unfold HoldsNone
    simp
  have hdot : HoldsNone [':', ',', '\\'] ".".toList := by
    unfold HoldsNone
    simp
  have hparent : HoldsNone [':', ',', '\\'] (pathParent mnt).toList ↔
      HoldsNone [':', ',', '\\'] (mnt.toList.reverse.dropWhile (· ≠ '/')) := by
    unfold pathParent
    rw [String.toList_ofList, holdsNone_reverse]
    cases hdrop : mnt.toList.reverse.dropWhile (· ≠ '/') with
    | nil => rfl
    | cons c rest =>
      have hc : c = '/' := by
        have hhead := List.head?_dropWhile_not (· ≠ '/') mnt.toList.reverse
        rw [hdrop] at hhead
        simpa using hhead
      rw [hc]
      exact (holdsNone_append_left (a := ['/']) hslash).symm
  have hname : HoldsNone [':', ',', '\\'] (pathName mnt).toList ↔
      HoldsNone [':', ',', '\\'] (mnt.toList.reverse.takeWhile (· ≠ '/')) := by
    unfold pathName
    rw [String.toList_ofList, holdsNone_reverse]
  unfold pathJoin PlainLower
  rw [String.toList_append, String.toList_append, String.toList_append, String.toList_append,
    holdsNone_append, holdsNone_append_right hslash, holdsNone_append_right hsuffix,
    holdsNone_append_left hdot, hparent, hname, ← holdsNone_reverse (a := mnt.toList), hmnt,
    holdsNone_append, and_comm, ← hmnt]

theorem plainLower_scratchRoot (hsuffix : HoldsNone [':', ',', '\\'] suffix.toList)
    (given : Option String) (mnt : String) :
    PlainLower (scratchRoot given mnt suffix) ↔ PlainLower (given.getD mnt) := by
  cases given with
  | none => exact plainLower_beside hsuffix mnt
  | some root => exact Iff.rfl

/-- The mountpoints of packs, of which there is one. -/
theorem plainLower_packMountpoints {count : Nat} (hcount : count ≠ 0) (root : String) :
    (∀ p ∈ packMountpoints root count, PlainLower p) ↔ PlainLower root := by
  refine ⟨fun h => ?_, fun h p hp => ?_⟩
  · exact (plainLower_lowerMnt root 0).mp
      (h _ (mem_packMountpoints.mpr ⟨0, Nat.pos_of_ne_zero hcount, rfl⟩))
  · obtain ⟨idx, -, rfl⟩ := mem_packMountpoints.mp hp
    exact (plainLower_lowerMnt root idx).mpr h

theorem stackOverlays_plain_iff (mnt : String) (packs : List PackInfo) :
    (∀ o ∈ stackOverlays mnt packs, o.Plain) ↔ packs.length ≤ 1 ∨ PlainLower mnt := by
  have hsuffix : HoldsNone [':', ',', '\\'] ".stack".toList := by
    unfold HoldsNone
    simp
  by_cases hcount : packs.length ≤ 1
  · refine iff_of_true (fun o ho => ?_) (.inl hcount)
    exact absurd hcount (Nat.not_le.mpr (mem_stackOverlays.mp ho).1)
  · have hsome : packs.length ≠ 0 := by omega
    have hroot := plainLower_packMountpoints hsome (stackRoot mnt)
    have hmnt : PlainLower (stackRoot mnt) ↔ PlainLower mnt := plainLower_beside hsuffix mnt
    rw [or_iff_right hcount, ← hmnt, ← hroot]
    refine ⟨fun h => (h _ (mem_stackOverlays.mpr ⟨Nat.not_le.mp hcount, rfl⟩)).lowerdirs,
      fun h o ho => ?_⟩
    obtain ⟨-, rfl⟩ := mem_stackOverlays.mp ho
    exact ⟨h, fun u hu => absurd hu (Option.not_mem_none u)⟩

/-- An overlay with an upper. -/
theorem plain_upper_iff {lowerdirs : List String} {upper work : String} :
    OverlayPaths.Plain { lowerdirs := lowerdirs, upper := some (upper, work) } ↔
      (∀ p ∈ lowerdirs, PlainLower p) ∧ PlainUpper upper ∧ PlainUpper work := by
  refine ⟨fun h => ⟨h.lowerdirs, h.upper _ (Option.mem_some_self _)⟩,
    fun h => ⟨h.1, fun u hu => ?_⟩⟩
  obtain rfl := Option.mem_some.mp hu
  exact h.2

/-- **The overlays of a composer are plain** exactly when the paths it is given are. -/
theorem overlays_plain_iff (c : Composer) : (∀ o ∈ c.overlays, o.Plain) ↔ c.PlainPaths := by
  have hnone : ∀ text ∈
      [".rw-stack", ".kernel-rw-stack", ".dir-pack-stack", "/empty-lower", "/lower"],
      HoldsNone [':', ',', '\\'] text.toList := by
    unfold HoldsNone
    simp
  have hwork : HoldsNone [',', '\\'] "work".toList := by
    unfold HoldsNone
    simp
  have hslash : HoldsNone [',', '\\'] "/".toList := by
    unfold HoldsNone
    simp
  cases c with
  | stackRo packs mnt preferKernel => exact stackOverlays_plain_iff mnt packs
  | layeredRw packs upper overlayRoot mnt given preferKernel =>
    have hroot := plainLower_scratchRoot (hnone ".rw-stack" (by decide)) given mnt
    have hlower := (plainLower_append (hnone "/lower" (by decide))
      (scratchRoot given mnt ".rw-stack")).trans hroot
    have hempty := (plainLower_append (hnone "/empty-lower" (by decide))
      (scratchRoot given mnt ".rw-stack")).trans hroot
    have hupper : PlainUpper (pathJoin overlayRoot "work") ↔ PlainUpper overlayRoot :=
      (plainUpper_append hwork _).trans (plainUpper_append hslash _)
    unfold Composer.overlays Composer.PlainPaths
    dsimp only
    rw [List.forall_mem_cons, plain_upper_iff, List.forall_mem_singleton, stackOverlays_plain_iff,
      hupper, hlower]
    by_cases hpacks : packs = []
    · rw [if_pos hpacks, hempty]
      refine and_iff_left (.inl ?_)
      rw [hpacks]
      exact Nat.zero_le 1
    · rw [if_neg hpacks, hlower]
      exact ⟨fun h => h.1, fun h => ⟨h, .inr h.1⟩⟩
  | kernelOverlay packs upper work mnt given preferKernel =>
    have hroot := plainLower_scratchRoot (hnone ".kernel-rw-stack" (by decide)) given mnt
    have hempty := (plainLower_append (hnone "/empty-lower" (by decide))
      (scratchRoot given mnt ".kernel-rw-stack")).trans hroot
    unfold Composer.overlays Composer.PlainPaths
    dsimp only
    rw [List.forall_mem_singleton, plain_upper_iff]
    by_cases hpacks : packs = []
    · rw [if_pos hpacks, List.forall_mem_singleton, hempty]
    · have hcount : packs.length ≠ 0 := fun hzero => hpacks (List.length_eq_zero_iff.mp hzero)
      rw [if_neg hpacks, plainLower_packMountpoints hcount, hroot]
  | dirsAndPacks topDirs packs mnt given preferKernel =>
    have hroot := plainLower_scratchRoot (hnone ".dir-pack-stack" (by decide)) given mnt
    have hlowerdirs : ∀ lowerdirs : List String, OverlayPaths.Plain { lowerdirs := lowerdirs } ↔
        ∀ p ∈ lowerdirs, PlainLower p :=
      fun lowerdirs => ⟨fun h => h.lowerdirs,
        fun h => ⟨h, fun u hu => absurd hu (Option.not_mem_none u)⟩⟩
    unfold Composer.overlays Composer.PlainPaths
    dsimp only
    rw [List.forall_mem_singleton, hlowerdirs, List.forall_mem_append, List.forall_mem_map]
    refine and_congr_right fun _ => ?_
    by_cases hpacks : packs = []
    · subst hpacks
      exact iff_of_true (fun p hp => absurd hp List.not_mem_nil) (.inl rfl)
    · have hcount : packs.length ≠ 0 := fun hzero => hpacks (List.length_eq_zero_iff.mp hzero)
      rw [or_iff_right hpacks, plainLower_packMountpoints hcount, hroot]
  | bindRo source mnt => exact iff_of_true (fun o ho => absurd ho List.not_mem_nil) trivial

/-- **The options of a mount are read as they are meant** -- its overlays, in their order, with the
    lower directories, the upper and the work directory that the composer has to put there --
    exactly when no path it was given holds a comma or a backslash, or a colon where a lower
    directory is below it. -/
theorem compose_readsIntended_iff {c : Composer} (hok : compose h s c = (t, .ok handle)) :
    handle.optionTexts.map readOptions = c.overlays.map OverlayPaths.meant ↔ c.PlainPaths := by
  rw [compose_optionTexts hok, List.map_map, List.map_inj_left, ← overlays_plain_iff]
  exact forall₂_congr fun o ho => readOptions_text_iff (overlays_ne_nil hok o ho)

end Overlays

theorem twoBelow_readsIntended : ∃ t handle,
    compose (readyHost oldDeleted) {} twoBelow = (t, .ok handle) ∧
      handle.optionTexts.map readOptions = twoBelow.overlays.map OverlayPaths.meant := by
  refine ⟨_, _, rfl, (compose_readsIntended_iff (h := readyHost oldDeleted) rfl).mpr ?_⟩
  unfold twoBelow Composer.PlainPaths PlainLower PlainUpper HoldsNone
  simp

/-- Below a mountpoint with a colon, other directories are named. -/
theorem colon_misread : ¬ ∀ (h : Host) (s t : Machine) (c : Composer) (handle : MountHandle),
    compose h s c = (t, .ok handle) →
      handle.optionTexts.map readOptions = c.overlays.map OverlayPaths.meant := by
  intro hall
  have hread := hall (readyHost oldDeleted) {} _
    (.stackRo [deletesOld, deletesOld] "/runs/10:30" false) _ rfl
  revert hread
  decide +kernel

end CccStorage.Composers
