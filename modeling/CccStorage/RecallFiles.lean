/-
  File:      CccStorage/RecallFiles.lean
  Subject:   `recall_cold_storage_packs` (`ccc_storage_cold/archive.py`) file by file: temporaries,
             verification, `os.replace`, and the cleanup when it raises.

  * `RecallWorld`, `recallFiles` -- the hot directory with its directories, and the two loops;
  * `AllOrNothing` -- it raises before anything is published and leaves all as it was, or returns
    with every pack verified and in its place;
  * `downloadPacks_spec`, `replacePacks_spec` -- what the loops leave;
  * `recall_allOrNothing_iff` -- it is all or nothing unless a directory is in the way;
  * `directoryInTheWay` -- a recall that publishes one pack of two.

  Hot directories and manifests are apart: `hot_pack_dir` is under `packs`, manifests are under
  `registry`.
-/
import CccStorage.ColdRuns

namespace CccStorage

/-! ## 1. The call -/

inductive HotEntry where
  | file (content : Bytes)
  | dir
  deriving DecidableEq

/-- The files of a node: finitely many paths exist. -/
structure HotFiles where
  entry : String → Option HotEntry
  finite : {path | entry path ≠ none}.Finite

def HotFiles.set (files : HotFiles) (path : String) (c : Option HotEntry) : HotFiles where
  entry := Function.update files.entry path c
  finite := by
    refine (files.finite.insert path).subset fun p hp => ?_
    by_cases h : p = path
    · exact .inl h
    · refine .inr ?_
      rwa [Set.mem_ofPred_eq, Function.update_of_ne h] at hp

@[simp] theorem HotFiles.set_self (files : HotFiles) (path : String) (c : Option HotEntry) :
    (files.set path c).entry path = c :=
  Function.update_self ..

theorem HotFiles.set_of_ne {path p : String} (h : p ≠ path) (files : HotFiles)
    (c : Option HotEntry) : (files.set path c).entry p = files.entry p :=
  Function.update_of_ne h ..

structure RecallWorld where
  disk : ChildManifest
  /-- The hot directory, what is in it, and everything else. -/
  files : HotFiles
  store : String → Option Bytes

/-- `tempfile.mkstemp`: what it may name in a directory, and the text it picks. -/
structure TempNames where
  fits : String → Bool
  random : HotFiles → String → String → String

/-- `prefix + random + suffix`. -/
def tempName (name random : String) : String := "." ++ name ++ "." ++ random ++ ".tmp"

def TempNames.path (T : TempNames) (hotDir : String) (files : HotFiles) (name : String) : String :=
  pathJoin hotDir (tempName name (T.random files hotDir name))

inductive RecallFailure where
  | cold (e : ColdError)
  /-- `mkdir`, `mkstemp` or `os.replace` raises. -/
  | osError (path : String)
  deriving DecidableEq

/-- Where a recall raises. -/
inductive RecallStage where
  | prepare
  | download
  | publish
  deriving DecidableEq

/-- `os.replace` onto this name fails: `out_dir` itself, its parent, or a directory. -/
def isDirectory (files : HotFiles) (hotDir name : String) : Prop :=
  name ∈ ["", ".", ".."] ∨ files.entry (pathJoin hotDir name) = some .dir

instance (files : HotFiles) (hotDir name : String) :
    Decidable (isDirectory files hotDir name) :=
  inferInstanceAs (Decidable (name ∈ ["", ".", ".."] ∨
    files.entry (pathJoin hotDir name) = some .dir))

/-- What the first loop leaves: the files, `temps`, and the staged temporaries with their packs. -/
structure Downloaded where
  files : HotFiles
  temps : List String
  staged : Except RecallFailure (List (String × PackInfo))

section Operations

variable (T : TempNames) (sha256 : Bytes → String)

/-- The first loop: a temporary for each pack, the download, and its verification. -/
def downloadPacks (uri hotDir : String) (store : String → Option Bytes) :
    List PackInfo → HotFiles → List String → Downloaded
  | [], files, temps => ⟨files, temps, .ok []⟩
  | pack :: packs, files, temps =>
    let key := packKey uri pack
    let tmp := T.path hotDir files (pathName pack.path)
    if !T.fits (pathName pack.path) then ⟨files, temps, .error (.osError tmp)⟩
    else
      match store key with
      | none =>
        ⟨files.set tmp (some (.file [])), temps ++ [tmp],
          .error (.cold (.objectNotFound key))⟩
      | some b =>
        let files := files.set tmp (some (.file b))
        if sha256 b ≠ pack.sha256 ∨ b.length ≠ pack.size then
          ⟨files, temps ++ [tmp], .error (.cold (.verificationFailed key))⟩
        else
          let rest := downloadPacks uri hotDir store packs files (temps ++ [tmp])
          ⟨rest.files, rest.temps, rest.staged.map ((tmp, pack) :: ·)⟩

/-- The second loop: `os.replace` of every temporary onto its place. -/
def replacePacks (hotDir : String) :
    List (String × PackInfo) → HotFiles → List String →
      HotFiles × List String × Except RecallFailure Unit
  | [], files, temps => (files, temps, .ok ())
  | (tmp, pack) :: staged, files, temps =>
    let final := pathJoin hotDir (pathName pack.path)
    match files.entry tmp with
    | some (.file b) =>
      if isDirectory files hotDir (pathName pack.path) then
        (files, temps, .error (.osError final))
      else
        replacePacks hotDir staged
          ((files.set tmp none).set final (some (.file b)))
          (temps.erase tmp)
    | _ => (files, temps, .error (.osError tmp))

/-- `for tmp in temps: if tmp.exists(): tmp.unlink()`. -/
def removeTemps (temps : List String) (files : HotFiles) : HotFiles :=
  temps.foldl (fun files tmp => files.set tmp none) files

/-- **`recall_cold_storage_packs`.** -/
def recallFiles (manifest : ChildManifest) (hotDir stamp : String) (w : RecallWorld) :
    RecallWorld × Except (RecallStage × RecallFailure) ChildManifest :=
  if manifest.coldStorage.uri = "" then (w, .error (.prepare, .cold (.noUri manifest.id)))
  else
    match w.files.entry hotDir with
    | some (.file _) => (w, .error (.prepare, .osError hotDir))
    | _ =>
      let made := w.files.set hotDir (some .dir)
      let d := downloadPacks T sha256 manifest.coldStorage.uri hotDir w.store manifest.lowers made []
      match d.staged with
      | .error e => ({ w with files := removeTemps d.temps d.files }, .error (.download, e))
      | .ok staged =>
        match replacePacks hotDir staged d.files d.temps with
        | (files, temps, .error e) =>
          ({ w with files := removeTemps temps files }, .error (.publish, e))
        | (files, _, .ok ()) =>
          let recalled := recalledManifest manifest hotDir stamp
          ({ w with files := files, disk := recalled }, .ok recalled)

/-! ## 2. All or nothing -/

/-- The pack with another path. -/
def SamePack (p q : PackInfo) : Prop := { p with path := q.path } = q

/-- The path is a pack's place and holds a pack that passed verification. -/
def Holds (hotDir : String) (packs : List PackInfo) (files : HotFiles) (path : String) : Prop :=
  ∃ p ∈ packs, path = pathJoin hotDir (pathName p.path) ∧
    ∃ b, files.entry path = some (.file b) ∧ Matches sha256 p b

/-- **All or nothing**: the call raises before it publishes, and the manifest and every file are as
    they were; or it returns, every download was verified, the manifest on disk is hot with the same
    packs in the same order, only verified packs were published, and where the packs' names differ
    every listed path holds its pack. -/
def AllOrNothing (manifest : ChildManifest) (hotDir : String) (w : RecallWorld)
    (r : RecallWorld × Except (RecallStage × RecallFailure) ChildManifest) : Prop :=
  match r.2 with
  | .error (stage, _) => stage ≠ .publish ∧ r.1.disk = w.disk ∧
      ∀ path, path ≠ hotDir → r.1.files.entry path = w.files.entry path
  | .ok recalled => r.1.disk = recalled ∧ recalled.coldStorage.packState = PACK_STATE_HOT ∧
      List.Forall₂ SamePack manifest.lowers recalled.lowers ∧
      (∀ p ∈ manifest.lowers, ∃ b, w.store (packKey manifest.coldStorage.uri p) = some b ∧
        Matches sha256 p b) ∧
      (∀ path, path ≠ hotDir → r.1.files.entry path = w.files.entry path ∨
        Holds sha256 hotDir manifest.lowers r.1.files path) ∧
      (NamesDistinct manifest.lowers → ∀ p ∈ recalled.lowers, ∃ b,
        r.1.files.entry p.path = some (.file b) ∧ Matches sha256 p b)

/-- Everything can be downloaded and verified. -/
structure Downloads (manifest : ChildManifest) (hotDir : String) (w : RecallWorld) : Prop where
  uri : manifest.coldStorage.uri ≠ ""
  hotDir : ∀ b, w.files.entry hotDir ≠ some (.file b)
  packs : ∀ p ∈ manifest.lowers, T.fits (pathName p.path) = true ∧
    ∃ b, w.store (packKey manifest.coldStorage.uri p) = some b ∧ Matches sha256 p b

/-- No directory is in the way of a pack. -/
def NoneInTheWay (manifest : ChildManifest) (hotDir : String) (w : RecallWorld) : Prop :=
  ∀ p ∈ manifest.lowers, ¬ isDirectory w.files hotDir (pathName p.path)

end Operations

/-- No pack's name is that of a later pack's temporary. -/
def TempsApart (packs : List PackInfo) : Prop :=
  packs.Pairwise fun p q => ∀ random, pathName p.path ≠ tempName (pathName q.path) random

theorem head_tempName (name random : String) : (tempName name random).toList.head? = some '.' := by
  unfold tempName
  simp only [String.toList_append]
  rfl

/-! ## 3. The loops -/

section Specs

variable {T : TempNames} {sha256 : Bytes → String} {uri hotDir : String}
  {store : String → Option Bytes} {files : HotFiles} {temps : List String}
  {packs : List PackInfo}

/-- What `mkstemp` names does not exist. -/
def TempNames.Fresh (T : TempNames) : Prop :=
  ∀ (files : HotFiles) (hotDir name : String), files.entry (T.path hotDir files name) = none

theorem pathJoin_ne_self (d name : String) : pathJoin d name ≠ d := by
  unfold pathJoin
  intro h
  have hlen := congrArg (fun s : String => s.toList.length) h
  simp [String.toList_append] at hlen

/-- **What the first loop leaves**: new temporaries that did not exist, everything else as it was;
    and when it is through, every pack verified in its own temporary. -/
structure DownloadLeaves (sha256 : Bytes → String) (hotDir : String) (packs : List PackInfo)
    (files : HotFiles) (temps : List String) (d : Downloaded) (made : List String) : Prop where
  temps : d.temps = temps ++ made
  nodup : made.Nodup
  fresh : ∀ t ∈ made, files.entry t = none
  others : ∀ path, path ∉ made → d.files.entry path = files.entry path
  staged : ∀ staged, d.staged = .ok staged → staged.map (·.2) = packs ∧ staged.map (·.1) = made ∧
    ∀ x ∈ staged, (∃ random, x.1 = pathJoin hotDir (tempName (pathName x.2.path) random)) ∧
      ∃ b, d.files.entry x.1 = some (.file b) ∧ Matches sha256 x.2 b

theorem downloadPacks_spec (hT : T.Fresh) :
    ∃ made, DownloadLeaves sha256 hotDir packs files temps
      (downloadPacks T sha256 uri hotDir store packs files temps) made := by
  induction packs generalizing files temps with
  | nil =>
    refine ⟨[], (List.append_nil _).symm, List.nodup_nil, fun t ht => (List.not_mem_nil ht).elim,
      fun _ _ => rfl, fun staged hs => ?_⟩
    cases hs
    exact ⟨rfl, rfl, fun x hx => (List.not_mem_nil hx).elim⟩
  | cons pack packs ih =>
    have hfresh := hT files hotDir (pathName pack.path)
    have htemp : ∃ random, T.path hotDir files (pathName pack.path) =
        pathJoin hotDir (tempName (pathName pack.path) random) := ⟨_, rfl⟩
    unfold downloadPacks
    generalize T.path hotDir files (pathName pack.path) = tmp at hfresh htemp ⊢
    have hone : ∀ {c : HotEntry} {e : RecallFailure}, DownloadLeaves sha256 hotDir (pack :: packs)
        files temps ⟨files.set tmp (some c), temps ++ [tmp], .error e⟩ [tmp] := by
      refine fun {c e} => ⟨rfl, List.nodup_singleton _, fun t ht => ?_, fun path hp => ?_, nofun⟩
      · rw [List.mem_singleton.mp ht]
        exact hfresh
      · exact HotFiles.set_of_ne (fun he => hp (List.mem_singleton.mpr he)) ..
    simp only
    split
    · exact ⟨[], (List.append_nil _).symm, List.nodup_nil,
        fun t ht => (List.not_mem_nil ht).elim, fun _ _ => rfl, nofun⟩
    · split
      · exact ⟨[tmp], hone⟩
      · rename_i b hb
        split
        · exact ⟨[tmp], hone⟩
        · rename_i hok
          rw [not_or, not_ne_iff, not_ne_iff] at hok
          obtain ⟨made, hmade⟩ := @ih (files.set tmp (some (.file b))) (temps ++ [tmp])
          have hnot : tmp ∉ made := by
            intro hmem
            have hnone := hmade.fresh tmp hmem
            rw [HotFiles.set_self] at hnone
            cases hnone
          refine ⟨tmp :: made, ?_, List.nodup_cons.mpr ⟨hnot, hmade.nodup⟩, fun t ht => ?_,
            fun path hp => ?_, fun staged hs => ?_⟩
          · rw [hmade.temps, List.append_assoc]
            rfl
          · rcases List.mem_cons.mp ht with rfl | ht
            · exact hfresh
            · have hne : t ≠ tmp := fun he => hnot (he ▸ ht)
              have hnone := hmade.fresh t ht
              rw [HotFiles.set_of_ne hne] at hnone
              exact hnone
          · rw [List.mem_cons, not_or] at hp
            exact (hmade.others path hp.2).trans (HotFiles.set_of_ne hp.1 ..)
          · cases hrest : (downloadPacks T sha256 uri hotDir store packs
                (files.set tmp (some (.file b))) (temps ++ [tmp])).staged with
            | error e =>
              rw [hrest] at hs
              cases hs
            | ok rest =>
              rw [hrest] at hs
              cases hs
              obtain ⟨hpacks, htemps, hall⟩ := hmade.staged rest hrest
              refine ⟨by rw [List.map_cons, hpacks], by rw [List.map_cons, htemps], fun x hx => ?_⟩
              rcases List.mem_cons.mp hx with rfl | hx
              · exact ⟨htemp, b, (hmade.others _ hnot).trans (HotFiles.set_self ..), hok⟩
              · exact hall x hx

/-- **The first loop goes through** exactly when every pack can be downloaded and verified. -/
theorem downloadPacks_ok_iff :
    (∃ staged, (downloadPacks T sha256 uri hotDir store packs files temps).staged = .ok staged) ↔
      ∀ p ∈ packs, T.fits (pathName p.path) = true ∧
        ∃ b, store (packKey uri p) = some b ∧ Matches sha256 p b := by
  induction packs generalizing files temps with
  | nil => exact ⟨fun _ p hp => (List.not_mem_nil hp).elim, fun _ => ⟨[], rfl⟩⟩
  | cons pack packs ih =>
    rw [List.forall_mem_cons]
    unfold downloadPacks
    simp only
    split
    · rename_i hfits
      rw [Bool.not_eq_true', ] at hfits
      constructor
      · rintro ⟨staged, hs⟩
        cases hs
      · rintro ⟨⟨hpack, -⟩, -⟩
        rw [hfits] at hpack
        cases hpack
    · rename_i hfits
      rw [Bool.not_eq_true', Bool.not_eq_false] at hfits
      split
      · rename_i hnone
        constructor
        · rintro ⟨staged, hs⟩
          cases hs
        · rintro ⟨⟨-, b, hb, -⟩, -⟩
          rw [hnone] at hb
          cases hb
      · rename_i b hb
        split
        · rename_i hbad
          constructor
          · rintro ⟨staged, hs⟩
            cases hs
          · rintro ⟨⟨-, b', hb', hok⟩, -⟩
            rw [hb] at hb'
            cases hb'
            rcases hbad with hsha | hsize
            · exact (hsha hok.1).elim
            · exact (hsize hok.2).elim
        · rename_i hok
          rw [not_or, not_ne_iff, not_ne_iff] at hok
          have hmap : ∀ {x : String × PackInfo} {e : Except RecallFailure (List (String × PackInfo))},
              (∃ staged, e.map (x :: ·) = .ok staged) ↔ ∃ staged, e = .ok staged := by
            intro x e
            cases e with
            | error e => exact ⟨nofun, nofun⟩
            | ok l => exact ⟨fun _ => ⟨l, rfl⟩, fun _ => ⟨x :: l, rfl⟩⟩
          rw [hmap, ih]
          exact ⟨fun h => ⟨⟨hfits, b, hb, hok⟩, h⟩, fun h => h.2⟩

theorem removeTemps_apply (temps : List String) (files : HotFiles)
    (path : String) :
    (removeTemps temps files).entry path = if path ∈ temps then none else files.entry path := by
  unfold removeTemps
  induction temps generalizing files with
  | nil => rfl
  | cons t temps ih =>
    rw [List.foldl_cons, ih]
    by_cases hmem : path ∈ temps
    · rw [if_pos hmem, if_pos (List.mem_cons_of_mem _ hmem)]
    · rw [if_neg hmem]
      by_cases ht : path = t
      · rw [ht, HotFiles.set_self, if_pos List.mem_cons_self]
      · rw [HotFiles.set_of_ne ht, if_neg]
        rw [List.mem_cons, not_or]
        exact ⟨ht, hmem⟩

/-- **A directory in the way stops the second loop**, wherever it is. -/
theorem replacePacks_blocked {staged : List (String × PackInfo)} {x : String × PackInfo}
    (hx : x ∈ staged) (hdir : isDirectory files hotDir (pathName x.2.path)) :
    ∃ e, (replacePacks hotDir staged files temps).2.2 = .error e := by
  induction staged generalizing files temps with
  | nil => cases hx
  | cons y staged ih =>
    obtain ⟨tmp, pack⟩ := y
    unfold replacePacks
    simp only
    split
    · rename_i b htmp
      split
      · exact ⟨_, rfl⟩
      · rename_i hnot
        rcases List.mem_cons.mp hx with rfl | hx
        · exact (hnot hdir).elim
        · refine ih hx ?_
          rcases hdir with hname | hentry
          · exact .inl hname
          · refine .inr ?_
            have hfinal : pathJoin hotDir (pathName x.2.path) ≠
                pathJoin hotDir (pathName pack.path) := by
              intro he
              rw [he] at hentry
              exact hnot (.inr hentry)
            have htmpne : pathJoin hotDir (pathName x.2.path) ≠ tmp := by
              intro he
              rw [he, htmp] at hentry
              cases hentry
            rw [HotFiles.set_of_ne hfinal, HotFiles.set_of_ne htmpne]
            exact hentry
    · exact ⟨_, rfl⟩

/-- **What the second loop leaves**: nothing at the temporaries, everything else as it was or a
    verified pack, and every pack in its place when their names differ. -/
structure ReplaceLeaves (sha256 : Bytes → String) (hotDir : String)
    (staged : List (String × PackInfo)) (files : HotFiles)
    (r : HotFiles × List String × Except RecallFailure Unit) : Prop where
  result : r.2.2 = .ok ()
  others : ∀ path, (∀ x ∈ staged, path ≠ pathJoin hotDir (pathName x.2.path)) →
    path ∉ staged.map (·.1) → r.1.entry path = files.entry path
  verified : ∀ path, (r.1.entry path = if path ∈ staged.map (·.1) then none else files.entry path) ∨
    Holds sha256 hotDir (staged.map (·.2)) r.1 path
  places : NamesDistinct (staged.map (·.2)) → ∀ x ∈ staged, ∃ b,
    r.1.entry (pathJoin hotDir (pathName x.2.path)) = some (.file b) ∧ Matches sha256 x.2 b

/-- The second loop goes through when nothing is in the way and no place is a later temporary. -/
theorem replacePacks_spec {staged : List (String × PackInfo)}
    (htemps : (staged.map (·.1)).Nodup)
    (hstaged : ∀ x ∈ staged, ∃ b, files.entry x.1 = some (.file b) ∧ Matches sha256 x.2 b)
    (hapart : staged.Pairwise fun x y => pathJoin hotDir (pathName x.2.path) ≠ y.1)
    (hnone : ∀ x ∈ staged, ¬ isDirectory files hotDir (pathName x.2.path)) :
    ReplaceLeaves sha256 hotDir staged files (replacePacks hotDir staged files temps) := by
  induction staged generalizing files temps with
  | nil => exact ⟨rfl, fun _ _ _ => rfl, fun _ => .inl rfl,
      fun _ x hx => (List.not_mem_nil hx).elim⟩
  | cons y staged ih =>
    obtain ⟨tmp, pack⟩ := y
    obtain ⟨b, htmp, hok⟩ := hstaged (tmp, pack) List.mem_cons_self
    obtain ⟨hnotmem, htemps'⟩ := List.nodup_cons.mp htemps
    obtain ⟨hfinal, hapart'⟩ := List.pairwise_cons.mp hapart
    have hfree := hnone (tmp, pack) List.mem_cons_self
    simp only at htmp hok hnotmem hfinal hfree
    unfold replacePacks
    simp only [htmp, if_neg hfree]
    generalize hfin : pathJoin hotDir (pathName pack.path) = final at hfinal ⊢
    generalize hfiles : (files.set tmp none).set final
      (some (.file b)) = files'
    have hothers : ∀ path, path ≠ final → path ≠ tmp → files'.entry path = files.entry path := by
      intro path hf ht
      rw [← hfiles, HotFiles.set_of_ne hf, HotFiles.set_of_ne ht]
    have hstaged' : ∀ x ∈ staged, ∃ b, files'.entry x.1 = some (.file b) ∧ Matches sha256 x.2 b := by
      intro x hx
      have hne : x.1 ≠ tmp := fun he => hnotmem (he ▸ List.mem_map_of_mem hx)
      rw [hothers x.1 (hfinal x hx).symm hne]
      exact hstaged x (List.mem_cons_of_mem _ hx)
    have hnone' : ∀ x ∈ staged, ¬ isDirectory files' hotDir (pathName x.2.path) := by
      rintro x hx (hname | hdir)
      · exact hnone x (List.mem_cons_of_mem _ hx) (.inl hname)
      · by_cases hf : pathJoin hotDir (pathName x.2.path) = final
        · rw [hf, ← hfiles, HotFiles.set_self] at hdir
          cases hdir
        · by_cases ht : pathJoin hotDir (pathName x.2.path) = tmp
          · rw [← hfiles, HotFiles.set_of_ne hf, ht, HotFiles.set_self] at hdir
            cases hdir
          · rw [hothers _ hf ht] at hdir
            exact hnone x (List.mem_cons_of_mem _ hx) (.inr hdir)
    obtain ⟨hrun, hrest, hverified, hplaces⟩ := @ih files' (temps.erase tmp) htemps' hstaged'
      hapart' hnone'
    have hnotTemp : final ∉ staged.map (·.1) := by
      intro hmem
      obtain ⟨y, hy, he⟩ := List.mem_map.mp hmem
      exact hfinal y hy he.symm
    refine ⟨hrun, fun path hpath hnot => ?_, fun path => ?_, fun hd x hx => ?_⟩
    · rw [List.map_cons, List.mem_cons, not_or] at hnot
      rw [hrest path (fun x hx => hpath x (List.mem_cons_of_mem _ hx)) hnot.2]
      exact hothers path (hfin ▸ hpath (tmp, pack) List.mem_cons_self) hnot.1
    · rcases hverified path with heq | ⟨p, hp, hplace, hheld⟩
      · by_cases hf : path = final
        · have hlast : files'.entry path = some (.file b) := by
            rw [hf, ← hfiles, HotFiles.set_self]
          rw [if_neg (hf ▸ hnotTemp), hlast] at heq
          exact .inr ⟨pack, List.mem_cons_self, hf.trans hfin.symm, b, heq, hok⟩
        · refine .inl (heq.trans ?_)
          by_cases ht : path = tmp
          · have hmoved : files'.entry path = none := by
              rw [← hfiles, HotFiles.set_of_ne hf, ht, HotFiles.set_self]
            rw [hmoved, ite_self, List.map_cons, if_pos (List.mem_cons.mpr (.inl ht))]
          · rw [hothers path hf ht, List.map_cons]
            by_cases hmem : path ∈ staged.map (·.1)
            · rw [if_pos hmem, if_pos (List.mem_cons_of_mem _ hmem)]
            · rw [if_neg hmem, if_neg (fun h => (List.mem_cons.mp h).elim ht hmem)]
      · exact .inr ⟨p, List.mem_cons_of_mem _ hp, hplace, hheld⟩
    · rw [List.map_cons] at hd
      obtain ⟨hne, hd'⟩ := List.pairwise_cons.mp hd
      rcases List.mem_cons.mp hx with rfl | hx
      · refine ⟨b, ?_, hok⟩
        have hlast : ∀ y ∈ staged, final ≠ pathJoin hotDir (pathName y.2.path) := by
          intro y hy he
          exact hne y.2 (List.mem_map_of_mem hy) (pathJoin_inj (hfin.trans he))
        rw [show pathJoin hotDir (pathName (tmp, pack).2.path) = final from hfin,
          hrest final hlast hnotTemp, ← hfiles]
        exact HotFiles.set_self ..
      · exact hplaces hd' x hx

/-- The temporaries put no directory anywhere. -/
theorem DownloadLeaves.isDirectory_iff {d : Downloaded} {made : List String}
    (hd : DownloadLeaves sha256 hotDir packs files temps d made)
    {staged : List (String × PackInfo)} (hs : d.staged = .ok staged) (name : String) :
    isDirectory d.files hotDir name ↔ isDirectory files hotDir name := by
  unfold isDirectory
  refine or_congr_right ?_
  by_cases hmade : pathJoin hotDir name ∈ made
  · obtain ⟨-, htemps, hall⟩ := hd.staged staged hs
    rw [hd.fresh _ hmade]
    rw [← htemps] at hmade
    obtain ⟨x, hx, hpath⟩ := List.mem_map.mp hmade
    obtain ⟨-, b, hb, -⟩ := hall x hx
    rw [← hpath, hb]
    exact ⟨nofun, nofun⟩
  · rw [hd.others _ hmade]

/-- The hot directory itself is no place in it. -/
theorem isDirectory_made {c : Option HotEntry} (name : String) :
    isDirectory (files.set hotDir c) hotDir name ↔
      isDirectory files hotDir name := by
  unfold isDirectory
  rw [HotFiles.set_of_ne (pathJoin_ne_self hotDir name)]

/-- Removing the temporaries leaves everything as it was. -/
theorem DownloadLeaves.removeTemps {d : Downloaded} {made : List String}
    (hd : DownloadLeaves sha256 hotDir packs files [] d made) (path : String) :
    (removeTemps d.temps d.files).entry path = files.entry path := by
  rw [removeTemps_apply, hd.temps, List.nil_append]
  by_cases hmade : path ∈ made
  · rw [if_pos hmade, hd.fresh path hmade]
  · rw [if_neg hmade, hd.others path hmade]

/-! ## 4. The whole call -/

variable {manifest : ChildManifest} {stamp : String} {w : RecallWorld}

/-- **Recall is all or nothing exactly when no directory is in the way** of what it can download
    and verify. -/
theorem recall_allOrNothing_iff (hT : T.Fresh) (hapart : TempsApart manifest.lowers) :
    AllOrNothing sha256 manifest hotDir w (recallFiles T sha256 manifest hotDir stamp w) ↔
      (Downloads T sha256 manifest hotDir w → NoneInTheWay manifest hotDir w) := by
  unfold recallFiles
  by_cases huri : manifest.coldStorage.uri = ""
  · rw [if_pos huri]
    exact ⟨fun _ hd => (hd.uri huri).elim, fun _ => ⟨nofun, rfl, fun _ _ => rfl⟩⟩
  rw [if_neg huri]
  split
  · rename_i b hfile
    exact ⟨fun _ hd => (hd.hotDir b hfile).elim, fun _ => ⟨nofun, rfl, fun _ _ => rfl⟩⟩
  rename_i hnotFile
  generalize hmade : w.files.set hotDir (some .dir) = files
  have hothers : ∀ path, path ≠ hotDir → files.entry path = w.files.entry path := by
    intro path hpath
    rw [← hmade, HotFiles.set_of_ne hpath]
  have hdirs : ∀ name, isDirectory files hotDir name ↔ isDirectory w.files hotDir name := by
    intro name
    rw [← hmade]
    exact isDirectory_made name
  simp only
  generalize hrun : downloadPacks T sha256 manifest.coldStorage.uri hotDir w.store manifest.lowers
    files [] = d
  have hok : (∃ staged, d.staged = .ok staged) ↔ ∀ p ∈ manifest.lowers,
      T.fits (pathName p.path) = true ∧
      ∃ b, w.store (packKey manifest.coldStorage.uri p) = some b ∧ Matches sha256 p b := by
    rw [← hrun]
    exact downloadPacks_ok_iff
  have hleaves : ∃ made, DownloadLeaves sha256 hotDir manifest.lowers files [] d made := by
    rw [← hrun]
    exact downloadPacks_spec hT
  obtain ⟨temps, hd⟩ := hleaves
  cases hs : d.staged with
  | error e =>
    refine ⟨fun _ hall => ?_, fun _ => ⟨nofun, rfl, fun path hpath => ?_⟩⟩
    · obtain ⟨staged, hstaged⟩ := hok.mpr hall.packs
      rw [hs] at hstaged
      cases hstaged
    · exact (hd.removeTemps path).trans (hothers path hpath)
  | ok staged =>
    have hall : Downloads T sha256 manifest hotDir w :=
      ⟨huri, hnotFile, hok.mp ⟨staged, hs⟩⟩
    obtain ⟨hpacks, hmadeTemps, hstaged⟩ := hd.staged staged hs
    have hapart' : staged.Pairwise fun x y => pathJoin hotDir (pathName x.2.path) ≠ y.1 := by
      rw [← hpacks] at hapart
      refine (List.pairwise_map.mp hapart).imp_of_mem fun {x y} _ hy hxy he => ?_
      obtain ⟨⟨random, htemp⟩, -⟩ := hstaged y hy
      exact hxy random (pathJoin_inj (he.trans htemp))
    simp only
    by_cases hnone : NoneInTheWay manifest hotDir w
    · refine iff_of_true ?_ (fun _ => hnone)
      have hfree : ∀ x ∈ staged, ¬ isDirectory d.files hotDir (pathName x.2.path) := by
        intro x hx hdir
        have hp : x.2 ∈ manifest.lowers := hpacks ▸ List.mem_map_of_mem hx
        exact hnone x.2 hp ((hdirs _).mp ((hd.isDirectory_iff hs _).mp hdir))
      have hspec : ReplaceLeaves sha256 hotDir staged d.files
          (replacePacks hotDir staged d.files d.temps) :=
        replacePacks_spec (hmadeTemps ▸ hd.nodup) (fun x hx => (hstaged x hx).2) hapart' hfree
      generalize replacePacks hotDir staged d.files d.temps = replaced at hspec ⊢
      obtain ⟨files', temps', result⟩ := replaced
      obtain ⟨hrun, -, hverified, hplaces⟩ := hspec
      simp only at hrun hverified hplaces
      subst hrun
      refine ⟨rfl, rfl, ?_, fun p hp => (hall.packs p hp).2, fun path hpath => ?_,
        fun hnames p hp => ?_⟩
      · rw [recalledManifest_lowers, List.forall₂_map_right_iff, List.forall₂_same]
        exact fun _ _ => rfl
      · rw [← hpacks]
        refine (hverified path).imp_left fun heq => heq.trans ?_
        rw [hmadeTemps, ← hothers path hpath]
        by_cases hmade : path ∈ temps
        · rw [if_pos hmade, hd.fresh path hmade]
        · rw [if_neg hmade, hd.others path hmade]
      · rw [recalledManifest_lowers] at hp
        obtain ⟨q, hq, rfl⟩ := List.mem_map.mp hp
        rw [← hpacks] at hnames hq
        obtain ⟨x, hx, rfl⟩ := List.mem_map.mp hq
        exact hplaces hnames x hx
    · refine iff_of_false ?_ (fun h => hnone (h hall))
      unfold NoneInTheWay at hnone
      push Not at hnone
      obtain ⟨p, hp, hdir⟩ := hnone
      rw [← hpacks] at hp
      obtain ⟨x, hx, rfl⟩ := List.mem_map.mp hp
      have hblocked : ∃ e, (replacePacks hotDir staged d.files d.temps).2.2 = .error e :=
        replacePacks_blocked hx ((hd.isDirectory_iff hs _).mpr ((hdirs _).mpr hdir))
      generalize replacePacks hotDir staged d.files d.temps = replaced at hblocked ⊢
      obtain ⟨files', temps', result⟩ := replaced
      obtain ⟨e, he⟩ := hblocked
      simp only at he
      subst he
      exact fun h => h.1 rfl

end Specs

/-! ### Concrete recalls -/

/-- One of the texts that the directory does not have yet. -/
theorem HotFiles.exists_free (files : HotFiles) (hotDir name : String) : ∃ n,
    files.entry (pathJoin hotDir (tempName name (String.ofList (List.replicate n '_')))) = none := by
  have hinj : Function.Injective fun n : ℕ =>
      pathJoin hotDir (tempName name (String.ofList (List.replicate n '_'))) := by
    intro n k h
    have hlen := congrArg (fun s : String => s.toList.length) h
    simpa [pathJoin, tempName, String.toList_append] using hlen
  obtain ⟨path, ⟨n, rfl⟩, hfree⟩ :=
    (Set.infinite_range_of_injective hinj).exists_notMem_finite files.finite
  exact ⟨n, not_not.mp hfree⟩

/-- `mkstemp` that tries one text of eight characters first. -/
def plainTemps : TempNames where
  fits _ := true
  random files hotDir name :=
    if files.entry (pathJoin hotDir (tempName name "k3v9x_0a")) = none then "k3v9x_0a"
    else String.ofList (List.replicate (Nat.find (files.exists_free hotDir name)) '_')

theorem plainTemps_fresh : plainTemps.Fresh := by
  intro files hotDir name
  unfold TempNames.path plainTemps
  simp only
  split
  · assumption
  · exact Nat.find_spec (files.exists_free hotDir name)

/-- A cold child with a base pack and a delta pack. -/
def coldPair : ChildManifest where
  id := "env"
  name := "env"
  type := "environment"
  generation := 2
  packStack := {
    activeRevision := "g2"
    lowers := [
      { path := "/nfs/packs/env/delta.sqfs"
        sha256 := "53bff6664974960b06bcb260bd4b83494c04c71a62623bcadd7986c4d4adf3a1"
        size := 4 },
      { path := "/nfs/packs/env/base.sqfs"
        sha256 := "ac60402905d2656b9bd9f3ac355887f33b4d731089d22202c835b42ae96556dd"
        size := 8 }] }
  coldStorage := {
    uri := "children/env/g0002"
    packState := PACK_STATE_COLD }

/-- Both packs are in the store; the hot directory has an older `delta.sqfs` and, under the other
    name, what `base` says. -/
def recallWorld (base : Option HotEntry) : RecallWorld where
  disk := coldPair
  files := ((HotFiles.set ⟨fun _ => none, by simp⟩ "/hot" (some .dir)).set "/hot/delta.sqfs"
    (some (.file baseFile))).set "/hot/base.sqfs" base
  store := Function.update (Function.update (fun _ => none)
    "children/env/g0002/packs/delta.sqfs" (some deltaFile))
    "children/env/g0002/packs/base.sqfs" (some baseFile)

/-- Into a directory with two old files the recall is all or nothing. -/
theorem recall_allOrNothing_published : AllOrNothing packDigest coldPair "/hot"
    (recallWorld (some (.file deltaFile)))
    (recallFiles plainTemps packDigest coldPair "/hot" "t1"
      (recallWorld (some (.file deltaFile)))) := by
  have hapart : TempsApart coldPair.lowers := by
    refine List.pairwise_cons.mpr ⟨fun q hq random h => ?_, List.pairwise_singleton ..⟩
    have hhead := congrArg (fun s => s.toList.head?) h
    rw [head_tempName] at hhead
    revert hhead
    decide
  have hnone : NoneInTheWay coldPair "/hot" (recallWorld (some (.file deltaFile))) := by
    unfold NoneInTheWay
    decide +kernel
  exact (@recall_allOrNothing_iff plainTemps packDigest "/hot" coldPair "t1" _ plainTemps_fresh
    hapart).mpr fun _ => hnone

/-- **A directory in the way**: the delta pack is replaced, the base pack cannot be, and the recall
    raises with one pack of two published. -/
theorem directoryInTheWay :
    Downloads plainTemps packDigest coldPair "/hot" (recallWorld (some .dir)) ∧
    ¬ AllOrNothing packDigest coldPair "/hot" (recallWorld (some .dir))
      (recallFiles plainTemps packDigest coldPair "/hot" "t1" (recallWorld (some .dir))) ∧
    (recallWorld (some .dir)).files.entry "/hot/delta.sqfs" = some (.file baseFile) ∧
    (recallFiles plainTemps packDigest coldPair "/hot" "t1"
      (recallWorld (some .dir))).1.files.entry "/hot/delta.sqfs" = some (.file deltaFile) := by
  have hdir : (recallWorld (some .dir)).files.entry "/hot" = some .dir := by decide +kernel
  refine ⟨⟨by decide, fun b hb => ?_, fun p hp => ?_⟩, ?_, by decide +kernel, by decide +kernel⟩
  · rw [hdir] at hb
    cases hb
  · rcases List.mem_cons.mp hp with rfl | hp
    · exact ⟨rfl, deltaFile, by decide +kernel, rfl, rfl⟩
    · obtain rfl := List.mem_singleton.mp hp
      exact ⟨rfl, baseFile, by decide +kernel, rfl, rfl⟩
  · have hraises : (recallFiles plainTemps packDigest coldPair "/hot" "t1"
        (recallWorld (some .dir))).2 = .error (.publish, .osError "/hot/base.sqfs") := by
      decide +kernel
    unfold AllOrNothing
    rw [hraises]
    exact fun h => h.1 rfl

end CccStorage
