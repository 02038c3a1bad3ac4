/-
  File:      CccStorage/CompactionRaces.lean
  Subject:   `handle_compact` on one child by any number of callers, step by step.

  No compaction takes a lock. Each plans on the manifest it read, lets `mksquashfs` write the output
  file in place, inspects and verifies the file, and writes the manifest it planned on with the new
  pack. The output is named by the level and the generations of the selected packs, so callers that
  plan on one manifest write to one file.

  * `Compaction`, `compactionStep` -- the steps of a call; every step may fail instead;
  * `StackIntact` -- every listed pack is a file with the recorded digest and size;
  * `WritesFresh` -- no call writes to a file that is listed, or that another is about to list;
  * `compactions_intact` -- runs of such writes;
  * `secondWriter_damages` -- a call that writes once another has published.

  `run_background_compaction_once` calls `handle_compact` for one child after another.
-/
import CccStorage.ColdRuns

namespace CccStorage

/-! ## 1. The steps of a call -/

/-- Where a call is. -/
inductive Compaction where
  | idle
  /-- A candidate, planned on the manifest that was read. -/
  | planned (m : ChildManifest) (c : CompactionCandidate)
  /-- The selected packs are extracted and merged: `mksquashfs` runs. -/
  | building (m : ChildManifest) (c : CompactionCandidate)
  | built (m : ChildManifest) (c : CompactionCandidate)
  /-- `inspect_pack` has read the digest and the size. -/
  | inspected (m : ChildManifest) (c : CompactionCandidate) (pack : PackInfo)
  | verified (m : ChildManifest) (c : CompactionCandidate) (pack : PackInfo)
  | ended
  deriving DecidableEq

inductive CompactionAct where
  | plan (allowBase : Bool)
  | extract
  /-- What the output file holds by now. -/
  | write (content : Bytes)
  | finish
  | inspect (fileCount : Option Nat)
  | verify
  | publish
  /-- Any exception. What a builder wrote stays. -/
  | fail
  deriving DecidableEq

namespace Compaction

/-- The manifest a running call has read. -/
def manifest : Compaction → Option ChildManifest
  | .planned m _ | .building m _ | .built m _ | .inspected m _ _ | .verified m _ _ => some m
  | .idle | .ended => none

/-- The pack a call is about to list. -/
def listing : Compaction → Option PackInfo
  | .verified _ _ pack => some pack
  | _ => none

end Compaction

structure CompactionWorld where
  disk : ChildManifest
  files : String → Option Bytes
  calls : ℕ → Compaction

namespace CompactionWorld

def setCall (w : CompactionWorld) (i : ℕ) (c : Compaction) : CompactionWorld :=
  { w with calls := Function.update w.calls i c }

end CompactionWorld

section Steps

variable (sha256 : Bytes → String) (cfg : ℕ → NodeConfig)

def compactionOutput (i : ℕ) (m : ChildManifest) (c : CompactionCandidate) : String :=
  compactionOutputPath (cfg i).packDir m c.targetLevel c.packs

/-- **One step of a call.** -/
def compactionStep (w : CompactionWorld) (e : ℕ × CompactionAct) : Option CompactionWorld :=
  match w.calls e.1, e.2 with
  | .idle, .plan allowBase =>
    match runnableCandidate (cfg e.1).levelPolicy w.disk allowBase with
    | none => some (w.setCall e.1 .ended)
    | some c => some (w.setCall e.1 (.planned w.disk c))
  | .planned m c, .extract => some (w.setCall e.1 (.building m c))
  | .building m c, .write content =>
    some { w with files := Function.update w.files (compactionOutput cfg e.1 m c) (some content) }
  | .building m c, .finish => some (w.setCall e.1 (.built m c))
  | .built m c, .inspect fileCount =>
    match w.files (compactionOutput cfg e.1 m c) with
    | none => some (w.setCall e.1 .ended)
    | some content => some (w.setCall e.1 (.inspected m c (compactedPack (cfg e.1) m c
        { sha256 := sha256 content, size := content.length, fileCount := fileCount })))
  | .inspected m c pack, .verify =>
    match w.files pack.path with
    | none => some (w.setCall e.1 .ended)
    | some content =>
      if sha256 content = pack.sha256 ∧ content.length = pack.size then
        some (w.setCall e.1 (.verified m c pack))
      else some (w.setCall e.1 .ended)
  | .verified m c pack, .publish =>
    match mergedManifest m c pack with
    | none => some (w.setCall e.1 .ended)
    | some merged => some { w.setCall e.1 .ended with disk := merged }
  | .planned _ _, .fail | .building _ _, .fail | .built _ _, .fail | .inspected _ _ _, .fail
  | .verified _ _ _, .fail => some (w.setCall e.1 .ended)
  | _, _ => none

abbrev CompactionRuns : CompactionWorld → List (Lib.Trans CompactionWorld (ℕ × CompactionAct)) →
    CompactionWorld → Prop :=
  Lib.Run fun w e w' => compactionStep sha256 cfg w e = some w'

/-! ## 2. The law and the condition -/

/-- The file of a pack is intact. -/
def IntactFile (files : String → Option Bytes) (pack : PackInfo) : Prop :=
  ∃ b, files pack.path = some b ∧ Matches sha256 pack b

/-- **Every pack of the manifest on disk is intact.** -/
def StackIntact (w : CompactionWorld) : Prop := ∀ pack ∈ w.disk.lowers, IntactFile sha256 w.files pack

/-- A path that a write would damage: listed on disk or in the manifest that a running call has
    read, or about to be listed. -/
def Needed (w : CompactionWorld) (path : String) : Prop :=
  path ∈ w.disk.lowers.map (·.path) ∨
    ∃ i, (∃ m ∈ (w.calls i).manifest, path ∈ m.lowers.map (·.path)) ∨
      ∃ pack ∈ (w.calls i).listing, path = pack.path

/-- **The condition**: `mksquashfs` writes to a file that nothing needs. -/
def WritesFresh (w : CompactionWorld) (e : ℕ × CompactionAct) : Prop :=
  match w.calls e.1, e.2 with
  | .building m c, .write _ => ¬ Needed w (compactionOutput cfg e.1 m c)
  | _, _ => True

/-- What holds of a running call: the packs of the manifest it read are intact, and so is the pack it
    is about to list. -/
def CallIntact (files : String → Option Bytes) : Compaction → Prop
  | .idle | .ended => True
  | .planned m c | .building m c | .built m c =>
    (∃ pre, m.lowers = pre ++ c.packs) ∧ ∀ pack ∈ m.lowers, IntactFile sha256 files pack
  | .inspected m c new => (∃ pre, m.lowers = pre ++ c.packs) ∧
    (∀ pack ∈ m.lowers, IntactFile sha256 files pack) ∧
      withCompactionMetadata new c.packs c.targetLevel = new
  | .verified m c new => (∃ pre, m.lowers = pre ++ c.packs) ∧
    (∀ pack ∈ m.lowers, IntactFile sha256 files pack) ∧
      withCompactionMetadata new c.packs c.targetLevel = new ∧ IntactFile sha256 files new

/-- **The invariant**: what is listed on disk is intact, and what any call would list. -/
structure CompactionInv (w : CompactionWorld) : Prop where
  stack : StackIntact sha256 w
  calls : ∀ i, CallIntact sha256 w.files (w.calls i)

end Steps

/-! ## 3. Every step keeps the invariant -/

section Inv

variable {sha256 : Bytes → String} {cfg : ℕ → NodeConfig} {w w' : CompactionWorld} {i : ℕ}

/-- A call takes its next step. -/
theorem CompactionInv.setCall (h : CompactionInv sha256 w) {c : Compaction}
    (hc : CallIntact sha256 w.files c) : CompactionInv sha256 (w.setCall i c) := by
  refine ⟨h.stack, fun j => ?_⟩
  show CallIntact sha256 w.files (Function.update w.calls i c j)
  by_cases hj : j = i
  · subst hj
    rw [Function.update_self]
    exact hc
  · rw [Function.update_of_ne hj]
    exact h.calls j

theorem CompactionInv.at (h : CompactionInv sha256 w) {c : Compaction} (hc : w.calls i = c) :
    CallIntact sha256 w.files c := hc ▸ h.calls i

/-- A file that is not written to. -/
theorem IntactFile.write {files : String → Option Bytes} {pack : PackInfo}
    (h : IntactFile sha256 files pack) {path : String} (hne : pack.path ≠ path) (content : Bytes) :
    IntactFile sha256 (Function.update files path (some content)) pack := by
  obtain ⟨b, hb, hok⟩ := h
  exact ⟨b, (Function.update_of_ne hne _ _).trans hb, hok⟩

/-- **A write to a file that nothing needs.** -/
theorem CompactionInv.write (h : CompactionInv sha256 w) {path : String} (hfree : ¬ Needed w path)
    (content : Bytes) :
    CompactionInv sha256 { w with files := Function.update w.files path (some content) } := by
  have hread : ∀ j, ∀ m ∈ (w.calls j).manifest, ∀ pack ∈ m.lowers, pack.path ≠ path := by
    rintro j m hm pack hpack rfl
    exact hfree (.inr ⟨j, .inl ⟨m, hm, List.mem_map_of_mem hpack⟩⟩)
  have hlisting : ∀ j, ∀ pack ∈ (w.calls j).listing, pack.path ≠ path := by
    rintro j pack hpack rfl
    exact hfree (.inr ⟨j, .inr ⟨pack, hpack, rfl⟩⟩)
  refine ⟨fun pack hpack => (h.stack pack hpack).write ?_ content, fun j => ?_⟩
  · rintro rfl
    exact hfree (.inl (List.mem_map_of_mem hpack))
  · have hcall := h.calls j
    have hread := hread j
    have hlisting := hlisting j
    show CallIntact sha256 (Function.update w.files path (some content)) (w.calls j)
    cases hc : w.calls j with
    | idle => exact trivial
    | ended => exact trivial
    | planned m c | building m c | built m c =>
      rw [hc] at hcall hread
      exact ⟨hcall.1, fun pack hpack => (hcall.2 pack hpack).write (hread m rfl pack hpack) _⟩
    | inspected m c new =>
      rw [hc] at hcall hread
      exact ⟨hcall.1, fun pack hpack => (hcall.2.1 pack hpack).write (hread m rfl pack hpack) _,
        hcall.2.2⟩
    | verified m c new =>
      rw [hc] at hcall hread hlisting
      exact ⟨hcall.1, fun pack hpack => (hcall.2.1 pack hpack).write (hread m rfl pack hpack) _,
        hcall.2.2.1, hcall.2.2.2.write (hlisting new rfl) _⟩

/-- **Publishing**: the packs of the manifest that was read, and the verified one. -/
theorem CompactionInv.publish (h : CompactionInv sha256 w) {m merged : ChildManifest}
    {c : CompactionCandidate} {new : PackInfo} (hc : w.calls i = .verified m c new)
    (hmerged : mergedManifest m c new = some merged) :
    CompactionInv sha256 { w.setCall i .ended with disk := merged } := by
  obtain ⟨⟨pre, hpre⟩, hread, hmeta, hnew⟩ := h.at hc
  refine ⟨fun pack hpack => ?_, (h.setCall (i := i) (c := .ended) trivial).calls⟩
  have hlowers : merged.lowers = pre ++ [new] := by
    rw [mergedManifest_some hpre hmeta hmerged]
  have hmem : pack ∈ pre ++ [new] := hlowers ▸ hpack
  rcases List.mem_append.mp hmem with hold | hlast
  · exact hread pack (hpre ▸ List.mem_append_left _ hold)
  · obtain rfl := List.mem_singleton.mp hlast
    exact hnew

/-- **Every step keeps the invariant**, a write under the condition. -/
theorem compactionInv_step (h : CompactionInv sha256 w) {e : ℕ × CompactionAct}
    (hok : WritesFresh cfg w e) (hstep : compactionStep sha256 cfg w e = some w') :
    CompactionInv sha256 w' := by
  obtain ⟨i, act⟩ := e
  unfold compactionStep at hstep
  split at hstep
  · split at hstep
    · obtain rfl := Option.some.inj hstep
      exact h.setCall trivial
    · rename_i c hrun
      obtain rfl := Option.some.inj hstep
      obtain ⟨pre, hpre, -⟩ := runnableCandidate_suffix hrun
      exact h.setCall ⟨⟨pre, hpre⟩, h.stack⟩
  · rename_i m c hc _
    obtain rfl := Option.some.inj hstep
    have hcall := h.at hc
    exact h.setCall (c := .building m c) hcall
  · rename_i m c content hc hact
    obtain rfl := Option.some.inj hstep
    have hfree : WritesFresh cfg w (i, .write content) := (show act = .write content from hact) ▸ hok
    unfold WritesFresh at hfree
    rw [hc] at hfree
    exact h.write hfree content
  · rename_i m c hc _
    obtain rfl := Option.some.inj hstep
    have hcall := h.at hc
    exact h.setCall (c := .built m c) hcall
  · rename_i m c fileCount hc _
    split at hstep
    · obtain rfl := Option.some.inj hstep
      exact h.setCall trivial
    · obtain rfl := Option.some.inj hstep
      obtain ⟨hpre, hread⟩ := h.at hc
      exact h.setCall ⟨hpre, hread, withCompactionMetadata_idem _ _ _⟩
  · rename_i m c new hc _
    split at hstep
    · obtain rfl := Option.some.inj hstep
      exact h.setCall trivial
    · rename_i content hfile
      split at hstep
      · rename_i hmatches
        obtain rfl := Option.some.inj hstep
        obtain ⟨hpre, hread, hmeta⟩ := h.at hc
        exact h.setCall ⟨hpre, hread, hmeta, content, hfile, hmatches⟩
      · obtain rfl := Option.some.inj hstep
        exact h.setCall trivial
  · rename_i m c new hc _
    split at hstep
    · obtain rfl := Option.some.inj hstep
      exact h.setCall trivial
    · rename_i merged hmerged
      obtain rfl := Option.some.inj hstep
      exact h.publish hc hmerged
  · obtain rfl := Option.some.inj hstep
    exact h.setCall trivial
  · obtain rfl := Option.some.inj hstep
    exact h.setCall trivial
  · obtain rfl := Option.some.inj hstep
    exact h.setCall trivial
  · obtain rfl := Option.some.inj hstep
    exact h.setCall trivial
  · obtain rfl := Option.some.inj hstep
    exact h.setCall trivial
  · cases hstep

/-- **Every referenced pack stays intact**: in every run that starts with an intact stack and no
    call, and in which every write goes to a file that nothing needs, the stack is intact at every
    step, so also when all the calls have ended. -/
theorem compactions_intact {tr : List (Lib.Trans CompactionWorld (ℕ × CompactionAct))}
    (h : CompactionRuns sha256 cfg w tr w')
    (hstart : StackIntact sha256 w ∧ ∀ i, w.calls i = .idle)
    (hok : ∀ x ∈ tr, WritesFresh cfg x.pre x.ev) :
    StackIntact sha256 w' ∧ ∀ x ∈ tr, StackIntact sha256 x.post := by
  have hinit : CompactionInv sha256 w := by
    refine ⟨hstart.1, fun i => ?_⟩
    rw [hstart.2 i]
    exact trivial
  have hinv := h.invariant (I := CompactionInv sha256) (G := WritesFresh cfg) hinit
    (fun _ _ _ hw hok hstep => compactionInv_step hw hok hstep) hok
  exact ⟨hinv.1.stack, fun x hx => (hinv.2 x hx).2.stack⟩

end Inv

/-! ## 4. A call alone -/

section Lone

variable {sha256 : Bytes → String} {cfg : ℕ → NodeConfig} {w w' : CompactionWorld} {i : ℕ}

/-- A step moves its own call only. -/
theorem compactionStep_calls {e : ℕ × CompactionAct}
    (hstep : compactionStep sha256 cfg w e = some w') {j : ℕ} (hj : j ≠ e.1) :
    w'.calls j = w.calls j := by
  have hset : ∀ c, (w.setCall e.1 c).calls j = w.calls j := fun _ => Function.update_of_ne hj _ _
  unfold compactionStep at hstep
  split at hstep
  case h_3 =>
    obtain rfl := Option.some.inj hstep
    rfl
  case h_7 =>
    split at hstep
    all_goals
      obtain rfl := Option.some.inj hstep
      exact hset _
  case h_13 => cases hstep
  all_goals
    repeat' split at hstep
    all_goals
      obtain rfl := Option.some.inj hstep
      exact hset _

/-- A call that takes no step does not begin. -/
theorem untouched_idle {tr : List (Lib.Trans CompactionWorld (ℕ × CompactionAct))} {j : ℕ}
    (h : CompactionRuns sha256 cfg w tr w') (hstart : w.calls j = .idle)
    (hnot : ∀ x ∈ tr, x.ev.1 ≠ j) :
    w'.calls j = .idle ∧ ∀ x ∈ tr, x.pre.calls j = .idle := by
  have hinv := h.invariant (I := fun w => w.calls j = .idle) (G := fun _ e => e.1 ≠ j) hstart
    (fun w e w' hidle he hstep => (compactionStep_calls hstep (Ne.symm he)).trans hidle) hnot
  exact ⟨hinv.1, fun x hx => (hinv.2 x hx).1⟩

/-- The output of a call that is listed neither on disk nor in the manifest it read. -/
def writesUnlisted (cfg : ℕ → NodeConfig) (w : CompactionWorld) (e : ℕ × CompactionAct) : Bool :=
  match w.calls e.1, e.2 with
  | .building m c, .write _ =>
    !(w.disk.lowers.map (·.path)).contains (compactionOutput cfg e.1 m c) &&
      !(m.lowers.map (·.path)).contains (compactionOutput cfg e.1 m c)
  | _, _ => true

/-- **A call alone** needs to look at its own manifest and the one on disk only. -/
theorem writesFresh_lone {e : ℕ × CompactionAct} (hothers : ∀ j, j ≠ e.1 → w.calls j = .idle)
    (h : writesUnlisted cfg w e = true) : WritesFresh cfg w e := by
  unfold WritesFresh
  unfold writesUnlisted at h
  split
  · rename_i m c content hc hact
    rw [hc, hact] at h
    simp only [Bool.and_eq_true, Bool.not_eq_true', List.contains_eq_mem, decide_eq_false_iff_not]
      at h
    rintro (hdisk | ⟨j, hneeded⟩)
    · exact h.1 hdisk
    · by_cases hj : j = e.1
      · subst hj
        rw [hc] at hneeded
        rcases hneeded with ⟨m', hm', hmem⟩ | ⟨pack, hpack, -⟩
        · obtain rfl := Option.some.inj hm'
          exact h.2 hmem
        · cases hpack
      · rw [hothers j hj] at hneeded
        rcases hneeded with ⟨m', hm', -⟩ | ⟨pack, hpack, -⟩
        · cases hm'
        · cases hpack
  · exact trivial

end Lone

/-! ### Two callers -/

/-- A base pack and two deltas. -/
def deltasManifest : ChildManifest :=
  let next := fun m : ChildManifest => committedManifest coldNode m
    (deltaPack coldNode (m.generation + 1) (builtFile packDigest deltaFile)) "shared-overlay"
  next (next hotChild.disk)

/-- The files of the packs. -/
def deltasWorld : CompactionWorld where
  disk := deltasManifest
  files := fun path =>
    if path = "/nfs/packs/env/base.sqfs" then some baseFile
    else if path ∈ deltasManifest.lowers.map (·.path) then some deltaFile
    else none
  calls := fun _ => .idle

def compactionTrace (events : List (ℕ × CompactionAct)) :
    List (Lib.Trans CompactionWorld (ℕ × CompactionAct)) :=
  Lib.trace (compactionStep packDigest fun _ => coldNode) deltasWorld events

/-- A call, to its end. -/
def wholeCall (i : ℕ) : List (ℕ × CompactionAct) :=
  [(i, .plan true), (i, .extract), (i, .write baseFile), (i, .finish), (i, .inspect none),
    (i, .verify), (i, .publish)]

theorem deltasWorld_start :
    StackIntact packDigest deltasWorld ∧ ∀ i, deltasWorld.calls i = .idle := by
  refine ⟨fun pack hpack => ?_, fun _ => rfl⟩
  have hcheck : ∀ pack ∈ deltasWorld.disk.lowers, ∃ b ∈ [baseFile, deltaFile],
      deltasWorld.files pack.path = some b ∧ packDigest b = pack.sha256 ∧ b.length = pack.size := by
    decide +kernel
  obtain ⟨b, -, hfile, hmatches⟩ := hcheck pack hpack
  exact ⟨b, hfile, hmatches⟩

theorem wholeCall_intact : ∃ w, CompactionRuns packDigest (fun _ => coldNode) deltasWorld
    (compactionTrace (wholeCall 0)) w ∧ StackIntact packDigest w := by
  obtain ⟨w, h⟩ := Lib.Run.trace (compactionStep packDigest fun _ => coldNode) (wholeCall 0)
    deltasWorld
  have hlone : ∀ x ∈ compactionTrace (wholeCall 0), x.ev.1 = 0 := by decide +kernel
  have hunlisted : ∀ x ∈ compactionTrace (wholeCall 0),
      writesUnlisted (fun _ => coldNode) x.pre x.ev = true := by decide +kernel
  refine ⟨w, h, (compactions_intact h deltasWorld_start fun x hx => ?_).1⟩
  refine writesFresh_lone (fun j hj => ?_) (hunlisted x hx)
  rw [hlone x hx] at hj
  exact (untouched_idle h (deltasWorld_start.2 j) fun y hy => hlone y hy ▸ hj.symm).2 x hx

/-- Both plan; one publishes, and then the other's `mksquashfs` begins to write and fails. -/
def secondWriter : List (ℕ × CompactionAct) :=
  [(1, .plan true)] ++ wholeCall 0 ++ [(1, .extract), (1, .write deltaFile), (1, .fail)]

/-- **A second writer** damages the pack that the first has published; both calls have ended. -/
theorem secondWriter_damages : ∃ w,
    CompactionRuns packDigest (fun _ => coldNode) deltasWorld (compactionTrace secondWriter) w ∧
    (StackIntact packDigest deltasWorld ∧ ∀ i, deltasWorld.calls i = .idle) ∧
    (∀ i, w.calls i = .idle ∨ w.calls i = .ended) ∧ ¬ StackIntact packDigest w := by
  obtain ⟨w, h⟩ := Lib.Run.trace (compactionStep packDigest fun _ => coldNode) secondWriter
    deltasWorld
  have hlast : ∃ x ∈ (compactionTrace secondWriter).getLast?, x.post.calls 0 = .ended ∧
      x.post.calls 1 = .ended ∧ ∃ pack ∈ x.post.disk.lowers,
        ∀ b ∈ x.post.files pack.path, packDigest b ≠ pack.sha256 := by
    decide +kernel
  obtain ⟨x, hx, hfirst, hsecond, pack, hpack, hne⟩ := hlast
  obtain rfl := h.eq_post hx
  refine ⟨_, h, deltasWorld_start, fun i => ?_, fun hintact => ?_⟩
  · by_cases h0 : i = 0
    · exact .inr (h0 ▸ hfirst)
    · by_cases h1 : i = 1
      · exact .inr (h1 ▸ hsecond)
      · have hcallers : ∀ x ∈ compactionTrace secondWriter, x.ev.1 = 0 ∨ x.ev.1 = 1 := by
          decide +kernel
        refine .inl (untouched_idle h (deltasWorld_start.2 i) fun y hy => ?_).1
        rcases hcallers y hy with hy | hy
        · exact hy ▸ Ne.symm h0
        · exact hy ▸ Ne.symm h1
  · obtain ⟨b, hb, hsha, -⟩ := hintact pack hpack
    exact hne b hb hsha

end CccStorage
