/-
  File:      CccStorage/ArchivalPass.lean
  Subject:   `run_cold_storage_once` (`mountd/daemon.py`) with `archive_decision`
             (`ccc_storage_cold/policy.py`), between the steps of other requests.

  The pass decides on the manifests it read before the first child; `handle_cold_archive` reads the
  manifest again under the child's cold lock, which may be hours later, and checks that the child is
  clean and not mounted.

  * `archiveDecision` -- the policy; `archiveDecision_eligible_iff`, when it archives;
  * `PassWorld`, `passStep` -- the pass, and the requests on every child as calls of `callStep`;
  * `EvictsEligible` -- what the pass evicts was eligible when it was read under the lock;
  * `KeepsEligibility` -- a request leaves what the policy reads of a child the pass has yet to read;
  * `pass_evictsEligible` -- runs of such requests;
  * `pinnedMeanwhile_evicted` -- a child pinned after the decision.

  `epoch` is `calendar.timegm` of `time.strptime`; nothing depends on how it computes.
-/
import CccStorage.ManifestOps
import CccStorage.ColdRuns

namespace CccStorage

/-! ## 1. The policy -/

structure ColdArchiveDecision where
  eligible : Bool
  reason : String
  idleAgeSeconds : ℚ := 0
  deriving DecidableEq

section Policy

variable (epoch : String → Option ℚ)

def lastAccessEpoch (manifest : ChildManifest) : Option ℚ :=
  let value := if manifest.coldStorage.lastAccessedAt ≠ "" then manifest.coldStorage.lastAccessedAt
    else manifest.coldStorage.lastRecalledAt
  if value = "" then none else epoch value

def archiveDecision (isFile : String → Bool) (manifest : ChildManifest) (dirty mounted : Bool)
    (idleSeconds now : ℚ) : ColdArchiveDecision :=
  if manifest.pinned then { eligible := false, reason := "pinned" }
  else if mounted then { eligible := false, reason := "mounted" }
  else if manifest.lowers = [] then { eligible := false, reason := "no-packs" }
  else if manifest.coldStorage.packState = PACK_STATE_COLD then
    { eligible := false, reason := "already-cold" }
  else if !hotPacksPresent manifest isFile then { eligible := false, reason := "hot-pack-missing" }
  else if dirty then { eligible := false, reason := "dirty" }
  else
    match lastAccessEpoch epoch manifest with
    | none => { eligible := false, reason := "no-access-metadata" }
    | some accessed =>
      let idleAge := max 0 (now - accessed)
      if idleAge < idleSeconds then
        { eligible := false, reason := "recently-accessed", idleAgeSeconds := idleAge }
      else { eligible := true, reason := "eligible", idleAgeSeconds := idleAge }

/-- Idle for long enough by its own last access. -/
def IdleFor (manifest : ChildManifest) (idleSeconds now : ℚ) : Prop :=
  ∃ accessed, lastAccessEpoch epoch manifest = some accessed ∧ idleSeconds ≤ max 0 (now - accessed)

/-- **When the policy archives a child.** -/
theorem archiveDecision_eligible_iff {isFile : String → Bool} {m : ChildManifest}
    {dirty mounted : Bool} {idle now : ℚ} :
    (archiveDecision epoch isFile m dirty mounted idle now).eligible = true ↔
      m.pinned = false ∧ mounted = false ∧ m.lowers ≠ [] ∧
      m.coldStorage.packState ≠ PACK_STATE_COLD ∧ hotPacksPresent m isFile = true ∧
      dirty = false ∧ IdleFor epoch m idle now := by
  unfold archiveDecision IdleFor
  cases hp : m.pinned with
  | true => simp
  | false =>
    cases mounted with
    | true => simp
    | false =>
      by_cases hl : m.lowers = []
      · simp [hl]
      · by_cases hc : m.coldStorage.packState = PACK_STATE_COLD
        · simp [hl, hc]
        · cases hh : hotPacksPresent m isFile with
          | false => simp [hl, hc]
          | true =>
            cases dirty with
            | true => simp [hl, hc]
            | false =>
              cases ha : lastAccessEpoch epoch m with
              | none => simp [hl, hc]
              | some accessed =>
                simp only [Bool.false_eq_true, if_false, hl, hc, Bool.not_true, ne_eq,
                  not_false_eq_true, true_and, Option.some.injEq, exists_eq_left']
                split
                · rename_i hlt
                  exact ⟨nofun, fun hle => absurd hlt (not_lt.mpr hle)⟩
                · rename_i hge
                  exact ⟨fun _ => not_lt.mp hge, fun _ => rfl⟩

/-- Time passes. -/
theorem IdleFor.mono {m : ChildManifest} {idle now now' : ℚ} (h : IdleFor epoch m idle now)
    (hle : now ≤ now') : IdleFor epoch m idle now' := by
  obtain ⟨accessed, ha, hidle⟩ := h
  exact ⟨accessed, ha, hidle.trans (max_le_max_left 0 (sub_le_sub_right hle accessed))⟩

end Policy

/-! ## 2. The pass between other requests -/

/-- What the service is configured with, and the ids of its children in order. -/
structure PassConfig where
  ids : List String
  nodup : ids.Nodup
  archiveEnabled : Bool := true
  removeHot : Bool := true
  idleSeconds : ℚ

/-- The manifests the pass read before the first child, by id. -/
abbrev Snapshot : Type := List (String × ChildManifest)

inductive PassPc where
  | idle
  | scanning (rest : Snapshot)
  /-- No access metadata: about to `_mark_accessed` the manifest of the snapshot. -/
  | marking (child : String) (m : ChildManifest) (rest : Snapshot)
  /-- Eligible: `handle_cold_archive` is called. -/
  | entering (child : String) (rest : Snapshot)
  | locked (child : String) (rest : Snapshot)
  /-- The manifest read under the lock, and when. -/
  | archiving (child : String) (m : ChildManifest) (found : ℚ) (rest : Snapshot)
  /-- Everything is uploaded, from the files there were, and the manifest is written. -/
  | evicting (child : String) (m : ChildManifest) (found : ℚ) (isFile : String → Bool)
    (rest : Snapshot)
  | ended

inductive PassAct where
  | reload
  | look
  | mark (stamp : String)
  | acquire
  | find
  | upload (stamp : String)
  | evict
  /-- Any exception: it ends the pass. -/
  | fail

structure PassWorld where
  disk : String → ChildManifest
  held : String → LockName → Bool
  calls : String → ℕ → Call
  isFile : String → Bool
  dirty : String → Bool
  mounted : String → Bool
  clock : ℚ
  pc : PassPc
  /-- The children the pass has archived. -/
  archived : List String

inductive PassEv where
  /-- A step of another request on the child. -/
  | request (child : String) (call : ℕ) (act : Act)
  /-- Pack files appear and disappear. -/
  | files (isFile : String → Bool)
  | observe (child : String) (dirty mounted : Bool)
  | tick (now : ℚ)
  | pass (act : PassAct)

namespace PassWorld

def setHeld (w : PassWorld) (child : String) (l : LockName) (held : Bool) : PassWorld :=
  { w with held := Function.update w.held child (Function.update (w.held child) l held) }

def write (w : PassWorld) (child : String) (m : ChildManifest) : PassWorld :=
  { w with disk := Function.update w.disk child m }

/-- What a request's step does to the world. -/
def apply (w : PassWorld) (child : String) : Effect → Option PassWorld
  | .quiet => some w
  | .acquire l => if w.held child l then none else some (w.setHeld child l true)
  | .release l => some (w.setHeld child l false)
  | .built pack _ => some { w with isFile := Function.update w.isFile pack.path true }
  | .publish v _ => some (w.write child v)
  | .rewrite v => some (w.write child v)

end PassWorld

section Steps

variable (epoch : String → Option ℚ) (cfg : String → NodeConfig) (P : PassConfig)

/-- **One step of the pass.** -/
def passAct (w : PassWorld) : PassAct → Option PassWorld
  | .reload =>
    match w.pc with
    | .idle =>
      if P.archiveEnabled then
        some { w with pc := .scanning (P.ids.map fun child => (child, w.disk child)) }
      else some { w with pc := .ended }
    | _ => none
  | .look =>
    match w.pc with
    | .scanning ((child, m) :: rest) =>
      let decision := archiveDecision epoch w.isFile m (w.dirty child) (w.mounted child)
        P.idleSeconds w.clock
      if decision.reason = "no-access-metadata" then some { w with pc := .marking child m rest }
      else if !decision.eligible then some { w with pc := .scanning rest }
      else some { w with pc := .entering child rest }
    | .scanning [] => some { w with pc := .ended }
    | _ => none
  | .mark stamp =>
    match w.pc with
    | .marking child m rest =>
      some { w.write child (markAccessed m stamp) with pc := .scanning rest }
    | _ => none
  | .acquire =>
    match w.pc with
    | .entering child rest =>
      if w.held child .cold then none
      else some { w.setHeld child .cold true with pc := .locked child rest }
    | _ => none
  | .find =>
    match w.pc with
    | .locked child rest =>
      if w.dirty child || (P.removeHot && w.mounted child) then none
      else some { w with pc := .archiving child (w.disk child) w.clock rest }
    | _ => none
  | .upload stamp =>
    match w.pc with
    | .archiving child m found rest =>
      if hotPacksPresent m w.isFile then
        some { w.write child (archivedManifest m ((cfg child).coldPrefix m.generation) P.removeHot
            (cfg child).backend stamp) with
          pc := .evicting child m found w.isFile rest }
      else none
    | _ => none
  | .evict =>
    match w.pc with
    | .evicting child m _ _ rest =>
      some { w.setHeld child .cold false with
        isFile := fun path => w.isFile path && !(P.removeHot && (m.lowers.map (·.path)).contains path)
        pc := .scanning rest
        archived := w.archived ++ [child] }
    | _ => none
  | .fail =>
    match w.pc with
    | .locked child _ | .archiving child _ _ _ | .evicting child _ _ _ _ =>
      some { w.setHeld child .cold false with pc := .ended }
    | _ => some { w with pc := .ended }

/-- **One step of the system.** The clock is not set back. -/
def passStep (w : PassWorld) : PassEv → Option PassWorld
  | .request child call act =>
    match callStep (cfg child) (w.disk child) (w.calls child call) act with
    | none => none
    | some (next, effect) =>
      PassWorld.apply { w with
        calls := Function.update w.calls child (Function.update (w.calls child) call next) }
        child effect
  | .files isFile => some { w with isFile := isFile }
  | .observe child dirty mounted =>
    some { w with
      dirty := Function.update w.dirty child dirty
      mounted := Function.update w.mounted child mounted }
  | .tick now => if w.clock ≤ now then some { w with clock := now } else none
  | .pass act => passAct epoch cfg P w act

abbrev PassRuns : PassWorld → List (Lib.Trans PassWorld PassEv) → PassWorld → Prop :=
  Lib.Run fun w e w' => passStep epoch cfg P w e = some w'

/-! ## 3. What is evicted -/

/-- **The pass evicts what is eligible**: the manifest read under the lock, when it was read. -/
def EvictsEligible (w : PassWorld) : Prop :=
  match w.pc with
  | .evicting _ m found isFile _ => P.removeHot = true → m.lowers ≠ [] →
      (archiveDecision epoch isFile m false false P.idleSeconds found).eligible = true
  | _ => True

instance (w : PassWorld) : Decidable (EvictsEligible epoch P w) :=
  match hpc : w.pc with
  | .evicting _ m found isFile _ =>
    decidable_of_iff (P.removeHot = true → m.lowers ≠ [] →
      (archiveDecision epoch isFile m false false P.idleSeconds found).eligible = true)
      (by simp only [EvictsEligible, hpc])
  | .idle | .scanning _ | .marking _ _ _ | .entering _ _ | .locked _ _ | .archiving _ _ _ _
  | .ended => isTrue (by simp only [EvictsEligible, hpc])

end Steps

/-- The children whose manifests the pass has yet to read under their locks. -/
def PassPc.pending : PassPc → List String
  | .idle | .ended => []
  | .scanning rest | .marking _ _ rest => rest.map (·.1)
  | .entering child rest | .locked child rest => child :: rest.map (·.1)
  | .archiving _ _ _ rest | .evicting _ _ _ _ rest => rest.map (·.1)

/-- The manifests agree in what the policy reads of a child itself. -/
structure SameEligibility (m v : ChildManifest) : Prop where
  pinned : m.pinned = v.pinned
  packState : m.coldStorage.packState = v.coldStorage.packState
  accessed : m.coldStorage.lastAccessedAt = v.coldStorage.lastAccessedAt
  recalled : m.coldStorage.lastRecalledAt = v.coldStorage.lastRecalledAt

def Effect.written : Effect → Option ChildManifest
  | .publish v _ | .rewrite v => some v
  | _ => none

/-- **The condition**: a request that writes the manifest of a child the pass has yet to read
    leaves its pin, its pack state and its access stamps. -/
def KeepsEligibility (cfg : String → NodeConfig) (w : PassWorld) : PassEv → Prop
  | .request child call act => child ∈ w.pc.pending →
      ∀ v ∈ (callStep (cfg child) (w.disk child) (w.calls child call) act).bind (·.2.written),
        SameEligibility v (w.disk child)
  | _ => True

instance (m v : ChildManifest) : Decidable (SameEligibility m v) :=
  decidable_of_iff (m.pinned = v.pinned ∧
      m.coldStorage.packState = v.coldStorage.packState ∧
      m.coldStorage.lastAccessedAt = v.coldStorage.lastAccessedAt ∧
      m.coldStorage.lastRecalledAt = v.coldStorage.lastRecalledAt)
    ⟨fun ⟨hp, hs, ha, hr⟩ => ⟨hp, hs, ha, hr⟩,
      fun h => ⟨h.pinned, h.packState, h.accessed, h.recalled⟩⟩

instance (cfg : String → NodeConfig) (w : PassWorld) : (e : PassEv) →
    Decidable (KeepsEligibility cfg w e)
  | .request child call act => inferInstanceAs (Decidable (child ∈ w.pc.pending →
      ∀ v ∈ (callStep (cfg child) (w.disk child) (w.calls child call) act).bind (·.2.written),
        SameEligibility v (w.disk child)))
  | .files _ | .observe _ _ _ | .tick _ | .pass _ => inferInstanceAs (Decidable True)

/-! ## 4. The invariant -/

theorem SameEligibility.refl (m : ChildManifest) : SameEligibility m m := ⟨rfl, rfl, rfl, rfl⟩

theorem SameEligibility.symm {m v : ChildManifest} (h : SameEligibility m v) :
    SameEligibility v m :=
  ⟨h.pinned.symm, h.packState.symm, h.accessed.symm, h.recalled.symm⟩

theorem SameEligibility.trans {m v u : ChildManifest} (h : SameEligibility m v)
    (h' : SameEligibility v u) : SameEligibility m u :=
  ⟨h.pinned.trans h'.pinned, h.packState.trans h'.packState, h.accessed.trans h'.accessed,
    h.recalled.trans h'.recalled⟩

/-- Unpinned, not cold, and idle for long enough. -/
structure Due (epoch : String → Option ℚ) (idleSeconds : ℚ) (m : ChildManifest) (now : ℚ) :
    Prop where
  pinned : m.pinned = false
  hot : m.coldStorage.packState ≠ PACK_STATE_COLD
  idle : IdleFor epoch m idleSeconds now

section Inv

variable {epoch : String → Option ℚ} {cfg : String → NodeConfig} {P : PassConfig}
  {w w' : PassWorld}

theorem Due.of_same {m v : ChildManifest} {idle now : ℚ} (h : Due epoch idle m now)
    (hs : SameEligibility m v) : Due epoch idle v now := by
  refine ⟨hs.pinned ▸ h.pinned, hs.packState ▸ h.hot, ?_⟩
  have hepoch : lastAccessEpoch epoch v = lastAccessEpoch epoch m := by
    unfold lastAccessEpoch
    rw [hs.accessed, hs.recalled]
  obtain ⟨accessed, ha, hidle⟩ := h.idle
  exact ⟨accessed, hepoch.trans ha, hidle⟩

theorem Due.mono {m : ChildManifest} {idle now now' : ℚ} (h : Due epoch idle m now)
    (hle : now ≤ now') : Due epoch idle m now' :=
  ⟨h.pinned, h.hot, h.idle.mono epoch hle⟩

/-- The snapshot says of each child what its manifest on disk says. -/
def Agrees (rest : Snapshot) (disk : String → ChildManifest) : Prop :=
  ∀ x ∈ rest, SameEligibility x.2 (disk x.1)

/-- A manifest is written that says the same, or of a child that is not ahead. -/
theorem Agrees.write {rest : Snapshot} {disk : String → ChildManifest} {child : String}
    {v : ChildManifest} (h : Agrees rest disk)
    (hv : child ∈ rest.map (·.1) → SameEligibility v (disk child)) :
    Agrees rest (Function.update disk child v) := by
  intro x hx
  by_cases hc : x.1 = child
  · subst hc
    rw [Function.update_self]
    exact (h x hx).trans (hv (List.mem_map_of_mem hx)).symm
  · rw [Function.update_of_ne hc]
    exact h x hx

/-- The children the pass may still archive. -/
def PassPc.ahead (P : PassConfig) : PassPc → List String
  | .idle => P.ids
  | .ended => []
  | .scanning rest => rest.map (·.1)
  | .marking child _ rest | .entering child rest | .locked child rest
  | .archiving child _ _ rest | .evicting child _ _ _ rest => child :: rest.map (·.1)

/-- What holds where the pass stands. -/
def PassPoint (epoch : String → Option ℚ) (P : PassConfig) (disk : String → ChildManifest)
    (clock : ℚ) : PassPc → Prop
  | .idle | .ended => True
  | .scanning rest | .marking _ _ rest => Agrees rest disk
  | .entering child rest | .locked child rest =>
    Agrees rest disk ∧ Due epoch P.idleSeconds (disk child) clock
  | .archiving _ m found rest => Agrees rest disk ∧ Due epoch P.idleSeconds m found
  | .evicting _ m found isFile rest =>
    Agrees rest disk ∧ Due epoch P.idleSeconds m found ∧ hotPacksPresent m isFile = true

/-- **The invariant**: nothing is archived twice, and what is about to be archived is due. -/
structure PassInv (epoch : String → Option ℚ) (P : PassConfig) (w : PassWorld) : Prop where
  once : (w.archived ++ w.pc.ahead P).Nodup
  point : PassPoint epoch P w.disk w.clock w.pc

/-- What is evicted was due, and all its files were there. -/
theorem PassInv.evictsEligible (h : PassInv epoch P w) : EvictsEligible epoch P w := by
  have hpoint := h.point
  unfold EvictsEligible
  split
  · rename_i child m found isFile rest hpc
    rw [hpc] at hpoint
    intro _ hl
    obtain ⟨-, hdue, hfiles⟩ := hpoint
    exact (archiveDecision_eligible_iff epoch).mpr
      ⟨hdue.pinned, rfl, hl, hdue.hot, hfiles, rfl, hdue.idle⟩
  · exact trivial

/-- Only the clock advances, or a manifest is written that leaves what the pass has yet to read. -/
theorem PassPoint.write {disk : String → ChildManifest} {clock now : ℚ} {pc : PassPc}
    {child : String} {v : ChildManifest} (h : PassPoint epoch P disk clock pc)
    (hle : clock ≤ now) (hv : child ∈ pc.pending → SameEligibility v (disk child)) :
    PassPoint epoch P (Function.update disk child v) now pc := by
  have hdue : ∀ {c : String}, Due epoch P.idleSeconds (disk c) clock →
      (c = child → SameEligibility v (disk child)) →
      Due epoch P.idleSeconds (Function.update disk child v c) now := by
    intro c hd hsame
    by_cases hc : c = child
    · have heq := hsame hc
      subst hc
      rw [Function.update_self]
      exact (hd.of_same heq.symm).mono hle
    · rw [Function.update_of_ne hc]
      exact hd.mono hle
  cases pc with
  | idle | ended => exact trivial
  | scanning rest | marking _ _ rest => exact Agrees.write h hv
  | entering c rest | locked c rest =>
    refine ⟨h.1.write fun hmem => hv (List.mem_cons_of_mem _ hmem), hdue h.2 fun hc => hv ?_⟩
    rw [hc]
    exact List.mem_cons_self
  | archiving c m found rest => exact ⟨h.1.write hv, h.2⟩
  | evicting c m found isFile rest => exact ⟨h.1.write hv, h.2⟩

theorem PassPoint.tick {disk : String → ChildManifest} {clock now : ℚ} {pc : PassPc}
    (h : PassPoint epoch P disk clock pc) (hle : clock ≤ now) :
    PassPoint epoch P disk now pc := by
  have hwrite : PassPoint epoch P (Function.update disk "" (disk "")) now pc :=
    h.write hle fun _ => .refl _
  rwa [Function.update_eq_self] at hwrite

/-- A step that leaves the pass where it is, and at most writes such a manifest. -/
theorem PassInv.write (h : PassInv epoch P w) {child : String} {v : ChildManifest}
    (hpc : w'.pc = w.pc) (harchived : w'.archived = w.archived) (hclock : w'.clock = w.clock)
    (hdisk : w'.disk = Function.update w.disk child v)
    (hv : child ∈ w.pc.pending → SameEligibility v (w.disk child)) : PassInv epoch P w' := by
  refine ⟨?_, ?_⟩
  · rw [hpc, harchived]
    exact h.once
  · rw [hpc, hclock, hdisk]
    exact h.point.write le_rfl hv

theorem PassInv.quiet (h : PassInv epoch P w) (hpc : w'.pc = w.pc)
    (harchived : w'.archived = w.archived) (hclock : w'.clock = w.clock)
    (hdisk : w'.disk = w.disk) : PassInv epoch P w' := by
  refine ⟨?_, ?_⟩
  · rw [hpc, harchived]
    exact h.once
  · rw [hpc, hclock, hdisk]
    exact h.point

/-- **A request's step.** -/
theorem passInv_request (h : PassInv epoch P w) {child : String} {call : ℕ} {act : Act}
    (hok : KeepsEligibility cfg w (.request child call act))
    (hstep : passStep epoch cfg P w (.request child call act) = some w') :
    PassInv epoch P w' := by
  simp only [passStep] at hstep
  cases hcall : callStep (cfg child) (w.disk child) (w.calls child call) act with
  | none =>
    rw [hcall] at hstep
    cases hstep
  | some r =>
    obtain ⟨next, effect⟩ := r
    rw [hcall] at hstep
    have hv : ∀ v, effect.written = some v → child ∈ w.pc.pending →
        SameEligibility v (w.disk child) :=
      fun v hw hmem => hok hmem v (by rw [hcall]; exact hw)
    cases effect with
    | quiet =>
      obtain rfl := Option.some.inj hstep
      exact h.quiet rfl rfl rfl rfl
    | acquire l =>
      simp only [PassWorld.apply] at hstep
      split at hstep
      · cases hstep
      · obtain rfl := Option.some.inj hstep
        exact h.quiet rfl rfl rfl rfl
    | release l =>
      obtain rfl := Option.some.inj hstep
      exact h.quiet rfl rfl rfl rfl
    | built pack selected =>
      obtain rfl := Option.some.inj hstep
      exact h.quiet rfl rfl rfl rfl
    | publish v delta =>
      obtain rfl := Option.some.inj hstep
      exact h.write rfl rfl rfl rfl (hv v rfl)
    | rewrite v =>
      obtain rfl := Option.some.inj hstep
      exact h.write rfl rfl rfl rfl (hv v rfl)

/-- **A step of the pass.** -/
theorem passInv_pass (h : PassInv epoch P w) {act : PassAct}
    (hstep : passAct epoch cfg P w act = some w') : PassInv epoch P w' := by
  have honce := h.once
  have hpoint := h.point
  cases act with
  | reload =>
    simp only [passAct] at hstep
    split at hstep
    · rename_i hpc
      rw [hpc] at honce
      split at hstep
      · obtain rfl := Option.some.inj hstep
        refine ⟨?_, fun x hx => ?_⟩
        · have hids : (P.ids.map fun child => (child, w.disk child)).map (·.1) = P.ids := by
            rw [List.map_map]
            exact List.map_id _
          simp only [PassPc.ahead, hids]
          exact honce
        · obtain ⟨child, -, rfl⟩ := List.mem_map.mp hx
          exact .refl _
      · obtain rfl := Option.some.inj hstep
        refine ⟨?_, trivial⟩
        simp only [PassPc.ahead, List.append_nil]
        exact (List.nodup_append.mp honce).1
    · cases hstep
  | look =>
    simp only [passAct] at hstep
    split at hstep
    · rename_i child m rest hpc
      rw [hpc] at honce hpoint
      obtain ⟨hsame, hrest⟩ : SameEligibility m (w.disk child) ∧ Agrees rest w.disk :=
        ⟨hpoint (child, m) List.mem_cons_self,
          fun x hx => hpoint x (List.mem_cons_of_mem _ hx)⟩
      split at hstep
      · obtain rfl := Option.some.inj hstep
        exact ⟨honce, hrest⟩
      · split at hstep
        · obtain rfl := Option.some.inj hstep
          exact ⟨honce.sublist (List.Sublist.append_left (List.sublist_cons_self ..) _), hrest⟩
        · rename_i heligible
          rw [Bool.not_eq_true', Bool.not_eq_false] at heligible
          obtain rfl := Option.some.inj hstep
          obtain ⟨hpin, -, -, hhot, -, -, hidle⟩ :=
            (archiveDecision_eligible_iff epoch).mp heligible
          have hdue : Due epoch P.idleSeconds m w.clock := ⟨hpin, hhot, hidle⟩
          exact ⟨honce, hrest, hdue.of_same hsame⟩
    · rename_i hpc
      obtain rfl := Option.some.inj hstep
      refine ⟨?_, trivial⟩
      simp only [PassPc.ahead, List.append_nil]
      exact (List.nodup_append.mp honce).1
    · cases hstep
  | mark stamp =>
    simp only [passAct] at hstep
    split at hstep
    · rename_i child m rest hpc
      rw [hpc] at honce hpoint
      obtain rfl := Option.some.inj hstep
      have hnot : child ∉ rest.map (·.1) :=
        (List.nodup_cons.mp (List.nodup_append.mp honce).2.1).1
      exact ⟨honce.sublist (List.Sublist.append_left (List.sublist_cons_self ..) _),
        Agrees.write hpoint fun hmem => (hnot hmem).elim⟩
    · cases hstep
  | acquire =>
    simp only [passAct] at hstep
    split at hstep
    · rename_i child rest hpc
      rw [hpc] at honce hpoint
      split at hstep
      · cases hstep
      · obtain rfl := Option.some.inj hstep
        exact ⟨honce, hpoint⟩
    · cases hstep
  | find =>
    simp only [passAct] at hstep
    split at hstep
    · rename_i child rest hpc
      rw [hpc] at honce hpoint
      split at hstep
      · cases hstep
      · obtain rfl := Option.some.inj hstep
        exact ⟨honce, hpoint⟩
    · cases hstep
  | upload stamp =>
    simp only [passAct] at hstep
    split at hstep
    · rename_i child m found rest hpc
      rw [hpc] at honce hpoint
      split at hstep
      · rename_i hfiles
        obtain rfl := Option.some.inj hstep
        have hnot : child ∉ rest.map (·.1) :=
          (List.nodup_cons.mp (List.nodup_append.mp honce).2.1).1
        exact ⟨honce, hpoint.1.write fun hmem => (hnot hmem).elim, hpoint.2, hfiles⟩
      · cases hstep
    · cases hstep
  | evict =>
    simp only [passAct] at hstep
    split at hstep
    · rename_i child m found isFile rest hpc
      rw [hpc] at honce hpoint
      obtain rfl := Option.some.inj hstep
      refine ⟨?_, hpoint.1⟩
      simp only [PassPc.ahead, List.append_assoc]
      exact honce
    · cases hstep
  | fail =>
    have hended : w'.pc = .ended ∧ w'.archived = w.archived := by
      simp only [passAct] at hstep
      split at hstep
      all_goals
        obtain rfl := Option.some.inj hstep
        exact ⟨rfl, rfl⟩
    refine ⟨?_, ?_⟩
    · rw [hended.1, hended.2]
      simp only [PassPc.ahead, List.append_nil]
      exact (List.nodup_append.mp honce).1
    · rw [hended.1]
      exact trivial

/-- **Every step keeps the invariant**, a request's under the condition. -/
theorem passInv_step (h : PassInv epoch P w) {e : PassEv} (hok : KeepsEligibility cfg w e)
    (hstep : passStep epoch cfg P w e = some w') : PassInv epoch P w' := by
  cases e with
  | request child call act => exact passInv_request h hok hstep
  | files isFile =>
    obtain rfl := Option.some.inj hstep
    exact h.quiet rfl rfl rfl rfl
  | observe child dirty mounted =>
    obtain rfl := Option.some.inj hstep
    exact h.quiet rfl rfl rfl rfl
  | tick now =>
    simp only [passStep] at hstep
    split at hstep
    · rename_i hle
      obtain rfl := Option.some.inj hstep
      exact ⟨h.once, h.point.tick hle⟩
    · cases hstep
  | pass act => exact passInv_pass h hstep

/-- **A pass evicts what is eligible, and no child twice**: in every run in which the requests leave
    the pin, the pack state and the access stamps of the children that the pass has yet to read. -/
theorem pass_evictsEligible {tr : List (Lib.Trans PassWorld PassEv)}
    (h : PassRuns epoch cfg P w tr w') (hstart : w.pc = .idle ∧ w.archived = [])
    (hok : ∀ x ∈ tr, KeepsEligibility cfg x.pre x.ev) :
    (EvictsEligible epoch P w' ∧ w'.archived.Nodup) ∧
      ∀ x ∈ tr, EvictsEligible epoch P x.post ∧ x.post.archived.Nodup := by
  have hinit : PassInv epoch P w := by
    refine ⟨?_, ?_⟩
    · rw [hstart.1, hstart.2]
      exact P.nodup
    · rw [hstart.1]
      exact trivial
  have hinv := h.invariant (I := PassInv epoch P) (G := KeepsEligibility cfg) hinit
    (fun _ _ _ ha hg hs => passInv_step ha hg hs) hok
  have hfacts : ∀ v, PassInv epoch P v → EvictsEligible epoch P v ∧ v.archived.Nodup :=
    fun v hv => ⟨hv.evictsEligible, (List.nodup_append.mp hv.once).1⟩
  exact ⟨hfacts _ hinv.1, fun x hx => hfacts _ (hinv.2 x hx).2⟩

end Inv

/-! ### Concrete passes -/

/-- A hot child last accessed at the epoch of the clock. -/
def idleEnv : ChildManifest :=
  { hotChild.disk with coldStorage := { lastAccessedAt := "2026-01-01T00:00:00Z" } }

/-- `2026-01-01T00:00:00Z`, with seconds counted from there. -/
def sinceNewYear (stamp : String) : Option ℚ :=
  if stamp = "2026-01-01T00:00:00Z" then some 0 else none

/-- One week, one child. -/
def weekPass : PassConfig where
  ids := ["env"]
  nodup := List.nodup_singleton _
  idleSeconds := 604800

def idleWorld : PassWorld where
  disk := fun _ => idleEnv
  held := fun _ _ => false
  calls := fun _ _ => .idle
  isFile := fun _ => true
  dirty := fun _ => false
  mounted := fun _ => false
  clock := 700000
  pc := .idle
  archived := []

def passTrace (events : List PassEv) : List (Lib.Trans PassWorld PassEv) :=
  Lib.trace (passStep sinceNewYear (fun _ => coldNode) weekPass) idleWorld events

/-- A pass; what the requests do meanwhile comes after its decision. -/
def archivingPass (meanwhile : List PassEv) : List PassEv :=
  [.pass .reload, .pass .look] ++ meanwhile ++ [.pass .acquire, .pass .find, .pass (.upload "t1")]

/-- A commit meanwhile. -/
def committedMeanwhile : List PassEv :=
  [.request "env" 0 .commitAcquire, .request "env" 0 .commitResolve,
    .request "env" 0 (.commitBuild (builtFile packDigest deltaFile)),
    .request "env" 0 (.commitPublish "shared-overlay")]

theorem committedMeanwhile_evictsEligible : ∃ w,
    PassRuns sinceNewYear (fun _ => coldNode) weekPass idleWorld
      (passTrace (archivingPass committedMeanwhile)) w ∧
    EvictsEligible sinceNewYear weekPass w := by
  obtain ⟨w, h⟩ := Lib.Run.trace (passStep sinceNewYear (fun _ => coldNode) weekPass)
    (archivingPass committedMeanwhile) idleWorld
  exact ⟨w, h, (pass_evictsEligible h ⟨rfl, rfl⟩ (by decide +kernel)).1.1⟩

/-- `handle_pin` meanwhile. -/
def pinnedMeanwhile : List PassEv :=
  [.request "env" 0 (.pinFind true), .request "env" 0 .pinPublish]

/-- **A child pinned after the decision** is evicted. -/
theorem pinnedMeanwhile_evicted :
    (∃ w, PassRuns sinceNewYear (fun _ => coldNode) weekPass idleWorld
      (passTrace (archivingPass pinnedMeanwhile)) w) ∧
    idleWorld.pc = .idle ∧ idleWorld.archived = [] ∧
    ¬ ∀ x ∈ passTrace (archivingPass pinnedMeanwhile),
      EvictsEligible sinceNewYear weekPass x.post := by
  refine ⟨Lib.Run.trace _ _ _, rfl, rfl, fun hall => ?_⟩
  have hsome : ∃ x ∈ passTrace (archivingPass pinnedMeanwhile),
      ¬ EvictsEligible sinceNewYear weekPass x.post := by decide +kernel
  obtain ⟨x, hx, hevicted⟩ := hsome
  exact hevicted (hall x hx)

end CccStorage
