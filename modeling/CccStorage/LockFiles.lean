/-
  File:      CccStorage/LockFiles.lean
  Subject:   `NFSLock` on one path, one file operation at a time, with holders that die and
             acquirers that steal (`core/locks.py`).

  * `LockPath`, `LockObject`, `lockStep` -- the file at the path, a lock object, and its calls;
  * `HoldersFresh` -- no living holder's lock is older than `stale_after`;
  * `StealsJudged` -- a stealer removes the file it has judged stale, and no other;
  * `lock_excludes` -- then at most one living object holds the lock, and releases and heartbeats
    act on their own files;
  * `stolenTwice` -- two stealers of one stale lock.
-/
import CccStorage.Lib.Interleave

namespace CccStorage

/-! ## 1. The lock file and the lock objects -/

structure LockInfo where
  node : String
  pid : Nat
  op : String
  acquiredTs : Int
  heartbeatTs : Int
  deriving DecidableEq, Repr

structure LockFile where
  /-- What `LockInfo.from_file` reads; a file that was opened and not yet written has none. -/
  content : Option LockInfo
  mtime : Int
  deriving DecidableEq, Repr

/-- The lock's path, and the files there have been at it. -/
structure LockPath where
  current : Option Nat
  files : Nat → LockFile
  next : Nat

inductive LockPhase where
  | idle
  | create (stealStale : Bool) (now : Int)
  | staleExists
  | staleRead
  | staleStat
  /-- The file at the path was judged stale. -/
  | steal (judged : Nat)
  | write (file : Nat) (info : LockInfo)
  | heartbeatOpen (info : LockInfo)
  | heartbeatWrite (file : Nat) (info : LockInfo)
  | releaseExists
  | releaseUnlink
  deriving DecidableEq

structure LockObject where
  node : String
  pid : Nat
  op : String
  staleAfter : Int
  info : Option LockInfo := none
  held : Bool := false
  alive : Bool := true
  /-- The file it has created and not given up. -/
  own : Option Nat := none
  phase : LockPhase := .idle

inductive LockAct where
  | acquire (stealStale : Bool) (now : Int)
  | heartbeat (now : Int)
  | release
  /-- The next file operation; `now` is what the caller's clock reads. -/
  | step (now : Int)
  | die
  deriving DecidableEq

namespace LockPath

/-- A new file at the path. -/
def created (s : LockPath) (now : Int) : LockPath where
  current := some s.next
  files := Function.update s.files s.next { content := none, mtime := now }
  next := s.next + 1

def written (s : LockPath) (file : Nat) (content : Option LockInfo) (now : Int) : LockPath :=
  { s with files := Function.update s.files file { content := content, mtime := now } }

def unlinked (s : LockPath) : LockPath := { s with current := none }

end LockPath

/-- The file operations of `acquire`, `heartbeat` and `release`. -/
def lockOperation (s : LockPath) (o : LockObject) (now : Int) : Option (LockPath × LockObject) :=
  match o.phase with
  | .idle => none
  | .create stealStale started =>
    match s.current with
    | none =>
      let info : LockInfo :=
        { node := o.node, pid := o.pid, op := o.op, acquiredTs := started, heartbeatTs := started }
      some (s.created now, { o with own := some s.next, phase := .write s.next info })
    | some _ =>
      -- `LockHeld`, unless the lock may be stolen
      if stealStale then some (s, { o with phase := .staleExists })
      else some (s, { o with phase := .idle })
  | .staleExists =>
    match s.current with
    | none => some (s, { o with phase := .idle })
    | some _ => some (s, { o with phase := .staleRead })
  | .staleRead =>
    match s.current with
    | none => some (s, { o with phase := .staleStat })
    | some f =>
      match (s.files f).content with
      | none => some (s, { o with phase := .staleStat })
      | some info =>
        if o.staleAfter < now - info.heartbeatTs then some (s, { o with phase := .steal f })
        else some (s, { o with phase := .idle })
  | .staleStat =>
    match s.current with
    | none => some (s, { o with phase := .idle })
    | some f =>
      if o.staleAfter < now - (s.files f).mtime then some (s, { o with phase := .steal f })
      else some (s, { o with phase := .idle })
  | .steal _ =>
    match s.current with
    | none => some (s, { o with phase := .idle })
    | some _ => some (s.unlinked, { o with phase := .create false now })
  | .write f info =>
    some (s.written f (some info) now, { o with info := some info, held := true, phase := .idle })
  | .heartbeatOpen info =>
    -- `write_text` truncates the file at the path, or makes one
    match s.current with
    | some f => some (s.written f none now, { o with phase := .heartbeatWrite f info })
    | none => some (s.created now, { o with phase := .heartbeatWrite s.next info })
  | .heartbeatWrite f info => some (s.written f (some info) now, { o with phase := .idle })
  | .releaseExists =>
    match s.current with
    | none => some (s, { o with held := false, own := none, phase := .idle })
    | some _ => some (s, { o with phase := .releaseUnlink })
  | .releaseUnlink =>
    match s.current with
    | none => some (s, { o with phase := .idle })
    | some _ => some (s.unlinked, { o with held := false, own := none, phase := .idle })

/-- **What a lock object does next**; an object whose process has died does nothing. -/
def lockStep (s : LockPath) (o : LockObject) (a : LockAct) : Option (LockPath × LockObject) :=
  if o.alive then
    match a, o.phase with
    | .die, _ => some (s, { o with alive := false })
    | .step now, _ => lockOperation s o now
    | .acquire stealStale now, .idle => some (s, { o with phase := .create stealStale now })
    | .heartbeat now, .idle =>
      match o.info with
      | none => some (s, o)
      | some info =>
        if o.held then
          let info := { info with heartbeatTs := now }
          some (s, { o with info := some info, phase := .heartbeatOpen info })
        else some (s, o)
    | .release, .idle => some (s, if o.held then { o with phase := .releaseExists } else o)
    | _, _ => none
  else none

/-! ## 2. Mutual exclusion -/

abbrev LockThreads (k : Nat) := Lib.Threads k LockPath LockObject

/-- **At most one living object holds the lock.** -/
def MutualExclusion {k : Nat} (s : LockThreads k) : Prop :=
  ∀ i j, ((s.pc i).alive = true ∧ (s.pc i).held = true) →
    ((s.pc j).alive = true ∧ (s.pc j).held = true) → i = j

/-- What an object that releases or heartbeats removes or overwrites is the file it created. -/
def TouchesOwn {k : Nat} (s : LockThreads k) (e : Fin k × LockAct) : Prop :=
  match e.2, (s.pc e.1).phase with
  | .step _, .releaseUnlink => ∀ f ∈ s.shared.current, (s.pc e.1).own = some f
  | .step _, .heartbeatOpen _ => ∃ f ∈ s.shared.current, (s.pc e.1).own = some f
  | .step _, .heartbeatWrite f _ => s.shared.current = some f ∧ (s.pc e.1).own = some f
  | _, _ => True

/-- A file is not older than `stale_after`, by its heartbeat and by its time of change. -/
def LockFile.Fresh (f : LockFile) (staleAfter now : Int) : Prop :=
  now - f.mtime ≤ staleAfter ∧ ∀ info ∈ f.content, now - info.heartbeatTs ≤ staleAfter

/-- **No living holder's lock is ever older than `stale_after`**, whoever looks. -/
def HoldersFresh {k : Nat} (s : LockThreads k) (e : Fin k × LockAct) : Prop :=
  match e.2 with
  | .step now => ∀ j, (s.pc j).alive = true → ∀ f ∈ (s.pc j).own,
    (s.shared.files f).Fresh (s.pc e.1).staleAfter now
  | _ => True

/-- The file that is about to be stolen. -/
def LockPhase.judged : LockPhase → Option Nat
  | .steal f => some f
  | _ => none

/-- **The condition**: a stealer's `unlink` meets the file it has judged stale, or none. -/
def StealsJudged {k : Nat} (s : LockThreads k) (e : Fin k × LockAct) : Prop :=
  match e.2 with
  | .step _ => ∀ judged ∈ (s.pc e.1).phase.judged, ∀ f ∈ s.shared.current, f = judged
  | _ => True

/-- What a lock object relies on. -/
structure ObjectHolds (s : LockPath) (o : LockObject) : Prop where
  known : ∀ f ∈ o.own, f < s.next
  current : o.alive = true → ∀ f ∈ o.own, s.current = some f
  held : o.held = true → o.own.isSome
  judged : ∀ f, o.phase = .steal f → f < s.next ∧ o.own ≠ some f
  write : ∀ f info, o.phase = .write f info → o.own = some f
  heartbeatOpen : ∀ info, o.phase = .heartbeatOpen info → o.own.isSome
  heartbeatWrite : ∀ f info, o.phase = .heartbeatWrite f info → o.own = some f
  release : o.phase = .releaseExists ∨ o.phase = .releaseUnlink → o.own.isSome

/-- Only one living object has a file, and no other is about to steal it. -/
structure ObjectsApart (p q : LockObject) : Prop where
  own : p.alive = true → q.alive = true → p.own = none ∨ q.own = none
  left : p.alive = true → ∀ f ∈ p.own, q.phase ≠ .steal f
  right : q.alive = true → ∀ f ∈ q.own, p.phase ≠ .steal f

def lockOutline : Lib.Outline LockPath LockObject where
  inv := fun s => ∀ f ∈ s.current, f < s.next
  point := ObjectHolds
  apart := ObjectsApart
  symm := fun _ _ h => ⟨fun hq hp => (h.own hp hq).symm, h.right, h.left⟩

/-! ## 3. Every operation keeps it -/

section Steps

variable {k : Nat} {s : LockThreads k} {i : Fin k} {u : LockPath} {o p : LockObject} {now : Int}

/-- A phase that is about no file in particular. -/
def LockPhase.isPlain : LockPhase → Bool
  | .idle | .create _ _ | .staleExists | .staleRead | .staleStat => true
  | _ => false

/-- Only the path and the numbers given out matter. -/
theorem ObjectHolds.congr {a b : LockPath} (h : ObjectHolds a o) (hc : b.current = a.current)
    (hn : b.next = a.next) : ObjectHolds b o := by
  constructor
  · rw [hn]
    exact h.known
  · rw [hc]
    exact h.current
  · exact h.held
  · rw [hn]
    exact h.judged
  · exact h.write
  · exact h.heartbeatOpen
  · exact h.heartbeatWrite
  · exact h.release

theorem ObjectHolds.plain {a : LockPath} (hplain : p.phase.isPlain = true)
    (hknown : ∀ f ∈ p.own, f < a.next)
    (hcurrent : p.alive = true → ∀ f ∈ p.own, a.current = some f)
    (hheld : p.held = true → p.own.isSome) : ObjectHolds a p := by
  have hnot : ∀ {ph : LockPhase}, ph.isPlain = false → p.phase ≠ ph := by
    intro ph hph heq
    rw [heq, hph] at hplain
    cases hplain
  exact ⟨hknown, hcurrent, hheld, fun _ hp => absurd hp (hnot rfl),
    fun _ _ hp => absurd hp (hnot rfl), fun _ hp => absurd hp (hnot rfl),
    fun _ _ hp => absurd hp (hnot rfl),
    fun hp => hp.elim (fun hp => absurd hp (hnot rfl)) fun hp => absurd hp (hnot rfl)⟩

/-- A step that leaves the path as it is, and the object with the file it has. -/
theorem lockKeeps_same (h : lockOutline.Holds s) (hc : u.current = s.shared.current)
    (hn : u.next = s.shared.next) (hown : p.own = (s.pc i).own)
    (halive : p.alive = true → (s.pc i).alive = true)
    (hsteal : ∀ f, p.phase = .steal f →
      ∀ j, j ≠ i → (s.pc j).alive = true → (s.pc j).own ≠ some f)
    (hpoint : ObjectHolds s.shared p) : lockOutline.Keeps s i u p := by
  refine ⟨?_, hpoint.congr hc hn, fun j _ => (h.point j).congr hc hn, fun j hj => ?_⟩
  · show ∀ f ∈ u.current, f < u.next
    rw [hc, hn]
    exact h.inv
  · have hapart := h.apart i j hj.symm
    refine ⟨fun hp hq => ?_, fun hp f hf => ?_, fun hq f hf hp => ?_⟩
    · rw [hown]
      exact hapart.own (halive hp) hq
    · rw [hown] at hf
      exact hapart.left (halive hp) f hf
    · exact hsteal f hp j hj hq hf

/-- The object goes on to a plain phase, or stops. -/
theorem lockKeeps_plain (h : lockOutline.Holds s) (hc : u.current = s.shared.current)
    (hn : u.next = s.shared.next) (hown : p.own = (s.pc i).own)
    (hheld : p.held = true → p.own.isSome)
    (halive : p.alive = true → (s.pc i).alive = true) (hplain : p.phase.isPlain = true) :
    lockOutline.Keeps s i u p := by
  refine lockKeeps_same h hc hn hown halive (fun f hp => ?_) (.plain hplain ?_ (fun hp => ?_) hheld)
  · rw [hp] at hplain
    cases hplain
  · rw [hown]
    exact (h.point i).known
  · rw [hown]
    exact (h.point i).current (halive hp)

/-- **A new file at the path**: nobody alive had one. -/
theorem lockKeeps_create (h : lockOutline.Holds s)
    (hfree : s.shared.current = none) (info : LockInfo) :
    lockOutline.Keeps s i (s.shared.created now)
      { s.pc i with own := some s.shared.next, phase := .write s.shared.next info } := by
  have hnone : ∀ j, (s.pc j).alive = true → (s.pc j).own = none := by
    intro j hj
    cases hown : (s.pc j).own with
    | none => rfl
    | some f =>
      have hcur := (h.point j).current hj f hown
      rw [hfree] at hcur
      cases hcur
  refine ⟨?_, ?_, fun j _ => ?_, fun j hj => ?_⟩
  · intro f hf
    cases hf
    exact Nat.lt_succ_self _
  · refine ⟨?_, ?_, fun _ => rfl, nofun, ?_, nofun, nofun, fun hp => hp.elim nofun nofun⟩
    · intro f hf
      cases hf
      exact Nat.lt_succ_self _
    · intro _ f hf
      exact hf
    · intro f info' hp
      cases hp
      rfl
  · have hj := h.point j
    refine ⟨fun f hf => Nat.lt_succ_of_lt (hj.known f hf), fun hal f hf => ?_, hj.held,
      fun f hp => ⟨Nat.lt_succ_of_lt (hj.judged f hp).1, (hj.judged f hp).2⟩, hj.write,
      hj.heartbeatOpen, hj.heartbeatWrite, hj.release⟩
    rw [hnone j hal] at hf
    cases hf
  · refine ⟨fun _ hq => .inr (hnone j hq), fun _ f hf hq => ?_, fun hq f hf => ?_⟩
    · cases hf
      exact absurd ((h.point j).judged _ hq).1 (Nat.lt_irrefl _)
    · rw [hnone j hq] at hf
      cases hf

/-- **The file at the path is removed**: it is nobody else's who is alive. -/
theorem lockKeeps_unlink (h : lockOutline.Holds s)
    (hothers : ∀ j, j ≠ i → (s.pc j).alive = true → (s.pc j).own = none)
    (hown : p.own = none) (hheld : p.held = false) (hplain : p.phase.isPlain = true) :
    lockOutline.Keeps s i s.shared.unlinked p := by
  have hnot : ∀ {f}, f ∉ p.own := by
    intro f hf
    rw [hown] at hf
    cases hf
  refine ⟨nofun, .plain hplain (fun f hf => absurd hf hnot) (fun _ f hf => absurd hf hnot) ?_,
    fun j hj => ?_, fun j hj => ⟨fun _ _ => .inl hown, fun _ f hf => absurd hf hnot, ?_⟩⟩
  · rw [hheld]
    exact nofun
  · have hp := h.point j
    refine ⟨hp.known, fun hal f hf => ?_, hp.held, hp.judged, hp.write, hp.heartbeatOpen,
      hp.heartbeatWrite, hp.release⟩
    rw [hothers j hj hal] at hf
    cases hf
  · intro hal f hf
    rw [hothers j hj hal] at hf
    cases hf

/-- **A stealer removes the file it has judged.** -/
theorem lockKeeps_steal (h : lockOutline.Holds s) (halive : (s.pc i).alive = true) {judged : Nat}
    (hphase : (s.pc i).phase = .steal judged) (hthere : s.shared.current = some judged) :
    lockOutline.Keeps s i s.shared.unlinked { s.pc i with phase := .create false now } := by
  have hmine : (s.pc i).own = none := by
    cases hown : (s.pc i).own with
    | none => rfl
    | some f =>
      have hcur := (h.point i).current halive f hown
      rw [hthere] at hcur
      cases hcur
      exact absurd hown ((h.point i).judged judged hphase).2
  refine lockKeeps_unlink h (fun j hj hal => ?_) hmine ?_ rfl
  · cases hown : (s.pc j).own with
    | none => rfl
    | some f =>
      have hcur := (h.point j).current hal f hown
      rw [hthere] at hcur
      cases hcur
      exact absurd hphase ((h.apart j i hj).left hal judged hown)
  · cases hheld : (s.pc i).held with
    | false => rfl
    | true =>
      have hsome := (h.point i).held hheld
      rw [hmine] at hsome
      cases hsome

/-- **A stale file is judged**: it is nobody's who is alive. -/
theorem lockKeeps_judge (h : lockOutline.Holds s) (halive : (s.pc i).alive = true) {f : Nat}
    (hthere : s.shared.current = some f)
    (hfresh : HoldersFresh s (i, .step now))
    (hstale : ¬ (s.shared.files f).Fresh (s.pc i).staleAfter now)
    (hheld : (s.pc i).held = true → (s.pc i).own.isSome) :
    lockOutline.Keeps s i s.shared { s.pc i with phase := .steal f } := by
  have hnobody : ∀ j, (s.pc j).alive = true → (s.pc j).own ≠ some f :=
    fun j hj hown => hstale (hfresh j hj f hown)
  refine lockKeeps_same h rfl rfl rfl (fun hal => hal) (fun f' hp j _ hal => ?_) ?_
  · cases hp
    exact hnobody j hal
  · refine ⟨(h.point i).known, (h.point i).current, hheld, ?_, nofun, nofun, nofun,
      fun hp => hp.elim nofun nofun⟩
    intro f' hp
    cases hp
    exact ⟨h.inv f hthere, hnobody i halive⟩

/-- The file of a living object is at the path. -/
theorem current_of_own (h : lockOutline.Holds s) (halive : (s.pc i).alive = true)
    (hown : (s.pc i).own.isSome) : s.shared.current = (s.pc i).own := by
  obtain ⟨f, hf⟩ := Option.isSome_iff_exists.mp hown
  rw [hf]
  exact (h.point i).current halive f hf

/-- **Every file operation keeps the outline**, if only stale files are stolen. -/
theorem lockOperation_keeps (h : lockOutline.Holds s) (halive : (s.pc i).alive = true)
    (hfresh : HoldersFresh s (i, .step now)) (hok : StealsJudged s (i, .step now))
    (hs : lockOperation s.shared (s.pc i) now = some (u, p)) : lockOutline.Keeps s i u p := by
  have hpoint := h.point i
  -- what leaves the path and the object's file alone
  have hplain : ∀ {ph : LockPhase}, ph.isPlain = true →
      lockOutline.Keeps s i s.shared { s.pc i with phase := ph } := fun hph =>
    lockKeeps_plain h rfl rfl rfl hpoint.held (fun hal => hal) hph
  unfold lockOperation at hs
  cases hphase : (s.pc i).phase with
  | idle =>
    rw [hphase] at hs
    cases hs
  | create stealStale started =>
    rw [hphase] at hs
    simp only at hs
    split at hs
    · rename_i hfree
      cases hs
      exact lockKeeps_create h hfree _
    · split at hs <;> cases hs <;> exact hplain rfl
  | staleExists =>
    rw [hphase] at hs
    simp only at hs
    split at hs <;> cases hs <;> exact hplain rfl
  | staleRead =>
    rw [hphase] at hs
    simp only at hs
    split at hs
    · cases hs
      exact hplain rfl
    · rename_i f hthere
      split at hs
      · cases hs
        exact hplain rfl
      · rename_i info hinfo
        split at hs <;> cases hs
        · rename_i hold
          exact lockKeeps_judge h halive hthere hfresh
            (fun hf => absurd (hf.2 info hinfo) (Int.not_le.mpr hold)) hpoint.held
        · exact hplain rfl
  | staleStat =>
    rw [hphase] at hs
    simp only at hs
    split at hs
    · cases hs
      exact hplain rfl
    · rename_i f hthere
      split at hs <;> cases hs
      · rename_i hold
        exact lockKeeps_judge h halive hthere hfresh
          (fun hf => absurd hf.1 (Int.not_le.mpr hold)) hpoint.held
      · exact hplain rfl
  | steal judged =>
    have hjudged : ∀ f ∈ s.shared.current, f = judged := hok judged (by rw [hphase]; rfl)
    rw [hphase] at hs
    simp only at hs
    split at hs
    · cases hs
      exact hplain rfl
    · rename_i f hthere
      cases hs
      rw [hjudged f hthere] at hthere
      exact lockKeeps_steal h halive hphase hthere
  | write f info =>
    have hown := hpoint.write f info hphase
    rw [hphase] at hs
    cases hs
    refine lockKeeps_plain h rfl rfl rfl (fun _ => ?_) (fun hal => hal) rfl
    simp only [hown, Option.isSome_some]
  | heartbeatOpen info =>
    have hown := hpoint.heartbeatOpen info hphase
    have hcur := current_of_own h halive hown
    obtain ⟨f, hf⟩ := Option.isSome_iff_exists.mp hown
    rw [hphase] at hs
    simp only [hcur, hf] at hs
    cases hs
    refine lockKeeps_same h rfl rfl hf.symm (fun hal => hal) nofun ?_
    refine ⟨?_, ?_, fun _ => rfl, nofun, nofun, nofun, ?_, fun hp => hp.elim nofun nofun⟩
    · rw [← hf]
      exact hpoint.known
    · rw [← hf]
      exact hpoint.current
    · intro f' info' hp
      cases hp
      rfl
  | heartbeatWrite f info =>
    rw [hphase] at hs
    cases hs
    exact lockKeeps_plain h rfl rfl rfl hpoint.held (fun hal => hal) rfl
  | releaseExists =>
    have hown := hpoint.release (.inl hphase)
    have hcur := current_of_own h halive hown
    obtain ⟨f, hf⟩ := Option.isSome_iff_exists.mp hown
    rw [hphase] at hs
    simp only [hcur, hf] at hs
    cases hs
    refine lockKeeps_same h rfl rfl hf.symm (fun hal => hal) nofun ?_
    refine ⟨?_, ?_, fun _ => rfl, nofun, nofun, nofun, nofun, fun _ => rfl⟩
    · rw [← hf]
      exact hpoint.known
    · rw [← hf]
      exact hpoint.current
  | releaseUnlink =>
    have hown := hpoint.release (.inr hphase)
    have hcur := current_of_own h halive hown
    obtain ⟨f, hf⟩ := Option.isSome_iff_exists.mp hown
    rw [hphase] at hs
    simp only [hcur, hf] at hs
    cases hs
    refine lockKeeps_unlink h (fun j hj hal => ?_) rfl rfl rfl
    rcases (h.apart i j hj.symm).own halive hal with hnone | hnone
    · rw [hnone] at hf
      cases hf
    · exact hnone

/-- **Every call keeps the outline.** -/
theorem lockStep_keeps (h : lockOutline.Holds s) {a : LockAct} (hfresh : HoldersFresh s (i, a))
    (hok : StealsJudged s (i, a)) (hs : lockStep s.shared (s.pc i) a = some (u, p)) :
    lockOutline.Keeps s i u p := by
  unfold lockStep at hs
  rw [Option.ite_none_right_eq_some] at hs
  obtain ⟨halive, hs⟩ := hs
  have hpoint := h.point i
  split at hs
  · cases hs
    refine ⟨h.inv, ⟨hpoint.known, nofun, hpoint.held, hpoint.judged, hpoint.write,
      hpoint.heartbeatOpen, hpoint.heartbeatWrite, hpoint.release⟩, fun j _ => h.point j,
      fun j hj => ⟨nofun, nofun, (h.apart i j hj.symm).right⟩⟩
  · exact lockOperation_keeps h halive hfresh hok hs
  · cases hs
    exact lockKeeps_plain h rfl rfl rfl hpoint.held (fun hal => hal) rfl
  · rename_i hphase
    have hsame : lockOutline.Keeps s i s.shared (s.pc i) :=
      lockKeeps_plain h rfl rfl rfl hpoint.held (fun hal => hal) (by rw [hphase]; rfl)
    split at hs
    · cases hs
      exact hsame
    · rename_i info hinfo
      split at hs
      · rename_i hheld
        cases hs
        refine lockKeeps_same h rfl rfl rfl (fun hal => hal) nofun ?_
        exact ⟨hpoint.known, hpoint.current, hpoint.held, nofun, nofun,
          fun _ _ => hpoint.held hheld, nofun, fun hp => hp.elim nofun nofun⟩
      · cases hs
        exact hsame
  · rename_i hphase
    cases hs
    split
    · rename_i hheld
      refine lockKeeps_same h rfl rfl rfl (fun hal => hal) nofun ?_
      exact ⟨hpoint.known, hpoint.current, hpoint.held, nofun, nofun, nofun, nofun,
        fun _ => hpoint.held hheld⟩
    · exact lockKeeps_plain h rfl rfl rfl hpoint.held (fun hal => hal) (by rw [hphase]; rfl)
  · cases hs

/-- **Releases and heartbeats act on the object's own file.** -/
theorem lockOutline_touchesOwn (h : lockOutline.Holds s) {a : LockAct}
    (halive : (s.pc i).alive = true) : TouchesOwn s (i, a) := by
  unfold TouchesOwn
  split
  · rename_i hphase
    have hown := (h.point i).release (.inr hphase)
    rw [current_of_own h halive hown]
    exact fun f hf => hf
  · rename_i info _ hphase
    have hown := (h.point i).heartbeatOpen info hphase
    obtain ⟨f, hf⟩ := Option.isSome_iff_exists.mp hown
    exact ⟨f, (h.point i).current halive f hf, hf⟩
  · rename_i f info _ hphase
    have hown := (h.point i).heartbeatWrite f info hphase
    exact ⟨(h.point i).current halive f hown, hown⟩
  · trivial

theorem lockOutline_excludes (h : lockOutline.Holds s) : MutualExclusion s := by
  intro i j hi hj
  by_contra hne
  have hown := (h.point i).held hi.2
  have hother := (h.point j).held hj.2
  rcases (h.apart i j hne).own hi.1 hj.1 with hnone | hnone
  · rw [hnone] at hown
    cases hown
  · rw [hnone] at hother
    cases hother

end Steps

/-! ## 4. Runs -/

/-- A path nobody alive has a lock at; a dead holder may have left its file. -/
structure AbandonedPath extends LockPath where
  known : ∀ f ∈ current, f < next

/-- Lock objects that have not acquired anything. -/
structure NewLock extends LockObject where
  notHeld : held = false
  ownsNothing : own = none
  notBegun : phase = .idle

def AbandonedPath.threads {k : Nat} (path : AbandonedPath) (objects : Fin k → NewLock) :
    LockThreads k where
  shared := path.toLockPath
  pc := fun i => (objects i).toLockObject

theorem AbandonedPath.holds {k : Nat} (path : AbandonedPath) (objects : Fin k → NewLock) :
    lockOutline.Holds (path.threads objects) := by
  have hnot : ∀ {i f}, f ∉ (objects i).own := by
    intro i f hf
    rw [(objects i).ownsNothing] at hf
    cases hf
  refine ⟨path.known, fun i => .plain ?_ (fun f hf => absurd hf hnot)
    (fun _ f hf => absurd hf hnot) fun hheld => ?_, fun i j _ => ⟨fun _ _ => .inl ?_,
    fun _ f hf => absurd hf hnot, fun _ f hf => absurd hf hnot⟩⟩
  · show (objects i).phase.isPlain = true
    rw [(objects i).notBegun]
    rfl
  · have hfree := (objects i).notHeld
    have hheld : (objects i).held = true := hheld
    rw [hfree] at hheld
    cases hheld
  · exact (objects i).ownsNothing

/-- **The lock file excludes**: for any number of objects on one path, dying at any point, with and
    without stealing, if no living holder's lock is ever older than `stale_after` and stealers only
    remove files they have judged stale, at most one living object holds the lock, and no release
    or heartbeat removes or overwrites another's file. -/
theorem lock_excludes {k : Nat} (path : AbandonedPath) (objects : Fin k → NewLock)
    {s : LockThreads k} {tr : List (Lib.Trans (LockThreads k) (Fin k × LockAct))}
    (hrun : Lib.Interleaving lockStep (path.threads objects) tr s)
    (hfresh : ∀ x ∈ tr, HoldersFresh x.pre x.ev) (hok : ∀ x ∈ tr, StealsJudged x.pre x.ev) :
    MutualExclusion s ∧ ∀ x ∈ tr, MutualExclusion x.post ∧ TouchesOwn x.pre x.ev := by
  have hinv := lockOutline.run (G := fun a e => HoldersFresh a e ∧ StealsJudged a e) hrun
    (path.holds objects) (fun a e u p ha hg hs => lockStep_keeps ha hg.1 hg.2 hs)
    fun x hx => ⟨hfresh x hx, hok x hx⟩
  refine ⟨lockOutline_excludes hinv.1, fun x hx => ?_⟩
  obtain ⟨hpre, hpost⟩ := hinv.2 x hx
  refine ⟨lockOutline_excludes hpost, ?_⟩
  obtain ⟨p, hs, -⟩ := Lib.Threads.next_eq_some (hrun.isStep x hx)
  exact lockOutline_touchesOwn hpre (Option.ite_none_right_eq_some.mp hs).1

/-! ### A stale lock and two that want it -/

def newPath : AbandonedPath where
  current := none
  files := fun _ => { content := none, mtime := 0 }
  next := 0
  known := nofun

/-- Three processes with a lock that is stale after 60 seconds. -/
def lockUsers : Fin 3 → NewLock := fun i =>
  { node := "node", pid := i.val, op := "lock", staleAfter := 60
    notHeld := rfl, ownsNothing := rfl, notBegun := rfl }

def lockTrace (es : List (Fin 3 × LockAct)) : List (Lib.Trans (LockThreads 3) (Fin 3 × LockAct)) :=
  Lib.trace (fun s e => s.next lockStep e) (newPath.threads lockUsers) es

theorem lockTrace_run (es : List (Fin 3 × LockAct)) :
    ∃ s, Lib.Interleaving lockStep (newPath.threads lockUsers) (lockTrace es) s :=
  Lib.Run.trace _ _ _

instance {k : Nat} (s : LockThreads k) (e : Fin k × LockAct) : Decidable (HoldersFresh s e) :=
  match e with
  | (i, .step now) => inferInstanceAs (Decidable (∀ j, (s.pc j).alive = true →
      ∀ f ∈ (s.pc j).own, _ - _ ≤ (s.pc i).staleAfter ∧ ∀ info ∈ _, now - _ ≤ _))
  | (_, .acquire _ _) | (_, .heartbeat _) | (_, .release) | (_, .die) => isTrue trivial

instance {k : Nat} (s : LockThreads k) (e : Fin k × LockAct) : Decidable (StealsJudged s e) :=
  match e with
  | (i, .step _) => inferInstanceAs (Decidable (∀ judged ∈ (s.pc i).phase.judged,
      ∀ f ∈ s.shared.current, f = judged))
  | (_, .acquire _ _) | (_, .heartbeat _) | (_, .release) | (_, .die) => isTrue trivial

/-- `0` acquires the lock and dies. -/
def lockLeft : List (Fin 3 × LockAct) :=
  [(0, .acquire false 0), (0, .step 0), (0, .step 0), (0, .die)]

/-- A minute later `1` steals the lock; `2` finds it fresh, and has it after `1`. -/
def stolenOnce : List (Fin 3 × LockAct) :=
  lockLeft ++ [(1, .acquire true 100)] ++ List.replicate 6 (1, .step 100) ++
    [(2, .acquire true 110)] ++ List.replicate 3 (2, .step 110) ++
    [(1, .heartbeat 120)] ++ List.replicate 2 (1, .step 120) ++
    [(1, .release)] ++ List.replicate 2 (1, .step 130) ++
    [(2, .acquire true 140)] ++ List.replicate 2 (2, .step 140)

theorem lock_excludes_stolenOnce :
    ∃ s, Lib.Interleaving lockStep (newPath.threads lockUsers) (lockTrace stolenOnce) s ∧
      (lockTrace stolenOnce).length = stolenOnce.length ∧ (s.pc 2).held = true ∧
      MutualExclusion s := by
  obtain ⟨s, hrun⟩ := lockTrace_run stolenOnce
  have hends : ∃ x ∈ (lockTrace stolenOnce).getLast?, (x.post.pc 2).held = true := by
    decide +kernel
  obtain ⟨x, hx, hheld⟩ := hends
  rw [← hrun.eq_post hx] at hheld
  exact ⟨s, hrun, by decide +kernel, hheld,
    (lock_excludes newPath lockUsers hrun (by decide +kernel) (by decide +kernel)).1⟩

/-- `1` and `2` have both judged the lock of `0` stale. -/
def stolenTwice : List (Fin 3 × LockAct) :=
  lockLeft ++ [(1, .acquire true 100), (2, .acquire true 100)] ++
    (List.replicate 3 [(1, .step 100), (2, .step 100)]).flatten ++
    List.replicate 3 (1, .step 100) ++ List.replicate 3 (2, .step 100) ++
    [(1, .release), (1, .step 100)]

/-- **Both stealers hold the lock**: the second has removed the lock file of the first. And when the
    first releases, it removes the lock file of the second. -/
theorem stolenTwice_bothHold :
    ∃ s, Lib.Interleaving lockStep (newPath.threads lockUsers) (lockTrace stolenTwice) s ∧
      (∀ x ∈ lockTrace stolenTwice, HoldersFresh x.pre x.ev) ∧
      (∀ i, (s.pc i).held = true) ∧ (s.pc 1).alive = true ∧ (s.pc 2).alive = true ∧
      ¬ MutualExclusion s ∧ ¬ TouchesOwn s (1, .step 100) := by
  obtain ⟨s, hrun⟩ := lockTrace_run stolenTwice
  have hends : ∃ x ∈ (lockTrace stolenTwice).getLast?, (∀ i, (x.post.pc i).held = true) ∧
      (x.post.pc 1).alive = true ∧ (x.post.pc 2).alive = true ∧
      (x.post.pc 1).phase = .releaseUnlink ∧ (x.post.pc 1).own = some 1 ∧
      x.post.shared.current = some 2 := by
    decide +kernel
  obtain ⟨x, hx, hheld, hone, htwo, hphase, hown, hcurrent⟩ := hends
  rw [← hrun.eq_post hx] at hheld hone htwo hphase hown hcurrent
  refine ⟨s, hrun, by decide +kernel, hheld, hone, htwo, fun hexcl => ?_, fun htouch => ?_⟩
  · exact absurd (hexcl 1 2 ⟨hone, hheld 1⟩ ⟨htwo, hheld 2⟩) (by decide)
  · unfold TouchesOwn at htouch
    simp only [hphase] at htouch
    have hsame := htouch 2 hcurrent
    rw [hown] at hsame
    exact absurd hsame (by decide)

end CccStorage
