/-
  File:      CccStorage/ServeLoop.lean
  Subject:   The loop of the daemon (`_serve_forever`, `mountd/daemon.py`): when it runs the four
             periodic passes.

  Times are exact numbers of seconds. A pass may take any time, change the service in any way and
  raise any `Exception`; the loop goes on.

  * `ServeConfig`, `turn`, `iteration`, `serveLoop` -- the loop, with the passes it has run;
  * `begun_serveLoop` -- the readings of the clock at which a pass is run;
  * `serveLoop_schedule` -- never early, never overdue, as often as its interval allows, and
    whatever the other passes do.
-/
import CccStorage.Lib.Steps
import CccStorage.Lib.Timer

namespace CccStorage.Serve

/-! ## 1. The loop -/

/-- The periodic passes, in the order of the loop. -/
inductive Pass where
  /-- `reap_idle_mounts` -/
  | reap
  /-- `publish_dirty_epochs` -/
  | publish
  /-- `run_background_compaction_once` -/
  | compact
  /-- `run_cold_storage_once` -/
  | cold
  deriving DecidableEq

def passes : List Pass := [.reap, .publish, .compact, .cold]

structure ServeConfig where
  idleUnmountTtl : ℚ := 0
  idleReapInterval : ℚ := 30
  dirtyPublishInterval : ℚ := 1
  compactionInterval : ℚ := 0
  coldStorageInterval : ℚ := 0

namespace ServeConfig

variable (cfg : ServeConfig)

def interval : Pass → ℚ
  | .reap => cfg.idleReapInterval
  | .publish => cfg.dirtyPublishInterval
  | .compact => cfg.compactionInterval
  | .cold => cfg.coldStorageInterval

/-- The setting that turns the pass on when it is positive. -/
def switch : Pass → ℚ
  | .reap => cfg.idleUnmountTtl
  | .publish => cfg.dirtyPublishInterval
  | .compact => cfg.compactionInterval
  | .cold => cfg.coldStorageInterval

/-- `max(interval, 0.1)` -/
def wait (p : Pass) : ℚ := max (cfg.interval p) (1 / 10)

end ServeConfig

/-- The service, when each pass is next due, and the passes run so far with the reading of the clock
    in their iteration. -/
structure ServeState (σ : Type*) where
  service : σ
  next : Pass → ℚ
  began : List (Pass × ℚ)

section

variable {σ ε : Type*} (cfg : ServeConfig) (run : Pass → σ → Lib.Outcome σ ε)

/-- One `if` of the loop body; `contextlib.suppress(Exception)` drops what the pass raises, not what
    it has done. -/
def turn (now : ℚ) (s : ServeState σ) (p : Pass) : ServeState σ :=
  if 0 < cfg.switch p ∧ s.next p ≤ now then
    { service := (run p s.service).1
      next := Function.update s.next p (now + cfg.wait p)
      began := s.began ++ [(p, now)] }
  else s

/-- The loop body at a reading of the clock. -/
def iteration (s : ServeState σ) (now : ℚ) : ServeState σ := passes.foldl (turn cfg run now) s

/-- The loop, from the reading of the clock for each pass on. -/
def serveLoop (start : Pass → ℚ) (service : σ) (nows : List ℚ) : ServeState σ :=
  nows.foldl (iteration cfg run)
    { service, next := fun p => start p + cfg.wait p, began := [] }

/-- The readings at which a pass was run. -/
def ServeState.begun (s : ServeState σ) (p : Pass) : List ℚ :=
  (s.began.filter fun x => x.1 = p).map fun x => x.2

/-! ## 2. One iteration -/

variable {cfg run} {s : ServeState σ} {now : ℚ} {p q : Pass}

theorem turn_other (h : q ≠ p) : (turn cfg run now s q).next p = s.next p ∧
    (turn cfg run now s q).begun p = s.begun p := by
  unfold turn
  split
  · refine ⟨Function.update_of_ne h.symm _ _, ?_⟩
    unfold ServeState.begun
    rw [List.filter_append, List.filter_cons_of_neg (by simpa using h), List.filter_nil,
      List.append_nil]
  · exact ⟨rfl, rfl⟩

theorem turn_self : (turn cfg run now s p).next p =
      (if 0 < cfg.switch p ∧ s.next p ≤ now then now + cfg.wait p else s.next p) ∧
    (turn cfg run now s p).begun p =
      s.begun p ++ if 0 < cfg.switch p ∧ s.next p ≤ now then [now] else [] := by
  unfold turn
  split
  · refine ⟨Function.update_self .., ?_⟩
    unfold ServeState.begun
    rw [List.filter_append, List.map_append, List.filter_cons_of_pos (by simp), List.filter_nil]
    rfl
  · exact ⟨rfl, (List.append_nil _).symm⟩

theorem turns_other {ps : List Pass} (h : p ∉ ps) :
    (ps.foldl (turn cfg run now) s).next p = s.next p ∧
      (ps.foldl (turn cfg run now) s).begun p = s.begun p := by
  induction ps generalizing s with
  | nil => exact ⟨rfl, rfl⟩
  | cons q ps ih =>
      rw [List.mem_cons, not_or] at h
      have hother : q ≠ p := Ne.symm h.1
      rw [List.foldl_cons, (ih h.2).1, (ih h.2).2, (turn_other hother).1, (turn_other hother).2]
      exact ⟨rfl, rfl⟩

/-- **An iteration runs each pass at most once**, and if it is due. -/
theorem iteration_spec : (iteration cfg run s now).next p =
      (if 0 < cfg.switch p ∧ s.next p ≤ now then now + cfg.wait p else s.next p) ∧
    (iteration cfg run s now).begun p =
      s.begun p ++ if 0 < cfg.switch p ∧ s.next p ≤ now then [now] else [] := by
  obtain ⟨before, after, hsplit, hbefore, hafter⟩ :
      ∃ before after, passes = before ++ p :: after ∧ p ∉ before ∧ p ∉ after := by
    cases p with
    | reap => exact ⟨[], [.publish, .compact, .cold], rfl, by decide, by decide⟩
    | publish => exact ⟨[.reap], [.compact, .cold], rfl, by decide, by decide⟩
    | compact => exact ⟨[.reap, .publish], [.cold], rfl, by decide, by decide⟩
    | cold => exact ⟨[.reap, .publish, .compact], [], rfl, by decide, by decide⟩
  unfold iteration
  rw [hsplit, List.foldl_append, List.foldl_cons, (turns_other hafter).1, (turns_other hafter).2,
    turn_self.1, turn_self.2, (turns_other hbefore).1, (turns_other hbefore).2]
  exact ⟨rfl, rfl⟩

/-! ## 3. The whole loop -/

variable (cfg run) in
/-- **When a pass is run** depends on its own setting and on the clock alone. -/
theorem begun_serveLoop (start : Pass → ℚ) (service : σ) (nows : List ℚ) (p : Pass) :
    (serveLoop cfg run start service nows).begun p =
      if 0 < cfg.switch p then Lib.polled (cfg.wait p) (start p + cfg.wait p) nows else [] := by
  suffices hgen : ∀ s : ServeState σ, (nows.foldl (iteration cfg run) s).begun p =
      s.begun p ++ if 0 < cfg.switch p then Lib.polled (cfg.wait p) (s.next p) nows else [] from
    hgen _
  induction nows with
  | nil =>
      intro s
      rw [List.foldl_nil, Lib.polled, ite_self, List.append_nil]
  | cons now nows ih =>
      intro s
      rw [List.foldl_cons, ih, iteration_spec.1, iteration_spec.2, Lib.polled]
      by_cases hon : 0 < cfg.switch p
      · by_cases hdue : s.next p ≤ now
        · simp only [hon, hdue, and_self, if_true, List.append_assoc, List.singleton_append]
        · simp only [hon, hdue, and_false, if_true, if_false, List.append_nil]
      · simp only [hon, false_and, if_false, List.append_nil]

end

/-- **What the readings at which a pass is run keep to**, on a clock that reads `nows` after
    `start`. -/
structure KeepsSchedule (wait start : ℚ) (nows begun : List ℚ) : Prop where
  reading : begun.Sublist nows
  notEarly : ∀ t ∈ begun, start + wait ≤ t
  spaced : begun.Pairwise fun s t => s + wait ≤ t
  inTime : ∀ t ∈ nows, t < start + wait ∨ ∃ s ∈ begun, s ≤ t ∧ t < s + wait
  most : ∀ l : List ℚ, l.Sublist nows → (∀ t ∈ l, start + wait ≤ t) →
    (l.Pairwise fun s t => s + wait ≤ t) → l.length ≤ begun.length

/-- **The passes keep to their schedules**, whatever they do to the service, whatever they raise
    and however long they take: a pass that is turned off never runs; one that is turned on never
    runs before its interval is over, is never overdue at a reading of the clock, and runs as often
    as that allows. -/
theorem serveLoop_schedule {σ ε : Type*} (cfg : ServeConfig) (run : Pass → σ → Lib.Outcome σ ε)
    (start : Pass → ℚ) (service : σ) {nows : List ℚ} (hclock : nows.Pairwise (· ≤ ·)) (p : Pass) :
    (cfg.switch p ≤ 0 → (serveLoop cfg run start service nows).begun p = []) ∧
    (0 < cfg.switch p → KeepsSchedule (cfg.wait p) (start p) nows
      ((serveLoop cfg run start service nows).begun p)) := by
  have hwait : 0 < cfg.wait p := lt_of_lt_of_le (by norm_num) (le_max_right _ _)
  rw [begun_serveLoop]
  refine ⟨fun hoff => if_neg (not_lt.mpr hoff), fun hon => ?_⟩
  rw [if_pos hon]
  exact {
    reading := Lib.polled_sublist _ _ _
    notEarly := fun t ht => Lib.due_le_polled hwait.le ht
    spaced := Lib.polled_spaced hwait.le _ _
    inTime := fun t ht => Lib.polled_inTime hwait hclock ht
    most := fun l hl hdue hspaced => Lib.polled_most hclock hl hspaced hdue }

/-- Publishing every second, on a clock read every 0.4 seconds, while every publish fails. -/
theorem serveLoop_schedule_publish :
    (serveLoop {} (fun _ (n : Nat) => (n + 1, Except.error ())) (fun _ => 0) 0
        [2/5, 4/5, 6/5, 8/5, 2, 12/5]).begun .publish = [6/5, 12/5] ∧
      KeepsSchedule 1 0 [2/5, 4/5, 6/5, 8/5, 2, 12/5] [6/5, 12/5] := by
  have hbegun : (serveLoop {} (fun _ (n : Nat) => (n + 1, Except.error ())) (fun _ => 0) 0
      [2/5, 4/5, 6/5, 8/5, 2, 12/5]).begun .publish = [6/5, 12/5] := by
    decide +kernel
  have hclock : [2/5, 4/5, 6/5, 8/5, 2, (12/5 : ℚ)].Pairwise (· ≤ ·) := by decide +kernel
  have hkeeps := (serveLoop_schedule {} (fun _ (n : Nat) => (n + 1, Except.error ())) (fun _ => 0) 0
    hclock .publish).2 (by decide +kernel)
  rw [hbegun] at hkeeps
  have hwait : ServeConfig.wait {} .publish = 1 := by decide +kernel
  rw [hwait] at hkeeps
  exact ⟨hbegun, hkeeps⟩

end CccStorage.Serve
