/-
  File:      CccStorage/EnvReaders.lean
  Subject:   The two readers of the environment: `with_env` of the daemon's configuration, and
             `ColdStorageConfig.from_env` (`cold/config.py`) and `LevelPolicy.from_env`
             (`mountd/workers/levels.py`), which a `MountdService` without configs falls back to.

  * `ColdStorageConfig.fromEnv`, `levelPolicyFromEnv` -- the second reader;
  * `readBack` -- what `with_env` makes of one variable;
  * `location_value`, `flag_value`, `seconds_value`, ... -- the same, by kinds of fields;
  * `readers_agree_iff` -- the environments on which the two readers agree.
-/
import CccStorage.ConfigLayers

namespace CccStorage.Mountd

/-! ## 1. The second reader -/

/-- The numeric built-ins the second reader uses besides. A float is taken up to `==`, so that
    there is one zero; nan is one value of its own. -/
structure PyFloats (F : Type) extends PyNumbers F where
  isNan : F → Bool
  /-- `max(0.0, x)`. -/
  atLeastZero : F → F

/-- What is documented of them: `float` takes no notice of white space around a number, `max` gives
    its first argument unless the second is greater, and no number of seconds is nan. -/
structure PyFloats.Documented {F : Type} (py : PyFloats F) : Prop where
  strip : ∀ text x, py.ofText text = some x → py.ofText (strip text) = some x
  max_number : ∀ x, py.negative x = false → py.isNan x = false → py.atLeastZero x = x
  max_nan : ∀ x, py.isNan x = true → py.atLeastZero x = py.seconds 0
  seconds_number : ∀ n, py.isNan (py.seconds n) = false

/-- `ColdStorageConfig`. -/
@[ext]
structure ColdStorageConfig (F : Type) where
  backend : String
  prefixText : String
  enabled : Bool
  archiveEnabled : Bool
  mirrorAfterCommit : Bool
  removeHot : Bool
  idleSeconds : F
  intervalSeconds : F
  bucket : String
  endpointUrl : String
  regionName : String
  addressingStyle : String

section

variable {F : Type} (py : PyFloats F)

/-- The `cold_storage` of a configuration. -/
def coldStorageOf (cfg : MountdConfig F) : ColdStorageConfig F where
  backend := cfg (.text .coldBackend)
  prefixText := cfg (.text .coldPrefix)
  enabled := cfg (.enabled .enabled)
  archiveEnabled := cfg (.enabled .archiveEnabled)
  mirrorAfterCommit := cfg (.switch .coldMirrorAfterCommit)
  removeHot := cfg (.switch .coldRemoveHot)
  idleSeconds := cfg (.seconds .coldIdle)
  intervalSeconds := cfg (.seconds .coldInterval)
  bucket := cfg (.location .bucket)
  endpointUrl := cfg (.location .endpointUrl)
  regionName := cfg (.location .regionName)
  addressingStyle := cfg (.location .addressingStyle)

/-- `env.get(name, default).strip() or default`. -/
def textEnv (env : Environment) (name default : String) : String :=
  let text := strip ((env name).getD default)
  if text = "" then default else text

/-- `_flag(value, default)`, and `_env_flag`. -/
def flag (value : Option String) (default : Bool) : Bool :=
  match value with
  | none => default
  | some v => if strip v = "" then default else lower (strip v) ∈ TRUE

/-- `_float_env(env, name, default)`. -/
def floatEnv (env : Environment) (name : String) (default : Nat) : F :=
  let raw := strip ((env name).getD "")
  if raw = "" then py.seconds default
  else
    match py.ofText raw with
    | none => py.seconds default
    | some value => py.atLeastZero value

/-- `env.get(name, env.get(other, default))`. -/
def firstSet (env : Environment) (name other default : String) : String :=
  (env name).getD ((env other).getD default)

/-- `ColdStorageConfig.from_env(env)`. -/
def ColdStorageConfig.fromEnv (env : Environment) : ColdStorageConfig F :=
  let bucket := strip (firstSet env "CCC_COLD_STORAGE_BUCKET" "CCC_S3_BUCKET" "")
  let endpoint := strip (firstSet env "CCC_COLD_STORAGE_ENDPOINT" "CCC_S3_ENDPOINT" "")
  let configured := bucket ≠ "" && endpoint ≠ ""
  { backend := textEnv env "CCC_COLD_STORAGE_BACKEND" "s3"
    prefixText := textEnv env "CCC_COLD_STORAGE_PREFIX" "ccc-storage/cold"
    enabled := flag (env "CCC_COLD_STORAGE_ENABLED") configured
    archiveEnabled := flag (env "CCC_COLD_STORAGE_ARCHIVE_ENABLED") configured
    mirrorAfterCommit := flag (env "CCC_COLD_STORAGE_MIRROR_AFTER_COMMIT") false
    removeHot := flag (env "CCC_COLD_STORAGE_REMOVE_HOT") true
    idleSeconds := floatEnv py env "CCC_COLD_STORAGE_IDLE_SECONDS" (180 * 24 * 60 * 60)
    intervalSeconds := floatEnv py env "CCC_COLD_STORAGE_INTERVAL_SECONDS" (7 * 24 * 60 * 60)
    bucket
    endpointUrl := endpoint
    regionName := firstSet env "CCC_COLD_STORAGE_REGION" "CCC_S3_REGION" "us-east-1"
    addressingStyle := firstSet env "CCC_COLD_STORAGE_ADDRESSING_STYLE" "CCC_S3_ADDRESSING_STYLE"
      "auto" }

/-- A `LevelPolicyError`, or the `ValueError` of `int`. -/
inductive LevelsFromEnvError where
  | policy (cause : LevelPolicyError)
  | value
  deriving DecidableEq, Repr

/-- `raw.isdigit()`. -/
def isDigits (raw : String) : Bool := raw ≠ "" && raw.toList.all py.isDigit

/-- `int(raw) if raw.isdigit() and int(raw) else 1`. -/
def maxPacksEnv (env : Environment) : Except LevelsFromEnvError Nat :=
  let raw := strip ((env "CCC_MAX_PACKS_PER_LEVEL").getD "")
  if isDigits py raw then
    match parseInt py.toPyNumbers raw with
    | none => .error .value
    | some n => .ok (if n ≠ 0 then n.toNat else 1)
  else .ok 1

/-- `float(interval_raw) if interval_raw else 0.0`, and 0.0 where it is no number. -/
def intervalEnv (env : Environment) : F :=
  let raw := strip ((env "CCC_COMPACT_INTERVAL_SECONDS").getD "")
  if raw = "" then py.seconds 0 else (py.ofText raw).getD (py.seconds 0)

/-- `parse_human_bytes(online_raw)`, or of the default. -/
def onlineEnv (env : Environment) : Except LevelPolicyError Nat :=
  parseHumanBytes py.toPyNumbers (.text (textEnv env "CCC_MAX_ONLINE_COMPACTION_BYTES" "10G"))

/-- `LevelPolicy.from_env(env)`, with its `trigger_interval_seconds`. -/
def levelPolicyFromEnv (env : Environment) : Except LevelsFromEnvError (LevelPolicy × F) :=
  match hlevels : parseLevels py.toPyNumbers
      (textEnv env "CCC_PACK_LEVELS" "0:100G,1:10G,2:1G,3:100M,4:10M"),
    onlineEnv py env, maxPacksEnv py env with
  | .error e, _, _ | .ok _, .error e, _ => .error (.policy e)
  | .ok _, .ok _, .error e => .error e
  | .ok levels, .ok online, .ok packs => .ok
    ({ levels
       maxPacksPerLevel := packs
       allowBaseCompaction := flag (env "CCC_ALLOW_BASE_COMPACTION") false
       maxOnlineCompactionBytes := online
       triggerAfterCommit := flag (env "CCC_COMPACT_AFTER_COMMIT") true
       nonempty := (parseLevels_increasing py.toPyNumbers hlevels).1
       increasing := (parseLevels_increasing py.toPyNumbers hlevels).2 },
      intervalEnv py env)

/-- `self.level_policy()`, with its `trigger_interval_seconds`. -/
def levelPolicyOf (cfg : MountdConfig F) : Except ConfigError (LevelPolicy × F) :=
  (levelPolicy py.toPyNumbers cfg).map fun policy => (policy, cfg (.seconds .compactionInterval))

/-! ## 2. Texts -/

/-- What `with_env` takes of a variable. -/
def nonBlank (value : Option String) : Option String := value.filter fun v => strip v ≠ ""

variable {env : Environment} {v name other default : String}

@[simp] theorem strip_strip (s : String) : strip (strip s) = strip s := by
  unfold strip
  have h := dropWhile_reverse_dropWhile _ (dropWhile_idem isSpace s.toList)
  rw [String.toList_ofList, h, List.reverse_reverse, dropWhile_idem]

theorem nonBlank_none : nonBlank none = none := rfl

theorem nonBlank_blank (h : strip v = "") : nonBlank (some v) = none := by
  rw [nonBlank, Option.filter_some_neg]
  simp [h]

theorem nonBlank_some (h : strip v ≠ "") : nonBlank (some v) = some v := by
  rw [nonBlank, Option.filter_some_pos]
  simp [h]

theorem envFirst_one : envFirst env [name] = nonBlank (env name) := by
  rw [envFirst, List.findSome?_cons, List.findSome?_nil, nonBlank]
  cases (env name).filter fun v => strip v ≠ "" <;> rfl

theorem envFirst_two :
    envFirst env [name, other] = (nonBlank (env name)).or (nonBlank (env other)) := by
  rw [envFirst, List.findSome?_cons, List.findSome?_cons, List.findSome?_nil, nonBlank, nonBlank]
  cases (env name).filter fun v => strip v ≠ "" with
  | some v => rfl
  | none => cases (env other).filter fun v => strip v ≠ "" <;> rfl

theorem textEnv_eq (hdefault : strip default = default) :
    textEnv env name default = ((nonBlank (env name)).map strip).getD default := by
  unfold textEnv
  cases hvar : env name with
  | none => simp [nonBlank_none, hdefault]
  | some v =>
    by_cases hv : strip v = ""
    · simp [nonBlank_blank hv, hv]
    · simp [nonBlank_some hv, hv]

/-! ## 3. One variable of the first reader -/

theorem allEnvRules_fields :
    (allEnvRules (F := F)).map EnvRule.field = (allEnvRules (F := Unit)).map EnvRule.field := rfl

theorem allEnvRules_nodup : ((allEnvRules (F := Unit)).map EnvRule.field).Nodup := by decide

theorem rule_unique {rule rule' : EnvRule F} (h : rule ∈ allEnvRules) (h' : rule' ∈ allEnvRules)
    (hfield : rule'.field = rule.field) : rule' = rule := by
  have hnodup : ((allEnvRules (F := F)).map EnvRule.field).Nodup := by
    rw [allEnvRules_fields]
    exact allEnvRules_nodup
  exact List.inj_on_of_nodup_map hnodup h' h hfield

section

variable {cfg : MountdConfig F}
  (h : withEnv py.toPyNumbers (builtin py.toPyNumbers) env = .ok cfg)

include h

/-- **A variable that is set** gives its field. -/
theorem rule_set {rule : EnvRule F} (hrule : rule ∈ allEnvRules)
    (hset : envFirst env rule.vars = some v) :
    rule.parse py.toPyNumbers env ("$" ++ rule.vars.headD "") v = .ok (cfg rule.field) := by
  obtain ⟨rule', hrule', hgives⟩ := (env_decides py.toPyNumbers h rule.field).1
    ⟨rule, hrule, rfl, by rw [hset]; exact nofun⟩
  obtain rfl := rule_unique hrule hrule' hgives.field
  have hread := Lib.Setting.gives_iff.mp hgives
  rw [hset] at hread
  exact Option.some.inj hread

/-- **A variable that is not set** leaves the built-in, with the flags on where the location is
    configured. -/
theorem rule_unset {rule : EnvRule F} (hrule : rule ∈ allEnvRules)
    (hunset : envFirst env rule.vars = none) :
    cfg rule.field = raised (builtin py.toPyNumbers) (configured cfg) rule.field := by
  refine (env_decides py.toPyNumbers h rule.field).2 ?_
  rintro ⟨rule', hrule', hfield, hset⟩
  rw [rule_unique hrule hrule' hfield] at hset
  exact hset hunset

/-! ## 4. The fields of the first reader -/

theorem text_value (name : String) (t : TextField)
    (hrule : EnvRule.text name t ∈ allEnvRules (F := F)) :
    cfg (.text t) = ((nonBlank (env name)).map strip).getD t.builtin := by
  have hvars : envFirst env (EnvRule.text (F := F) name t).vars = nonBlank (env name) :=
    envFirst_one
  cases hset : nonBlank (env name) with
  | none => exact rule_unset py h hrule (hvars.trans hset)
  | some v => exact (Except.ok.inj (rule_set py h hrule (hvars.trans hset))).symm

theorem textOr_value (name default : String) (t : TextField)
    (hrule : EnvRule.textOr name t default ∈ allEnvRules (F := F))
    (hbuiltin : t.builtin = default) :
    cfg (.text t) = ((nonBlank (env name)).map strip).getD default := by
  have hvars : envFirst env (EnvRule.textOr (F := F) name t default).vars = nonBlank (env name) :=
    envFirst_one
  cases hset : nonBlank (env name) with
  | none => exact (rule_unset py h hrule (hvars.trans hset)).trans hbuiltin
  | some v =>
    have hv : strip v ≠ "" := by
      rw [nonBlank, Option.filter_eq_some_iff] at hset
      simpa using hset.2
    have hparse := Except.ok.inj (rule_set py h hrule (hvars.trans hset))
    have hkept : (if strip v = "" then default else strip v) = strip v := if_neg hv
    exact hparse.symm.trans hkept

theorem location_value (name other default : String) (l : LocationField)
    (hrule : EnvRule.location [name, other] l default ∈ allEnvRules (F := F))
    (hbuiltin : l.builtin = default) :
    cfg (.location l) =
      (((nonBlank (env name)).or (nonBlank (env other))).map strip).getD default := by
  have hvars : envFirst env (EnvRule.location (F := F) [name, other] l default).vars =
      (nonBlank (env name)).or (nonBlank (env other)) := envFirst_two
  cases hset : (nonBlank (env name)).or (nonBlank (env other)) with
  | none => exact (rule_unset py h hrule (hvars.trans hset)).trans hbuiltin
  | some v =>
    have hv : strip v ≠ "" := by
      rcases Option.or_eq_some_iff.mp hset with hset | ⟨-, hset⟩
      · rw [nonBlank, Option.filter_eq_some_iff] at hset
        simpa using hset.2
      · rw [nonBlank, Option.filter_eq_some_iff] at hset
        simpa using hset.2
    have hparse := Except.ok.inj (rule_set py h hrule (hvars.trans hset))
    have hkept : (if strip v = "" then default else strip v) = strip v := if_neg hv
    exact hparse.symm.trans hkept

omit h in
theorem asBool_text {label : String} {b : Bool}
    (hok : asBool py.toPyNumbers label (.text v) = .ok b) :
    b = decide (lower (strip v) ∈ TRUE) := by
  rw [asBool, TomlValue.str] at hok
  · by_cases htrue : lower (strip v) ∈ TRUE
    · rw [if_pos (by simpa using htrue)] at hok
      rw [← Except.ok.inj hok, decide_eq_true htrue]
    · rw [if_neg (by simpa using htrue)] at hok
      split at hok
      · rw [← Except.ok.inj hok, decide_eq_false htrue]
      · cases hok
  · exact nofun

omit h in
theorem flag_eq {b default : Bool} {value : Option String}
    (hset : ∀ v, nonBlank value = some v → b = decide (lower (strip v) ∈ TRUE))
    (hunset : nonBlank value = none → b = default) : b = flag value default := by
  unfold flag
  cases value with
  | none => exact hunset nonBlank_none
  | some v =>
    dsimp only
    by_cases hv : strip v = ""
    · rw [if_pos hv]
      exact hunset (nonBlank_blank hv)
    · rw [if_neg hv]
      exact hset v (nonBlank_some hv)

theorem switch_value (name : String) (s : SwitchField)
    (hrule : EnvRule.switch name s ∈ allEnvRules (F := F)) :
    cfg (.switch s) = flag (env name) s.builtin := by
  have hvars : envFirst env (EnvRule.switch (F := F) name s).vars = nonBlank (env name) :=
    envFirst_one
  refine flag_eq (fun v hset => ?_) fun hunset => ?_
  · have hparse := rule_set py h hrule (hvars.trans hset)
    dsimp only [EnvRule.switch] at hparse
    exact asBool_text py hparse
  · exact rule_unset py h hrule (hvars.trans hunset)

theorem enabled_value (name : String) (e : EnabledField) (hvar : (e.rule (F := F)).vars = [name])
    (hrule : e.rule ∈ allEnvRules (F := F)) :
    isEnabled cfg e = flag (env name) (configured cfg) := by
  have hvars : envFirst env (e.rule (F := F)).vars = nonBlank (env name) := by
    rw [hvar]
    exact envFirst_one
  refine flag_eq (fun v hset => ?_) fun hunset => ?_
  · have hparse := rule_set py h hrule (hvars.trans hset)
    cases e with
    | enabled =>
      dsimp only [EnabledField.rule] at hparse
      exact asBool_text py hparse
    | archiveEnabled =>
      dsimp only [EnabledField.rule] at hparse
      exact asBool_text py hparse
  · have hbase := rule_unset py h hrule (hvars.trans hunset)
    cases e with
    | enabled => exact hbase.trans (Bool.false_or _)
    | archiveEnabled => exact hbase.trans (Bool.false_or _)

omit h in
theorem asNonnegativeFloat_text {label : String} {x : F}
    (hok : asNonnegativeFloat py.toPyNumbers label (.text v) = .ok x) :
    py.ofText v = some x ∧ py.negative x = false := by
  rw [asNonnegativeFloat, TomlValue.toFloat] at hok
  cases hread : py.ofText v with
  | none =>
    rw [hread] at hok
    cases hok
  | some y =>
    rw [hread] at hok
    dsimp only [Option.elim] at hok
    by_cases hneg : py.negative y = true
    · rw [if_pos hneg] at hok
      cases hok
    · rw [if_neg hneg] at hok
      obtain rfl := Except.ok.inj hok
      exact ⟨rfl, by simpa using hneg⟩

theorem seconds_value {s : SecondsField} (hrule : EnvRule.seconds name s ∈ allEnvRules (F := F)) :
    (∀ v, nonBlank (env name) = some v →
      py.ofText v = some (cfg (.seconds s)) ∧ py.negative (cfg (.seconds s)) = false) ∧
    (nonBlank (env name) = none → cfg (.seconds s) = py.seconds s.builtin) := by
  have hvars : envFirst env (EnvRule.seconds (F := F) name s).vars = nonBlank (env name) :=
    envFirst_one
  constructor
  · intro v hset
    have hparse : asNonnegativeFloat py.toPyNumbers ("$" ++ name) (.text v) =
        .ok (cfg (.seconds s)) := rule_set py h hrule (hvars.trans hset)
    exact asNonnegativeFloat_text py hparse
  · exact fun hunset => rule_unset py h hrule (hvars.trans hunset)

omit h in
theorem asPositiveInt_text {label : String} {n : { n : Nat // 0 < n }}
    (hok : asPositiveInt py.toPyNumbers label (.text v) = .ok n) :
    parseInt py.toPyNumbers v = some (n.val : Int) := by
  rw [asPositiveInt, TomlValue.toInt] at hok
  cases hread : parseInt py.toPyNumbers v with
  | none =>
    rw [hread] at hok
    cases hok
  | some m =>
    rw [hread] at hok
    dsimp only [Option.elim] at hok
    by_cases hpos : 0 < m.toNat
    · rw [dif_pos hpos] at hok
      have hval : m.toNat = n.val := congrArg Subtype.val (Except.ok.inj hok)
      rw [← hval]
      congr 1
      omega
    · rw [dif_neg hpos] at hok
      cases hok

omit h in
theorem asHumanBytesString_text {label : String} {b : HumanBytes}
    (hok : asHumanBytesString py.toPyNumbers label (.text v) = .ok b) : b = .text (strip v) := by
  unfold asHumanBytesString at hok
  obtain ⟨text, htext, hok⟩ := bind_eq_ok hok
  rw [asStr, TomlValue.str] at htext
  rw [← Except.ok.inj htext] at hok
  split at hok
  · exact (Except.ok.inj hok).symm
  · cases hok

omit h in
theorem maxPacks_rule_mem : (⟨["CCC_MAX_PACKS_PER_LEVEL"], .maxPacksPerLevel,
    fun py _ label value => asPositiveInt py label (.text value)⟩ : EnvRule F) ∈ allEnvRules := by
  simp [allEnvRules, envRules]

theorem maxPacks_value :
    (∀ v, nonBlank (env "CCC_MAX_PACKS_PER_LEVEL") = some v →
      parseInt py.toPyNumbers v = some ((cfg .maxPacksPerLevel).val : Int)) ∧
    (nonBlank (env "CCC_MAX_PACKS_PER_LEVEL") = none → (cfg .maxPacksPerLevel).val = 1) := by
  have hrule := maxPacks_rule_mem (F := F)
  constructor
  · intro v hset
    have hparse := rule_set py h hrule (envFirst_one.trans hset)
    exact asPositiveInt_text py hparse
  · intro hunset
    have hbase := rule_unset py h hrule (envFirst_one.trans hunset)
    exact congrArg Subtype.val hbase

omit h in
theorem online_rule_mem : (⟨["CCC_MAX_ONLINE_COMPACTION_BYTES"], .maxOnlineCompactionBytes,
    fun py _ label value => asHumanBytesString py label (.text value)⟩ : EnvRule F) ∈
      allEnvRules := by
  simp [allEnvRules, envRules]

theorem online_value :
    cfg .maxOnlineCompactionBytes =
      HumanBytes.text (textEnv env "CCC_MAX_ONLINE_COMPACTION_BYTES" "10G") := by
  have hrule := online_rule_mem (F := F)
  rw [textEnv_eq (by decide +kernel)]
  cases hset : nonBlank (env "CCC_MAX_ONLINE_COMPACTION_BYTES") with
  | none => exact rule_unset py h hrule (envFirst_one.trans hset)
  | some v =>
    have hparse := rule_set py h hrule (envFirst_one.trans hset)
    exact asHumanBytesString_text py hparse

/-- The policy of an accepted configuration. -/
theorem levelPolicy_accepted : ∃ policy, levelPolicy py.toPyNumbers cfg = .ok policy := by
  rw [withEnv] at h
  obtain ⟨c₁, -, h⟩ := bind_eq_ok h
  obtain ⟨c₂, -, h⟩ := bind_eq_ok h
  obtain ⟨c₃, -, h⟩ := bind_eq_ok h
  obtain ⟨c₄, -, h⟩ := bind_eq_ok h
  have hsame := validated_ok _ h
  rw [validated] at h
  obtain ⟨policy, hpolicy, -⟩ := bind_eq_ok h
  exact ⟨policy, hsame ▸ hpolicy⟩

end

/-! ## 5. Where the readers agree -/

/-- No blank variable stands before one that is set. -/
def FallbackSeen (env : Environment) (name other : String) : Prop :=
  ∀ v, env name = some v → strip v = "" → nonBlank (env other) = none

/-- The variable that is taken, if any, is not blank and has no white space around it. -/
def TakenTrimmed (env : Environment) (name other : String) : Prop :=
  ∀ v, (env name).or (env other) = some v → v ≠ "" ∧ strip v = v

/-- The variable does not say nan. -/
def NotNan (env : Environment) (name : String) : Prop :=
  ∀ v x, nonBlank (env name) = some v → py.ofText v = some x → py.isNan x = false

/-- The number is written in digits alone, or is one. -/
def PacksPlain (env : Environment) : Prop :=
  ∀ v, nonBlank (env "CCC_MAX_PACKS_PER_LEVEL") = some v →
    isDigits py (strip v) = true ∨ parseInt py.toPyNumbers v = some 1

/-- **The environments the two readers take alike.** -/
structure PlainEnvironment (env : Environment) : Prop where
  bucket : FallbackSeen env "CCC_COLD_STORAGE_BUCKET" "CCC_S3_BUCKET"
  endpoint : FallbackSeen env "CCC_COLD_STORAGE_ENDPOINT" "CCC_S3_ENDPOINT"
  region : TakenTrimmed env "CCC_COLD_STORAGE_REGION" "CCC_S3_REGION"
  addressing : TakenTrimmed env "CCC_COLD_STORAGE_ADDRESSING_STYLE" "CCC_S3_ADDRESSING_STYLE"
  idle : NotNan py env "CCC_COLD_STORAGE_IDLE_SECONDS"
  interval : NotNan py env "CCC_COLD_STORAGE_INTERVAL_SECONDS"
  maxPacks : PacksPlain py env

theorem stripped_eq_iff :
    (((nonBlank (env name)).or (nonBlank (env other))).map strip).getD "" =
      strip (firstSet env name other "") ↔ FallbackSeen env name other := by
  unfold FallbackSeen firstSet
  have hempty : strip "" = "" := by decide
  have hone : ∀ value : Option String,
      ((nonBlank value).map strip).getD "" = strip (value.getD "") := by
    intro value
    cases value with
    | none => exact hempty.symm
    | some w =>
      by_cases hw : strip w = ""
      · simp [nonBlank_blank hw, hw]
      · simp [nonBlank_some hw]
  cases hname : env name with
  | none =>
    rw [nonBlank_none, Option.none_or, Option.getD_none, hone]
    exact ⟨fun _ v hv => absurd hv (Option.some_ne_none v).symm, fun _ => rfl⟩
  | some v =>
    by_cases hv : strip v = ""
    · rw [nonBlank_blank hv, Option.none_or, Option.getD_some, hv, hone]
      constructor
      · intro heq v' _ _
        cases hother : env other with
        | none => rfl
        | some w =>
          rw [hother, Option.getD_some] at heq
          exact nonBlank_blank heq
      · intro hseen
        have hnone := hseen v rfl hv
        have hvalue := hone (env other)
        rw [hnone] at hvalue
        exact hvalue.symm
    · rw [nonBlank_some hv, Option.some_or]
      refine ⟨fun _ v' hv' hblank => ?_, fun _ => rfl⟩
      obtain rfl := Option.some.inj hv'
      exact absurd hblank hv

theorem taken_eq_iff (default : String) (hdefault : strip default = default) (hne : default ≠ "") :
    (((nonBlank (env name)).or (nonBlank (env other))).map strip).getD default =
      firstSet env name other default ↔ TakenTrimmed env name other := by
  unfold TakenTrimmed firstSet
  have hempty : strip "" = "" := by decide
  -- a blank text is no stripped text and not the default
  have hblank : ∀ (v : String) (value : Option String), strip v = "" →
      ((nonBlank value).map strip).getD default ≠ v := by
    intro v value hv heq
    have hstripped : strip (((nonBlank value).map strip).getD default) = "" := by rw [heq, hv]
    cases value with
    | none => exact hne (hdefault.symm.trans hstripped)
    | some w =>
      by_cases hw : strip w = ""
      · rw [nonBlank_blank hw] at hstripped
        exact hne (hdefault.symm.trans hstripped)
      · rw [nonBlank_some hw] at hstripped
        exact hw ((strip_strip w).symm.trans hstripped)
  have hone : ∀ value : Option String, ((nonBlank value).map strip).getD default =
      value.getD default ↔ ∀ v, value = some v → v ≠ "" ∧ strip v = v := by
    intro value
    cases value with
    | none => exact ⟨fun _ v hv => absurd hv (Option.some_ne_none v).symm, fun _ => rfl⟩
    | some w =>
      by_cases hw : strip w = ""
      · refine ⟨fun heq => absurd heq (hblank w (some w) hw), fun hall => ?_⟩
        obtain ⟨hwne, hww⟩ := hall w rfl
        exact absurd (hww.symm.trans hw) hwne
      · rw [nonBlank_some hw, Option.map_some, Option.getD_some, Option.getD_some]
        constructor
        · rintro heq v hv
          obtain rfl := Option.some.inj hv
          exact ⟨fun hnil => hw (by rw [hnil, hempty]), heq⟩
        · exact fun hall => (hall w rfl).2
  cases hname : env name with
  | none =>
    rw [nonBlank_none, Option.none_or, Option.getD_none, Option.none_or]
    exact hone (env other)
  | some v =>
    rw [Option.getD_some, Option.some_or]
    by_cases hv : strip v = ""
    · rw [nonBlank_blank hv, Option.none_or]
      refine ⟨fun heq => absurd heq (hblank v (env other) hv), fun hall => ?_⟩
      obtain ⟨hvne, hvv⟩ := hall v rfl
      exact absurd (hvv.symm.trans hv) hvne
    · have hsome := hone (some v)
      rw [nonBlank_some hv, Option.getD_some] at hsome
      rw [nonBlank_some hv, Option.some_or]
      exact hsome

section

variable {cfg : MountdConfig F} (hpy : py.Documented)
  (h : withEnv py.toPyNumbers (builtin py.toPyNumbers) env = .ok cfg)

include hpy h

theorem seconds_eq_iff (name : String) (s : SecondsField)
    (hrule : EnvRule.seconds name s ∈ allEnvRules (F := F)) :
    cfg (.seconds s) = floatEnv py env name s.builtin ↔ NotNan py env name := by
  obtain ⟨hset, hunset⟩ := seconds_value py h hrule
  unfold NotNan floatEnv
  have hempty : strip "" = "" := by decide
  cases hvar : env name with
  | none =>
    rw [hvar] at hunset
    rw [Option.getD_none, hempty, if_pos rfl]
    exact ⟨fun _ v x hv => absurd hv (Option.some_ne_none v).symm, fun _ => hunset rfl⟩
  | some v =>
    rw [hvar] at hset hunset
    rw [Option.getD_some]
    by_cases hv : strip v = ""
    · rw [nonBlank_blank hv] at hunset ⊢
      rw [if_pos hv]
      exact ⟨fun _ v x hv => absurd hv (Option.some_ne_none v).symm, fun _ => hunset rfl⟩
    · rw [nonBlank_some hv] at hset ⊢
      obtain ⟨hread, hneg⟩ := hset v rfl
      rw [if_neg hv, hpy.strip v _ hread]
      constructor
      · intro heq v' x hv' hx
        obtain rfl := Option.some.inj hv'
        obtain rfl := Option.some.inj (hread.symm.trans hx)
        by_contra hnan
        rw [Bool.not_eq_false] at hnan
        have hzero : cfg (.seconds s) = py.seconds 0 := heq.trans (hpy.max_nan _ hnan)
        rw [hzero, hpy.seconds_number] at hnan
        cases hnan
      · intro hall
        exact (hpy.max_number _ hneg (hall v _ rfl hread)).symm

theorem interval_value : cfg (.seconds .compactionInterval) = intervalEnv py env := by
  have hrule : EnvRule.seconds "CCC_COMPACT_INTERVAL_SECONDS" .compactionInterval ∈
      allEnvRules (F := F) := by simp [allEnvRules, envRules]
  obtain ⟨hset, hunset⟩ := seconds_value py h hrule
  have hempty : strip "" = "" := by decide
  unfold intervalEnv
  cases hvar : env "CCC_COMPACT_INTERVAL_SECONDS" with
  | none =>
    rw [hvar] at hunset
    rw [Option.getD_none, hempty, if_pos rfl]
    exact hunset rfl
  | some v =>
    rw [hvar] at hset hunset
    rw [Option.getD_some]
    by_cases hv : strip v = ""
    · rw [nonBlank_blank hv] at hunset
      rw [if_pos hv]
      exact hunset rfl
    · rw [nonBlank_some hv] at hset
      rw [if_neg hv, hpy.strip v _ (hset v rfl).1]
      rfl

omit hpy in
/-- The number of packs is read without an error. -/
theorem maxPacksEnv_accepted :
    ∃ n, maxPacksEnv py env = .ok n ∧
      ((cfg .maxPacksPerLevel).val = n ↔ PacksPlain py env) := by
  obtain ⟨hset, hunset⟩ := maxPacks_value py h
  unfold maxPacksEnv PacksPlain
  have hempty : isDigits py (strip "") = false := by
    have hstrip : strip "" = "" := by decide
    simp [hstrip, isDigits]
  cases hvar : env "CCC_MAX_PACKS_PER_LEVEL" with
  | none =>
    rw [hvar] at hunset
    refine ⟨1, if_neg (by rw [Option.getD_none, hempty]; exact nofun), ?_⟩
    exact ⟨fun _ v hv => absurd hv (Option.some_ne_none v).symm, fun _ => hunset rfl⟩
  | some v =>
    rw [hvar] at hset hunset
    rw [Option.getD_some]
    by_cases hv : strip v = ""
    · rw [nonBlank_blank hv] at hunset ⊢
      have hnot : ¬isDigits py (strip v) = true := by simp [hv, isDigits]
      refine ⟨1, if_neg hnot, ?_⟩
      exact ⟨fun _ v hv => absurd hv (Option.some_ne_none v).symm, fun _ => hunset rfl⟩
    · rw [nonBlank_some hv] at hset ⊢
      have hread := hset v rfl
      have hpos := (cfg .maxPacksPerLevel).property
      have hstripped : parseInt py.toPyNumbers (strip v) = parseInt py.toPyNumbers v := by
        rw [parseInt, parseInt, strip_strip]
      by_cases hdigits : isDigits py (strip v) = true
      · refine ⟨(cfg .maxPacksPerLevel).val, ?_, ?_⟩
        · rw [if_pos hdigits, hstripped, hread]
          have hne : ((cfg .maxPacksPerLevel).val : Int) ≠ 0 := by omega
          dsimp only
          rw [if_pos hne, Int.toNat_natCast]
        · refine ⟨fun _ v' hv' => ?_, fun _ => rfl⟩
          obtain rfl := Option.some.inj hv'
          exact .inl hdigits
      · refine ⟨1, if_neg hdigits, ?_⟩
        constructor
        · intro hone v' hv'
          obtain rfl := Option.some.inj hv'
          right
          rw [hread, hone]
          rfl
        · intro hall
          have hparsed := (hall v rfl).resolve_left hdigits
          rw [hread] at hparsed
          have hcast := Option.some.inj hparsed
          omega

end

/-! ## 6. Agreement -/

theorem levelPolicy_eq_ok {cfg : MountdConfig F} {policy : LevelPolicy}
    (h : levelPolicy py.toPyNumbers cfg = .ok policy) :
    parseLevels py.toPyNumbers (cfg (.text .packLevels)) = .ok policy.levels ∧
    parseHumanBytes py.toPyNumbers (cfg .maxOnlineCompactionBytes) =
      .ok policy.maxOnlineCompactionBytes ∧
    policy.maxPacksPerLevel = (cfg .maxPacksPerLevel).val ∧
    policy.allowBaseCompaction = cfg (.switch .allowBaseCompaction) ∧
    policy.triggerAfterCommit = cfg (.switch .compactAfterCommit) := by
  unfold levelPolicy at h
  split at h
  · cases h
  · cases h
  · rename_i levels bytes hlevels hbytes
    obtain rfl := Except.ok.inj h
    exact ⟨hlevels, hbytes, rfl, rfl, rfl⟩

theorem levelPolicyFromEnv_eq_ok {levels : List PackLevel} {online packs : Nat}
    (hlevels : parseLevels py.toPyNumbers
      (textEnv env "CCC_PACK_LEVELS" "0:100G,1:10G,2:1G,3:100M,4:10M") = .ok levels)
    (honline : onlineEnv py env = .ok online) (hpacks : maxPacksEnv py env = .ok packs) :
    levelPolicyFromEnv py env = .ok
      ({ levels
         maxPacksPerLevel := packs
         allowBaseCompaction := flag (env "CCC_ALLOW_BASE_COMPACTION") false
         maxOnlineCompactionBytes := online
         triggerAfterCommit := flag (env "CCC_COMPACT_AFTER_COMMIT") true
         nonempty := (parseLevels_increasing py.toPyNumbers hlevels).1
         increasing := (parseLevels_increasing py.toPyNumbers hlevels).2 },
        intervalEnv py env) := by
  unfold levelPolicyFromEnv
  rw [honline, hpacks]
  split
  · rename_i heq
    rw [hlevels] at heq
    cases heq
  · rename_i heq
    cases heq
  · rename_i heq
    cases heq
  · rename_i levels' online' packs' heq honline' hpacks'
    obtain rfl := Except.ok.inj (hlevels.symm.trans heq)
    cases honline'
    cases hpacks'
    rfl

/-- **The cold storage** the two readers make. -/
theorem coldStorage_eq_iff (hpy : py.Documented) {cfg : MountdConfig F}
    (h : withEnv py.toPyNumbers (builtin py.toPyNumbers) env = .ok cfg) :
    coldStorageOf cfg = ColdStorageConfig.fromEnv py env ↔
      FallbackSeen env "CCC_COLD_STORAGE_BUCKET" "CCC_S3_BUCKET" ∧
      FallbackSeen env "CCC_COLD_STORAGE_ENDPOINT" "CCC_S3_ENDPOINT" ∧
      TakenTrimmed env "CCC_COLD_STORAGE_REGION" "CCC_S3_REGION" ∧
      TakenTrimmed env "CCC_COLD_STORAGE_ADDRESSING_STYLE" "CCC_S3_ADDRESSING_STYLE" ∧
      NotNan py env "CCC_COLD_STORAGE_IDLE_SECONDS" ∧
      NotNan py env "CCC_COLD_STORAGE_INTERVAL_SECONDS" := by
  -- six of the fields agree on every environment
  have hbackend := textOr_value py h "CCC_COLD_STORAGE_BACKEND" "s3" .coldBackend
    (by simp [allEnvRules, envRules]) rfl
  have hprefix := textOr_value py h "CCC_COLD_STORAGE_PREFIX" "ccc-storage/cold" .coldPrefix
    (by simp [allEnvRules, envRules]) rfl
  rw [← textEnv_eq (by decide +kernel)] at hbackend hprefix
  have hmirror := switch_value py h "CCC_COLD_STORAGE_MIRROR_AFTER_COMMIT" .coldMirrorAfterCommit
    (by simp [allEnvRules, coldEnvRules])
  have hremove := switch_value py h "CCC_COLD_STORAGE_REMOVE_HOT" .coldRemoveHot
    (by simp [allEnvRules, coldEnvRules])
  have henabled := enabled_value py h "CCC_COLD_STORAGE_ENABLED" .enabled rfl
    (by simp [allEnvRules])
  have harchive := enabled_value py h "CCC_COLD_STORAGE_ARCHIVE_ENABLED" .archiveEnabled rfl
    (by simp [allEnvRules])
  -- the others on some
  have hbucket := location_value py h "CCC_COLD_STORAGE_BUCKET" "CCC_S3_BUCKET" "" .bucket
    (by simp [allEnvRules, envRules]) rfl
  have hendpoint := location_value py h "CCC_COLD_STORAGE_ENDPOINT" "CCC_S3_ENDPOINT" ""
    .endpointUrl (by simp [allEnvRules, envRules]) rfl
  have hregion := location_value py h "CCC_COLD_STORAGE_REGION" "CCC_S3_REGION" "us-east-1"
    .regionName (by simp [allEnvRules, envRules]) rfl
  have haddressing := location_value py h "CCC_COLD_STORAGE_ADDRESSING_STYLE"
    "CCC_S3_ADDRESSING_STYLE" "auto" .addressingStyle (by simp [allEnvRules, envRules]) rfl
  have hidle := seconds_eq_iff py hpy h "CCC_COLD_STORAGE_IDLE_SECONDS" .coldIdle
    (by simp [allEnvRules, coldEnvRules])
  have hinterval := seconds_eq_iff py hpy h "CCC_COLD_STORAGE_INTERVAL_SECONDS" .coldInterval
    (by simp [allEnvRules, coldEnvRules])
  rw [← stripped_eq_iff, ← stripped_eq_iff,
    ← taken_eq_iff "us-east-1" (by decide +kernel) (by decide),
    ← taken_eq_iff "auto" (by decide +kernel) (by decide), ← hbucket, ← hendpoint, ← hregion,
    ← haddressing, ← hidle, ← hinterval]
  constructor
  · intro heq
    exact ⟨congrArg ColdStorageConfig.bucket heq, congrArg ColdStorageConfig.endpointUrl heq,
      congrArg ColdStorageConfig.regionName heq, congrArg ColdStorageConfig.addressingStyle heq,
      congrArg ColdStorageConfig.idleSeconds heq, congrArg ColdStorageConfig.intervalSeconds heq⟩
  · rintro ⟨hb, he, hr, ha, hi, hv⟩
    have hconfigured : configured cfg =
        (strip (firstSet env "CCC_COLD_STORAGE_BUCKET" "CCC_S3_BUCKET" "") ≠ "" &&
          strip (firstSet env "CCC_COLD_STORAGE_ENDPOINT" "CCC_S3_ENDPOINT" "") ≠ "") := by
      rw [configured, locationOf, locationOf, hb, he]
    rw [hconfigured] at henabled harchive
    apply ColdStorageConfig.ext
    all_goals dsimp only [coldStorageOf, ColdStorageConfig.fromEnv]
    exacts [hbackend, hprefix, henabled, harchive, hmirror, hremove, hi, hv, hb, he, hr, ha]

/-- **The policy** the two readers make: the second never fails where the first does not. -/
theorem levelPolicy_eq_iff (hpy : py.Documented) {cfg : MountdConfig F}
    (h : withEnv py.toPyNumbers (builtin py.toPyNumbers) env = .ok cfg) :
    (∃ policy, levelPolicyOf py cfg = .ok policy ∧ levelPolicyFromEnv py env = .ok policy) ↔
      PacksPlain py env := by
  obtain ⟨policy, hpolicy⟩ := levelPolicy_accepted py h
  obtain ⟨hlevels, honline, hpacks, hallow, hafter⟩ := levelPolicy_eq_ok py hpolicy
  obtain ⟨packs, hread, hiff⟩ := maxPacksEnv_accepted py h
  have hspec := text_value py h "CCC_PACK_LEVELS" .packLevels (by simp [allEnvRules, envRules])
  have hspec' : textEnv env "CCC_PACK_LEVELS" "0:100G,1:10G,2:1G,3:100M,4:10M" =
      cfg (.text .packLevels) := (textEnv_eq (by decide +kernel)).trans hspec.symm
  have hallowed := switch_value py h "CCC_ALLOW_BASE_COMPACTION" .allowBaseCompaction
    (by simp [allEnvRules, envRules])
  have hafter' := switch_value py h "CCC_COMPACT_AFTER_COMMIT" .compactAfterCommit
    (by simp [allEnvRules, envRules])
  rw [online_value py h] at honline
  rw [← hspec'] at hlevels
  have hfirst : levelPolicyOf py cfg = .ok (policy, cfg (.seconds .compactionInterval)) := by
    rw [levelPolicyOf, hpolicy]
    rfl
  have hsecond := levelPolicyFromEnv_eq_ok py hlevels honline hread
  rw [hfirst, hsecond, ← hiff, ← hpacks]
  constructor
  · rintro ⟨both, hb, hb'⟩
    have heq := (Except.ok.inj hb).trans (Except.ok.inj hb').symm
    exact congrArg (fun pair : LevelPolicy × F => pair.1.maxPacksPerLevel) heq
  · intro hsame
    refine ⟨_, rfl, ?_⟩
    rw [← interval_value py hpy h]
    cases policy
    dsimp only at hsame hallow hafter
    subst hsame
    rw [hallow, hafter, hallowed, hafter']
    rfl

/-- **The two readers of the environment** agree exactly on the plain ones: no blank variable hides
    one that is set, the region and the addressing style that are taken are trimmed and not blank,
    no number of seconds of the cold storage is nan, and the number of packs is in digits. -/
theorem readers_agree_iff (hpy : py.Documented) (cfg : MountdConfig F)
    (haccepted : withEnv py.toPyNumbers (builtin py.toPyNumbers) env = .ok cfg) :
    (coldStorageOf cfg = ColdStorageConfig.fromEnv py env ∧
      ∃ policy, levelPolicyOf py cfg = .ok policy ∧ levelPolicyFromEnv py env = .ok policy) ↔
      PlainEnvironment py env := by
  rw [coldStorage_eq_iff py hpy haccepted, levelPolicy_eq_iff py hpy haccepted]
  constructor
  · rintro ⟨⟨hb, he, hr, ha, hi, hv⟩, hp⟩
    exact ⟨hb, he, hr, ha, hi, hv, hp⟩
  · rintro ⟨hb, he, hr, ha, hi, hv, hp⟩
    exact ⟨⟨hb, he, hr, ha, hi, hv⟩, hp⟩

end

/-- A whole number, with white space around it. -/
def readWhole (text : String) : Option Int := (strip text).toInt?

theorem readWhole_strip (text : String) : readWhole (strip text) = readWhole text := by
  rw [readWhole, strip_strip, readWhole]

/-- Numbers without fractions, and no nan among them. -/
def wholeFloats : PyFloats Int where
  toPyNumbers := { wholeNumbers with ofText := readWhole }
  isNan _ := false
  atLeastZero x := max 0 x

theorem wholeFloats_ofText : wholeFloats.ofText = readWhole := rfl

theorem wholeFloats_documented : wholeFloats.Documented where
  strip text x h := by
    rw [wholeFloats_ofText] at h ⊢
    rw [readWhole_strip, h]
  max_number x h _ := by
    have hnonneg : ¬x < 0 := of_decide_eq_false h
    exact max_eq_right (by omega)
  max_nan x h := by cases h
  seconds_number _ := rfl

/-- Some variables set, and no other. -/
def setVars (vars : List (String × String)) : Environment := fun name => vars.lookup name

theorem accepted_of_toBool (vars : List (String × String))
    (h : (withEnv wholeFloats.toPyNumbers (builtin wholeFloats.toPyNumbers)
      (setVars vars)).toBool = true) :
    ∃ cfg, withEnv wholeFloats.toPyNumbers (builtin wholeFloats.toPyNumbers) (setVars vars) =
      .ok cfg := by
  cases hcfg : withEnv wholeFloats.toPyNumbers (builtin wholeFloats.toPyNumbers)
      (setVars vars) with
  | error e =>
    rw [hcfg] at h
    cases h
  | ok cfg => exact ⟨cfg, rfl⟩

theorem readers_agree_iff_witness : ∃ cfg,
    withEnv wholeFloats.toPyNumbers (builtin wholeFloats.toPyNumbers)
      (setVars [("CCC_S3_BUCKET", " packs ")]) = .ok cfg ∧
    coldStorageOf cfg =
      ColdStorageConfig.fromEnv wholeFloats (setVars [("CCC_S3_BUCKET", " packs ")]) := by
  obtain ⟨cfg, hcfg⟩ := accepted_of_toBool [("CCC_S3_BUCKET", " packs ")] (by decide +kernel)
  refine ⟨cfg, hcfg, ((readers_agree_iff wholeFloats wholeFloats_documented cfg hcfg).mpr ?_).1⟩
  have hunset : ∀ name, name ≠ "CCC_S3_BUCKET" →
      setVars [("CCC_S3_BUCKET", " packs ")] name = none := by
    intro name hname
    rw [setVars, List.lookup_cons, beq_eq_false_iff_ne.mpr hname]
    rfl
  have hnone : ∀ {v : String}, (none : Option String) ≠ some v := nofun
  refine ⟨?_, ?_, ?_, ?_, fun _ _ _ _ => rfl, fun _ _ _ _ => rfl, ?_⟩
  · intro v hv
    rw [hunset _ (by decide)] at hv
    exact absurd hv hnone
  · intro v hv
    rw [hunset _ (by decide)] at hv
    exact absurd hv hnone
  · intro v hv
    rw [hunset _ (by decide), hunset _ (by decide)] at hv
    exact absurd hv hnone
  · intro v hv
    rw [hunset _ (by decide), hunset _ (by decide)] at hv
    exact absurd hv hnone
  · intro v hv
    rw [hunset _ (by decide)] at hv
    exact absurd hv hnone

/-- A blank variable of the cold storage hides the one of S3 from the second reader. -/
theorem blank_bucket_hides : ∃ cfg,
    withEnv wholeFloats.toPyNumbers (builtin wholeFloats.toPyNumbers)
      (setVars [("CCC_COLD_STORAGE_BUCKET", ""), ("CCC_S3_BUCKET", "packs")]) = .ok cfg ∧
    coldStorageOf cfg ≠ ColdStorageConfig.fromEnv wholeFloats
      (setVars [("CCC_COLD_STORAGE_BUCKET", ""), ("CCC_S3_BUCKET", "packs")]) := by
  obtain ⟨cfg, hcfg⟩ := accepted_of_toBool
    [("CCC_COLD_STORAGE_BUCKET", ""), ("CCC_S3_BUCKET", "packs")] (by decide +kernel)
  refine ⟨cfg, hcfg, fun heq => ?_⟩
  have hfirst := location_value wholeFloats hcfg "CCC_COLD_STORAGE_BUCKET" "CCC_S3_BUCKET" ""
    .bucket (by simp [allEnvRules, envRules]) rfl
  have hsame := congrArg ColdStorageConfig.bucket heq
  dsimp only [coldStorageOf, ColdStorageConfig.fromEnv] at hsame
  rw [hfirst] at hsame
  exact absurd hsame (by decide +kernel)

end CccStorage.Mountd
