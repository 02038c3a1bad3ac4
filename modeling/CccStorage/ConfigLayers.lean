/-
  File:      CccStorage/ConfigLayers.lean
  Subject:   What the file, and what the environment, makes of one field of a configuration.

  * `fileSources`, `allEnvRules` -- the keys and the variables of the fields, in one list each;
  * `EnvGives`, `FileGives` -- a variable, or a key, of the field gives the value;
  * `withEnv_at`, `fromFile_at` -- the layers, field by field;
  * `mem_fileSources`, `file_decides` -- which keys a field has, and that they decide it.
-/
import CccStorage.MountdConfig

namespace CccStorage.Mountd

section

variable {F : Type} (py : PyNumbers F)

/-! ## 1. The sources of a field -/

/-- The table at a path; empty where there is none. -/
def tableAt (data : TomlTable F) : List String → TomlTable F
  | [] => data
  | key :: path =>
    match data.lookup key with
    | some (.table entries) => tableAt entries path
    | _ => []

def observationDirsEntry : TomlEntry F :=
  ⟨["observation_dirs"], .observationDirs,
    fun py source value => observationDirsFromMapping py source (some value)⟩

/-- The keys of the file, with the path of the table they stand in. -/
def fileSources : List (List String × TomlEntry F) :=
  ((sections ++ [coldStorage]).flatMap fun s : TomlSection F => s.entries.map fun entry => ([s.name], entry)) ++
    (LocationField.all.map fun l => (["cold_storage", "s3"], l.entry)) ++
    (LocationField.all.map fun l => (["s3"], l.entry)) ++ [([], observationDirsEntry)]

def allEnvRules : List (EnvRule F) :=
  envRules ++ [EnabledField.enabled.rule] ++ [EnabledField.archiveEnabled.rule] ++ coldEnvRules

/-- One of the field's variables is set, and not blank. -/
def EnvSet (F : Type) (env : Environment) (f : ConfigField) : Prop :=
  ∃ rule ∈ allEnvRules (F := F), rule.field = f ∧ envFirst env rule.vars ≠ none

/-- The first of the field's variables that is set gives `v`. -/
def EnvGives (env : Environment) (f : ConfigField) (v : f.Value F) : Prop :=
  ∃ rule ∈ allEnvRules, (rule.setting py env).Gives f v

/-- The file sets one of the field's keys. -/
def FileSet (data : TomlTable F) (f : ConfigField) : Prop :=
  ∃ source ∈ fileSources (F := F), source.2.field = f ∧
    ∃ key ∈ source.2.keys, ((tableAt data source.1).lookup key).isSome

/-- A key of the field gives `v`. -/
def FileGives (data : TomlTable F) (f : ConfigField) (v : f.Value F) : Prop :=
  ∃ source ∈ fileSources, ∃ key ∈ source.2.keys, ∃ value label,
    (tableAt data source.1).lookup key = some value ∧
      Lib.Setting.Gives ⟨source.2.field, some (source.2.parse py label value)⟩ f v

/-! ## 2. The environment over a configuration -/

theorem overlaidAt_of_absent {settings : List (Lib.Setting (ConfigField.Value F) ConfigError)}
    {base cfg : MountdConfig F} {f : ConfigField} (habsent : ∀ s ∈ settings, s.field ≠ f)
    (heq : cfg f = base f) : Lib.OverlaidAt settings base cfg f :=
  .inr ⟨fun s hs hf => absurd hf (habsent s hs), heq⟩

theorem overlaidAt_base {settings : List (Lib.Setting (ConfigField.Value F) ConfigError)}
    {base base' cfg : MountdConfig F} {f : ConfigField} (h : Lib.OverlaidAt settings base cfg f)
    (heq : base f = base' f) : Lib.OverlaidAt settings base' cfg f :=
  h.imp_right fun hunset => ⟨hunset.1, hunset.2.trans heq⟩

/-- `cfg` with the two flags on, where `on`. -/
def raised (cfg : MountdConfig F) (on : Bool) : MountdConfig F
  | .enabled e => isEnabled cfg e || on
  | f => cfg f

theorem isEnabled_raised {cfg : MountdConfig F} {on : Bool} (e : EnabledField) :
    isEnabled (raised cfg on) e = (isEnabled cfg e || on) := rfl

theorem raised_of_ne {cfg : MountdConfig F} {on : Bool} {f : ConfigField}
    (hne : ∀ e, f ≠ .enabled e) : raised cfg on f = cfg f := by
  cases f with
  | enabled e => exact absurd rfl (hne e)
  | _ => rfl

theorem enableIf_of_ne {on : Bool} {cfg : MountdConfig F} {e : EnabledField} {f : ConfigField}
    (hne : f ≠ .enabled e) : enableIf on cfg e f = cfg f := by
  rw [enableIf]
  split
  · exact Function.update_of_ne hne _ _
  · rfl

theorem isEnabled_enableIf {on : Bool} {cfg : MountdConfig F} {e : EnabledField} :
    isEnabled (enableIf on cfg e) e = (isEnabled cfg e || on) := by
  rw [enableIf]
  cases on with
  | false => exact (Bool.or_false _).symm
  | true =>
    rw [Bool.or_true, if_pos rfl, isEnabled]
    exact Function.update_self _ _ _

theorem isEnabled_enableIf_of_ne {on : Bool} {cfg : MountdConfig F} {e e' : EnabledField}
    (hne : e' ≠ e) : isEnabled (enableIf on cfg e) e' = isEnabled cfg e' :=
  enableIf_of_ne fun heq => hne (ConfigField.enabled.inj heq)

theorem enabled_rule_field (e : EnabledField) : (e.rule (F := F)).field = .enabled e := by
  cases e <;> rfl

theorem enabledFromEnv_of_ne {env : Environment} {cfg cfg' : MountdConfig F} {e : EnabledField}
    (h : enabledFromEnv py env cfg e = .ok cfg') {f : ConfigField} (hne : f ≠ .enabled e) :
    cfg' f = cfg f := by
  rw [enabledFromEnv] at h
  split at h
  · refine (Lib.Setting.apply_at h f).unchanged fun s hs hf => ?_
    rw [List.mem_singleton.mp hs] at hf
    exact absurd (hf.symm.trans (enabled_rule_field e)) hne
  · obtain rfl := Except.ok.inj h
    exact enableIf_of_ne hne

theorem enabledFromEnv_at {env : Environment} {cfg cfg' : MountdConfig F} {e : EnabledField}
    (h : enabledFromEnv py env cfg e = .ok cfg') :
    Lib.OverlaidAt [e.rule.setting py env] (raised cfg (configured cfg)) cfg' (.enabled e) := by
  rw [enabledFromEnv] at h
  split at h
  · rename_i hset
    refine .inl ((Lib.Setting.apply_at h (.enabled e)).given ⟨_, List.mem_singleton_self _,
      enabled_rule_field e, fun hread => ?_⟩)
    rw [EnvRule.setting, Option.map_eq_none_iff] at hread
    rw [hread] at hset
    cases hset
  · rename_i hunset
    obtain rfl := Except.ok.inj h
    refine .inr ⟨fun s hs _ => ?_, ?_⟩
    · rw [List.mem_singleton.mp hs, EnvRule.setting, Option.map_eq_none_iff]
      exact Option.not_isSome_iff_eq_none.mp hunset
    · change isEnabled (enableIf _ cfg e) e = isEnabled (raised cfg _) e
      rw [isEnabled_enableIf, isEnabled_raised]
      cases isEnabled cfg e <;> simp

theorem validated_ok {cfg cfg' : MountdConfig F} {ownersMessage : String}
    (h : validated py cfg ownersMessage = .ok cfg') : cfg' = cfg := by
  rw [validated] at h
  obtain ⟨_, -, h⟩ := bind_eq_ok h
  split at h
  · cases h
  · exact (Except.ok.inj h).symm

/-- The fields of a list of rules do not depend on the number type. -/
theorem ruleSettings_absent {rules : List (EnvRule F)} {fields : List ConfigField}
    (hfields : rules.map EnvRule.field = fields) {f : ConfigField} (hf : f ∉ fields)
    (env : Environment) : ∀ s ∈ rules.map (EnvRule.setting py env), s.field ≠ f := by
  intro s hs heq
  obtain ⟨rule, hrule, rfl⟩ := List.mem_map.mp hs
  rw [← hfields] at hf
  exact hf (List.mem_map.mpr ⟨rule, hrule, heq⟩)

theorem envRules_fields :
    (envRules (F := F)).map EnvRule.field = (envRules (F := Unit)).map EnvRule.field := rfl

theorem coldEnvRules_fields :
    (coldEnvRules (F := F)).map EnvRule.field = (coldEnvRules (F := Unit)).map EnvRule.field := rfl

theorem enabled_not_envRules (e : EnabledField) :
    ConfigField.enabled e ∉ (envRules (F := Unit)).map EnvRule.field := by
  cases e <;> decide

theorem not_coldEnvRules (f : ConfigField) (hf : (∃ e, f = .enabled e) ∨ ∃ l, f = .location l) :
    f ∉ (coldEnvRules (F := Unit)).map EnvRule.field := by
  rcases hf with ⟨e, rfl⟩ | ⟨l, rfl⟩
  · cases e <;> decide
  · cases l <;> decide

/-- **What the environment makes of a field**: the flags are raised where the location that comes
    out is configured, and then every rule that is set gives its value. -/
theorem withEnv_at {env : Environment} {cfg cfg' : MountdConfig F}
    (h : withEnv py cfg env = .ok cfg') (f : ConfigField) :
    Lib.OverlaidAt (allEnvRules.map (EnvRule.setting py env)) (raised cfg (configured cfg')) cfg'
      f := by
  rw [withEnv] at h
  obtain ⟨c₁, h₁, h⟩ := bind_eq_ok h
  obtain ⟨c₂, h₂, h⟩ := bind_eq_ok h
  obtain ⟨c₃, h₃, h⟩ := bind_eq_ok h
  obtain ⟨c₄, h₄, h⟩ := bind_eq_ok h
  obtain rfl := validated_ok py h
  have hlocation : ∀ l, cfg' (.location l) = c₁ (.location l) := fun l =>
    ((Lib.overlay_at h₄ _).unchanged fun s hs hf => absurd hf (ruleSettings_absent py
      coldEnvRules_fields (not_coldEnvRules _ (.inr ⟨l, rfl⟩)) env s hs)).trans
      ((enabledFromEnv_of_ne py h₃ (f := .location l) nofun).trans
        (enabledFromEnv_of_ne py h₂ (f := .location l) nofun))
  have hlocation₂ : ∀ l, c₂ (.location l) = c₁ (.location l) := fun l =>
    enabledFromEnv_of_ne py h₂ nofun
  have hconf₁ : configured c₁ = configured cfg' := by
    rw [configured, configured, locationOf, locationOf, locationOf, locationOf, hlocation,
      hlocation]
  have hconf₂ : configured c₂ = configured cfg' := by
    rw [← hconf₁, configured, configured, locationOf, locationOf, locationOf, locationOf,
      hlocation₂, hlocation₂]
  have habsent : ∀ e, ∀ s ∈ envRules.map (EnvRule.setting py env), s.field ≠ .enabled e :=
    fun e => ruleSettings_absent py envRules_fields (enabled_not_envRules e) env
  have hflag₁ : ∀ e, isEnabled c₁ e = isEnabled cfg e := fun e =>
    (Lib.overlay_at h₁ _).unchanged fun s hs hf => absurd hf (habsent e s hs)
  have hlater := Lib.overlay_at h₄ f
  simp only [allEnvRules, List.map_append, List.map_singleton]
  -- Each flag is raised when its own rule is reached; no other rule names it.
  by_cases henabled : f = .enabled .enabled
  · subst henabled
    have hfirst : Lib.OverlaidAt (envRules.map (EnvRule.setting py env))
        (raised cfg (configured cfg')) (raised c₁ (configured c₁)) (.enabled .enabled) := by
      refine overlaidAt_of_absent (habsent _) ?_
      change isEnabled (raised _ _) _ = isEnabled (raised _ _) _
      rw [isEnabled_raised, isEnabled_raised, hflag₁, hconf₁]
    refine ((hfirst.trans (enabledFromEnv_at py h₂)).trans ?_).trans hlater
    refine overlaidAt_of_absent (fun s hs => ?_) (enabledFromEnv_of_ne py h₃ nofun)
    rw [List.mem_singleton.mp hs]
    exact nofun
  · by_cases harchive : f = .enabled .archiveEnabled
    · subst harchive
      have hflag₂ : isEnabled c₂ .archiveEnabled = isEnabled cfg .archiveEnabled :=
        (enabledFromEnv_of_ne py h₂ (f := .enabled .archiveEnabled) nofun).trans (hflag₁ _)
      have hfirst : Lib.OverlaidAt (envRules.map (EnvRule.setting py env) ++
          [EnabledField.enabled.rule.setting py env]) (raised cfg (configured cfg'))
          (raised c₂ (configured c₂)) (.enabled .archiveEnabled) := by
        refine overlaidAt_of_absent (fun s hs => ?_) ?_
        · rcases List.mem_append.mp hs with hs | hs
          · exact habsent _ s hs
          · rw [List.mem_singleton.mp hs]
            exact nofun
        · change isEnabled (raised _ _) _ = isEnabled (raised _ _) _
          rw [isEnabled_raised, isEnabled_raised, hflag₂, hconf₂]
      exact (hfirst.trans (enabledFromEnv_at py h₃)).trans hlater
    · have hne : ∀ e, f ≠ .enabled e := by
        intro e
        cases e
        · exact henabled
        · exact harchive
      have hbase : cfg f = raised cfg (configured cfg') f := (raised_of_ne hne).symm
      have hrule : ∀ (e : EnabledField) (c c' : MountdConfig F),
          enabledFromEnv py env c e = .ok c' →
            Lib.OverlaidAt [e.rule.setting py env] c c' f := by
        intro e c c' hstep
        refine overlaidAt_of_absent (fun s hs hf => ?_) (enabledFromEnv_of_ne py hstep (hne e))
        rw [List.mem_singleton.mp hs] at hf
        exact hne e (hf.symm.trans (enabled_rule_field e))
      exact (((overlaidAt_base (Lib.overlay_at h₁ f) hbase).trans (hrule _ _ _ h₂)).trans
        (hrule _ _ _ h₃)).trans hlater

/-- A field of the environment, when one of its variables is set and when none is. -/
theorem env_decides {env : Environment} {cfg cfg' : MountdConfig F}
    (h : withEnv py cfg env = .ok cfg') (f : ConfigField) :
    (EnvSet F env f → EnvGives py env f (cfg' f)) ∧
      (¬ EnvSet F env f → cfg' f = raised cfg (configured cfg') f) := by
  have hat := withEnv_at py h f
  constructor
  · rintro ⟨rule, hrule, hf, hset⟩
    obtain ⟨s, hs, hgives⟩ := hat.given ⟨rule.setting py env,
      List.mem_map.mpr ⟨rule, hrule, rfl⟩, hf, by rwa [EnvRule.setting, ne_eq,
        Option.map_eq_none_iff]⟩
    obtain ⟨rule', hrule', rfl⟩ := List.mem_map.mp hs
    exact ⟨rule', hrule', hgives⟩
  · intro hunset
    refine hat.unchanged fun s hs hf => ?_
    obtain ⟨rule, hrule, rfl⟩ := List.mem_map.mp hs
    rw [EnvRule.setting, Option.map_eq_none_iff]
    by_contra hset
    exact hunset ⟨rule, hrule, hf, hset⟩

/-! ## 3. The file over the built-in defaults -/

theorem table_ok {data t : TomlTable F} {key source : String}
    (h : table data key source = .ok t) : t = tableAt data [key] := by
  rw [table] at h
  rw [tableAt]
  split at h
  · rename_i hnone
    rw [hnone]
    exact (Except.ok.inj h).symm
  · rename_i entries hsome
    rw [hsome]
    exact (Except.ok.inj h).symm
  · cases h

theorem tableAt_two (data : TomlTable F) (a b : String) :
    tableAt data [a, b] = tableAt (tableAt data [a]) [b] := by
  rw [tableAt]
  conv => rhs; rw [show tableAt data [a] = match data.lookup a with
    | some (.table entries) => tableAt entries []
    | _ => [] from rfl]
  split
  · rfl
  · rfl

theorem section_at {data : TomlTable F} {source : String} {cfg cfg' : MountdConfig F}
    {s : TomlSection F} (h : s.apply py data source cfg = .ok cfg') (f : ConfigField) :
    Lib.OverlaidAt (s.settings py source (tableAt data [s.name])) cfg cfg' f := by
  rw [TomlSection.apply] at h
  obtain ⟨t, ht, h⟩ := bind_eq_ok h
  obtain ⟨_, -, h⟩ := bind_eq_ok h
  rw [table_ok ht] at h
  exact Lib.overlay_at h f

theorem sections_at {data : TomlTable F} {source : String} {cfg cfg' : MountdConfig F}
    {parts : List (TomlSection F)}
    (h : parts.foldlM (TomlSection.apply py data source) cfg = .ok cfg') (f : ConfigField) :
    Lib.OverlaidAt (parts.flatMap fun s => s.settings py source (tableAt data [s.name])) cfg cfg'
      f := by
  induction parts generalizing cfg with
  | nil =>
    obtain rfl := Except.ok.inj h
    exact .refl
  | cons s parts ih =>
    rw [List.foldlM_cons] at h
    obtain ⟨mid, hmid, h⟩ := bind_eq_ok h
    rw [List.flatMap_cons]
    exact (section_at py hmid f).trans (ih h)

theorem asStr_ok_iff {label text : String} {value : TomlValue F} :
    asStr py label value = .ok text ↔ (value.str py).map strip = some text := by
  rw [asStr]
  cases value.str py <;> simp

/-- The text of the first key of `l` that is present. -/
def textIn (data : TomlTable F) (l : LocationField) : Option String :=
  ((l.keys.findSome? fun key => data.lookup key).bind fun value => value.str py).map strip

/-- What the two location tables say of `l`. -/
def fileLocation (data : TomlTable F) (l : LocationField) : Option String :=
  if (textIn py (tableAt data ["cold_storage", "s3"]) l).any (· ≠ "") then
    textIn py (tableAt data ["cold_storage", "s3"]) l
  else textIn py (tableAt data ["s3"]) l

theorem firstTableStr_ok {l : LocationField} {d : TomlTable F} (name source : String) :
    (l.firstTableStr py name source d = none → textIn py d l = none) ∧
      ∀ text, l.firstTableStr py name source d = some (.ok text) → textIn py d l = some text := by
  rw [textIn]
  change ((l.keys.findSome? _).map (asStr py _) = none → _) ∧
    ∀ text, (l.keys.findSome? _).map (asStr py _) = some (.ok text) → _
  cases l.keys.findSome? fun key => d.lookup key with
  | none => exact ⟨fun _ => rfl, nofun⟩
  | some value =>
    refine ⟨nofun, fun text htext => ?_⟩
    exact (asStr_ok_iff py).mp (Option.some.inj htext)

theorem LocationField.mem_all (l : LocationField) : l ∈ LocationField.all := by
  cases l <;> decide

/-- A layer with one rule for each location field. -/
theorem location_overlay {Text : Type} {read : LocationField → Option (Except ConfigError Text)}
    {base texts : LocationField → Text}
    (h : Lib.overlay (LocationField.all.map fun l => ⟨l, read l⟩) base = .ok texts)
    (l : LocationField) : read l = some (.ok (texts l)) ∨ (read l = none ∧ texts l = base l) := by
  rcases Lib.overlay_at h l with ⟨s, hs, hgives⟩ | ⟨hunset, heq⟩
  · obtain ⟨l', -, rfl⟩ := List.mem_map.mp hs
    obtain rfl : l' = l := hgives.field
    exact .inl (Lib.Setting.gives_iff.mp hgives)
  · exact .inr ⟨hunset _ (List.mem_map.mpr ⟨l, l.mem_all, rfl⟩) rfl, heq⟩

theorem own_ok {source : String} {s3 : TomlTable F} {texts : LocationField → Option String}
    (h : LocationField.own py source s3 = .ok texts) (l : LocationField) :
    texts l = textIn py s3 l := by
  obtain ⟨hnone, hsome⟩ := firstTableStr_ok py (l := l) (d := s3) "cold_storage.s3" source
  rcases location_overlay h l with hread | ⟨hread, heq⟩
  · cases hfirst : l.firstTableStr py "cold_storage.s3" source s3 with
    | none => rw [hfirst] at hread; cases hread
    | some read =>
      rw [hfirst] at hread
      cases read with
      | error e => cases hread
      | ok text =>
        rw [hsome text hfirst]
        exact (Except.ok.inj (Option.some.inj hread)).symm
  · rw [heq, hnone (Option.map_eq_none_iff.mp hread)]

theorem merged_ok {source : String} {topS3 : TomlTable F}
    {own texts : LocationField → Option String}
    (h : LocationField.merged py source topS3 own = .ok texts) (l : LocationField) :
    texts l = if (own l).any (· ≠ "") then own l else textIn py topS3 l := by
  obtain ⟨hnone, hsome⟩ := firstTableStr_ok py (l := l) (d := topS3) "s3" source
  have hread := location_overlay h l
  split
  · rename_i hown
    rw [if_pos hown] at hread
    rcases hread with hread | ⟨-, heq⟩
    · cases hread
    · exact heq
  · rename_i hown
    rw [if_neg hown] at hread
    cases hfirst : l.firstTableStr py "s3" source topS3 with
    | none =>
      rw [hfirst] at hread
      rw [hnone hfirst]
      rcases hread with hread | ⟨hread, -⟩
      · exact (Except.ok.inj (Option.some.inj hread)).symm
      · cases hread
    | some read =>
      rw [hfirst] at hread
      rcases hread with hread | ⟨hread, -⟩
      · cases read with
        | error e => cases hread
        | ok text =>
          rw [hsome text hfirst]
          exact (Except.ok.inj (Option.some.inj hread)).symm
      · cases hread

/-- No text was read where no key is present. -/
theorem firstTableStr_none {l : LocationField} {d : TomlTable F} {name source : String}
    (h : l.firstTableStr py name source d = none) : ∀ key ∈ l.keys, d.lookup key = none :=
  List.findSome?_eq_none_iff.mp (Option.map_eq_none_iff.mp h)

theorem own_keys {source : String} {s3 : TomlTable F} {texts : LocationField → Option String}
    (h : LocationField.own py source s3 = .ok texts) {l : LocationField}
    (hnone : textIn py s3 l = none) : ∀ key ∈ l.keys, s3.lookup key = none := by
  rcases location_overlay h l with hread | ⟨hread, -⟩
  · cases hfirst : l.firstTableStr py "cold_storage.s3" source s3 with
    | none => exact firstTableStr_none py hfirst
    | some read =>
      rw [hfirst] at hread
      cases read with
      | error e => cases hread
      | ok text =>
        rw [(firstTableStr_ok py _ _).2 text hfirst] at hnone
        cases hnone
  · exact firstTableStr_none py (Option.map_eq_none_iff.mp hread)

theorem merged_keys {source : String} {topS3 : TomlTable F}
    {own texts : LocationField → Option String}
    (h : LocationField.merged py source topS3 own = .ok texts) {l : LocationField}
    (hown : ¬ (own l).any (· ≠ "")) (hnone : textIn py topS3 l = none) :
    ∀ key ∈ l.keys, topS3.lookup key = none := by
  have hread := location_overlay h l
  rw [if_neg hown] at hread
  cases hfirst : l.firstTableStr py "s3" source topS3 with
  | none => exact firstTableStr_none py hfirst
  | some read =>
    rw [hfirst] at hread
    rcases hread with hread | ⟨hread, -⟩
    · cases read with
      | error e => cases hread
      | ok text =>
        rw [(firstTableStr_ok py _ _).2 text hfirst] at hnone
        cases hnone
    · cases hread

/-- A location the file says nothing of has no text in `[s3]`, and none but a blank one in
    `[cold_storage.s3]`. -/
theorem fileLocation_none {data : TomlTable F} {l : LocationField}
    (h : fileLocation py data l = none) :
    ¬ (textIn py (tableAt data ["cold_storage", "s3"]) l).any (· ≠ "") ∧
      textIn py (tableAt data ["s3"]) l = none := by
  rw [fileLocation] at h
  split at h
  · rename_i hany
    rw [h] at hany
    cases hany
  · rename_i hany
    exact ⟨hany, h⟩

/-- The settings of the sections, over the tables of the file. -/
def fileSettings (data : TomlTable F) (source : String) :
    List (Lib.Setting (ConfigField.Value F) ConfigError) :=
  (sections ++ [coldStorage]).flatMap fun s : TomlSection F =>
    s.settings py source (tableAt data [s.name])

def sectionFields : List ConfigField :=
  (sections (F := Unit)).flatMap fun s => s.entries.map TomlEntry.field

def coldFields : List ConfigField := (coldStorage (F := Unit)).entries.map TomlEntry.field

theorem sections_absent {data : TomlTable F} {source : String} {f : ConfigField}
    (hf : f ∉ sectionFields) : ∀ s ∈ (sections (F := F)).flatMap fun s : TomlSection F =>
      s.settings py source (tableAt data [s.name]), s.field ≠ f := by
  have hfields : ((sections (F := F)).flatMap fun s => s.entries.map TomlEntry.field) =
      sectionFields := rfl
  intro s hs heq
  obtain ⟨part, hpart, hs⟩ := List.mem_flatMap.mp hs
  obtain ⟨entry, hentry, rfl⟩ := List.mem_map.mp hs
  rw [← hfields] at hf
  exact hf (List.mem_flatMap.mpr ⟨part, hpart, List.mem_map.mpr ⟨entry, hentry, heq⟩⟩)

theorem coldStorage_absent {source : String} {cold : TomlTable F} {f : ConfigField}
    (hf : f ∉ coldFields) : ∀ s ∈ (coldStorage (F := F)).settings py source cold, s.field ≠ f := by
  have hfields : (coldStorage (F := F)).entries.map TomlEntry.field = coldFields := rfl
  intro s hs heq
  obtain ⟨entry, hentry, rfl⟩ := List.mem_map.mp hs
  rw [← hfields] at hf
  exact hf (List.mem_map.mpr ⟨entry, hentry, heq⟩)

theorem location_not_fields (l : LocationField) :
    ConfigField.location l ∉ sectionFields ∧ ConfigField.location l ∉ coldFields := by
  cases l <;> decide

theorem enabled_not_sectionFields (e : EnabledField) : ConfigField.enabled e ∉ sectionFields := by
  cases e <;> decide

theorem enabled_entry {entry : TomlEntry F} (h : entry ∈ (coldStorage (F := F)).entries)
    {e : EnabledField} (hf : entry.field = .enabled e) :
    entry = ⟨[e.key], .enabled e, asBool⟩ := by
  simp only [coldStorage, List.mem_cons, List.not_mem_nil, or_false] at h
  rcases h with rfl | rfl | rfl | rfl | rfl | rfl | rfl | rfl
  case inr.inr.inl => cases hf; rfl
  case inr.inr.inr.inl => cases hf; rfl
  all_goals cases hf

theorem enabled_entry_mem (e : EnabledField) :
    (⟨[e.key], .enabled e, asBool⟩ : TomlEntry F) ∈ (coldStorage (F := F)).entries := by
  cases e <;> simp [coldStorage]

/-- The rule of a flag is unset exactly where its key is not in the table. -/
theorem enabled_unset {source : String} {cold : TomlTable F} {e : EnabledField}
    (hkey : (cold.lookup e.key).isNone) :
    ∀ s ∈ (coldStorage (F := F)).settings py source cold, s.field = .enabled e → s.read = none := by
  intro s hs hf
  obtain ⟨entry, hentry, rfl⟩ := List.mem_map.mp hs
  obtain rfl := enabled_entry hentry hf
  rw [TomlEntry.setting, Option.map_eq_none_iff, List.findSome?_singleton]
  exact Option.isNone_iff_eq_none.mp hkey

theorem enabled_isSet {source : String} {cold : TomlTable F} {e : EnabledField}
    (hkey : ¬ (cold.lookup e.key).isNone) :
    ∃ s ∈ (coldStorage (F := F)).settings py source cold, s.field = .enabled e ∧ s.read ≠ none := by
  refine ⟨_, List.mem_map.mpr ⟨_, enabled_entry_mem e, rfl⟩, rfl, fun hread => hkey ?_⟩
  rw [TomlEntry.setting, Option.map_eq_none_iff, List.findSome?_singleton] at hread
  exact Option.isNone_iff_eq_none.mpr hread

theorem configured_congr {cfg cfg' : MountdConfig F}
    (h : ∀ l, locationOf cfg' l = locationOf cfg l) : configured cfg' = configured cfg := by
  rw [configured, configured, h, h]

theorem configured_enableIf {on : Bool} {cfg : MountdConfig F} {e : EnabledField} :
    configured (enableIf on cfg e) = configured cfg :=
  configured_congr fun l => enableIf_of_ne (f := .location l) nofun

/-- Both flags after the location: each is raised where its key is not in the table. -/
theorem enabledByLocation_both {c : TomlTable F} (cfg : MountdConfig F) (e : EnabledField) :
    isEnabled (enabledByLocation c (enabledByLocation c cfg .enabled) .archiveEnabled) e =
      (isEnabled cfg e || (configured cfg && (c.lookup e.key).isNone)) := by
  cases e with
  | enabled =>
    have hne : EnabledField.enabled ≠ .archiveEnabled := nofun
    rw [enabledByLocation, isEnabled_enableIf_of_ne hne]
    exact isEnabled_enableIf
  | archiveEnabled =>
    have hne : EnabledField.archiveEnabled ≠ .enabled := nofun
    rw [enabledByLocation, isEnabled_enableIf, enabledByLocation, configured_enableIf,
      isEnabled_enableIf_of_ne hne]

/-- **What the cold storage of the file makes of a field.** -/
theorem coldFromMapping_at {base cfg : MountdConfig F} {data : TomlTable F} {source : String}
    (h : coldFromMapping py base data source = .ok cfg) :
    (∀ l, locationOf cfg l = (fileLocation py data l).getD (locationOf base l)) ∧
      (∀ l, fileLocation py data l = none → ∀ key ∈ l.keys,
        (tableAt data ["s3"]).lookup key = none ∧
          (textIn py (tableAt data ["cold_storage", "s3"]) l = none →
            (tableAt data ["cold_storage", "s3"]).lookup key = none)) ∧
      ∀ f, (∀ l, f ≠ .location l) →
        Lib.OverlaidAt (coldStorage.settings py source (tableAt data ["cold_storage"]))
          (raised base (configured cfg)) cfg f := by
  rw [coldFromMapping] at h
  obtain ⟨cold, hcold, h⟩ := bind_eq_ok h
  obtain ⟨_, -, h⟩ := bind_eq_ok h
  obtain ⟨s3, hs3, h⟩ := bind_eq_ok h
  obtain ⟨topS3, htop, h⟩ := bind_eq_ok h
  obtain ⟨_, -, h⟩ := bind_eq_ok h
  obtain ⟨_, -, h⟩ := bind_eq_ok h
  obtain ⟨own, hown, h⟩ := bind_eq_ok h
  obtain ⟨texts, htexts, h⟩ := bind_eq_ok h
  obtain ⟨c₁, h₁, h⟩ := bind_eq_ok h
  obtain ⟨c₂, h₂, h⟩ := bind_eq_ok h
  obtain rfl := Except.ok.inj h
  obtain rfl := table_ok hcold
  obtain rfl := table_ok hs3
  obtain rfl := table_ok htop
  have htext : ∀ l, texts l = fileLocation py data l := by
    intro l
    rw [merged_ok py htexts l, own_ok py hown l, fileLocation, tableAt_two]
  have hother : ∀ f, (∀ l, f ≠ .location l) → c₂ f = c₁ f := by
    intro f hf
    refine (Lib.overlay_at h₂ f).unchanged fun s hs hs' => ?_
    obtain ⟨l, -, rfl⟩ := List.mem_map.mp hs
    exact absurd hs'.symm (hf l)
  have hbase : ∀ l, locationOf c₁ l = locationOf base l := fun l =>
    (Lib.overlay_at h₁ (.location l)).unchanged fun s hs hf =>
      absurd hf (coldStorage_absent py (location_not_fields l).2 s hs)
  have hlocation : ∀ l, locationOf c₂ l = (fileLocation py data l).getD (locationOf base l) := by
    intro l
    rcases Lib.overlay_at h₂ (.location l) with ⟨s, hs, hgives⟩ | ⟨hunset, heq⟩
    · obtain ⟨l', -, rfl⟩ := List.mem_map.mp hs
      obtain rfl : l' = l := ConfigField.location.inj hgives.field
      have hread := Lib.Setting.gives_iff.mp hgives
      rw [← htext]
      cases htl : texts l' with
      | none => rw [htl] at hread; cases hread
      | some text =>
        rw [htl] at hread
        exact (Except.ok.inj (Option.some.inj hread)).symm
    · have hread := hunset _ (List.mem_map.mpr ⟨l, l.mem_all, rfl⟩) rfl
      rw [← htext, Option.map_eq_none_iff.mp hread]
      exact heq.trans (hbase l)
  have hfinal : ∀ f, (∀ e, f ≠ .enabled e) →
      enabledByLocation (tableAt data ["cold_storage"]) (enabledByLocation
        (tableAt data ["cold_storage"]) c₂ .enabled) .archiveEnabled f = c₂ f := fun f hf =>
    (enableIf_of_ne (hf _)).trans (enableIf_of_ne (hf _))
  have hconf : configured (enabledByLocation (tableAt data ["cold_storage"]) (enabledByLocation
      (tableAt data ["cold_storage"]) c₂ .enabled) .archiveEnabled) = configured c₂ :=
    configured_enableIf.trans configured_enableIf
  refine ⟨fun l => (hfinal (.location l) nofun).trans (hlocation l), fun l hl key hkey => ?_,
    fun f hf => ?_⟩
  · obtain ⟨hblank, htop⟩ := fileLocation_none py hl
    rw [tableAt_two] at hblank ⊢
    refine ⟨merged_keys py htexts ?_ htop key hkey, fun hnone => own_keys py hown hnone key hkey⟩
    rw [own_ok py hown l]
    exact hblank
  have hat := Lib.overlay_at h₁ f
  rw [hconf]
  by_cases hflag : ∃ e, f = .enabled e
  · obtain ⟨e, rfl⟩ := hflag
    have hflag : isEnabled c₂ e = isEnabled c₁ e := hother (.enabled e) nofun
    have hvalue := enabledByLocation_both (c := tableAt data ["cold_storage"]) c₂ e
    rw [hflag] at hvalue
    by_cases hkey : ((tableAt data ["cold_storage"]).lookup e.key).isNone
    · refine .inr ⟨enabled_unset py hkey, ?_⟩
      have hsame : isEnabled c₁ e = isEnabled base e := hat.unchanged (enabled_unset py hkey)
      rw [hkey, Bool.and_true, hsame] at hvalue
      exact hvalue
    · obtain ⟨s, hs, hgives⟩ := hat.given (enabled_isSet py hkey)
      refine .inl ⟨s, hs, ?_⟩
      rw [Bool.not_eq_true] at hkey
      rw [hkey, Bool.and_false, Bool.or_false] at hvalue
      rw [isEnabled, isEnabled] at hvalue
      rw [hvalue]
      exact hgives
  · have hne : ∀ e, f ≠ .enabled e := fun e he => hflag ⟨e, he⟩
    rw [Lib.OverlaidAt, (hfinal f hne).trans (hother f hf)]
    exact overlaidAt_base hat (raised_of_ne hne).symm

theorem not_coldFields : ConfigField.observationDirs ∉ coldFields := by decide

theorem observationDirs_not_sectionFields : ConfigField.observationDirs ∉ sectionFields := by decide

/-- **What the file makes of a field of `MountdConfig()`.** -/
theorem fromFile_at {cfg : MountdConfig F} {data : TomlTable F} {source : String}
    (h : fromFile py data source = .ok cfg) :
    (∀ l, locationOf cfg l = (fileLocation py data l).getD l.builtin) ∧
      (∀ l, fileLocation py data l = none → ∀ key ∈ l.keys,
        (tableAt data ["s3"]).lookup key = none ∧
          (textIn py (tableAt data ["cold_storage", "s3"]) l = none →
            (tableAt data ["cold_storage", "s3"]).lookup key = none)) ∧
      observationDirsFromMapping py source (data.lookup "observation_dirs") =
        .ok (cfg .observationDirs) ∧
      (∀ f, (∀ l, f ≠ .location l) → f ≠ .observationDirs →
        Lib.OverlaidAt (fileSettings py data source) (raised (builtin py) (configured cfg)) cfg f) ∧
      ∀ ownersMessage, validated py cfg ownersMessage = .ok cfg := by
  rw [fromFile, withMapping] at h
  obtain ⟨_, -, h⟩ := bind_eq_ok h
  obtain ⟨dirs, hdirs, h⟩ := bind_eq_ok h
  obtain ⟨c₁, h₁, h⟩ := bind_eq_ok h
  obtain ⟨c₂, h₂, h⟩ := bind_eq_ok h
  have hcfg := validated_ok py h
  subst hcfg
  obtain ⟨hlocation, hkeys, hcold⟩ := coldFromMapping_at py h₂
  have hsections := sections_at py h₁
  have hunchanged : ∀ f, f ∉ sectionFields → f ≠ .observationDirs → c₁ f = builtin py f :=
    fun f hf hne => ((hsections f).unchanged fun s hs hs' =>
      absurd hs' (sections_absent py hf s hs)).trans (Function.update_of_ne hne _ _)
  refine ⟨fun l => ?_, hkeys, ?_, fun f hf hne => ?_, fun message => ?_⟩
  · have hbase : locationOf c₁ l = l.builtin :=
      hunchanged (.location l) (location_not_fields l).1 nofun
    rw [hlocation, hbase]
  · have hkept : cfg .observationDirs = dirs :=
      ((hcold .observationDirs nofun).unchanged fun s hs hf =>
        absurd hf (coldStorage_absent py not_coldFields s hs)).trans
        (((hsections .observationDirs).unchanged fun s hs hf =>
          absurd hf (sections_absent py observationDirs_not_sectionFields s hs)).trans
          (Function.update_self _ _ _))
    rw [hkept]
    exact hdirs
  · rw [fileSettings, List.flatMap_append, List.flatMap_singleton]
    by_cases hflag : ∃ e, f = .enabled e
    · obtain ⟨e, rfl⟩ := hflag
      have hflag : isEnabled c₁ e = isEnabled (builtin py) e :=
        hunchanged (.enabled e) (enabled_not_sectionFields e) nofun
      have hfirst : Lib.OverlaidAt ((sections (F := F)).flatMap fun s : TomlSection F =>
          s.settings py source (tableAt data [s.name])) (raised (builtin py) (configured cfg))
          (raised c₁ (configured cfg)) (.enabled e) := by
        refine overlaidAt_of_absent (sections_absent py (enabled_not_sectionFields e)) ?_
        have hraised : isEnabled (raised c₁ (configured cfg)) e =
            (isEnabled c₁ e || configured cfg) := isEnabled_raised e
        rw [hflag, ← isEnabled_raised] at hraised
        exact hraised
      exact hfirst.trans (hcold _ hf)
    · have hne' : ∀ e, f ≠ .enabled e := fun e he => hflag ⟨e, he⟩
      refine (overlaidAt_base (hsections f) ?_).trans
        (overlaidAt_base (hcold f hf) (raised_of_ne hne'))
      rw [raised_of_ne hne']
      exact Function.update_of_ne hne _ _
  · rw [validated] at h ⊢
    obtain ⟨policy, hpolicy, h⟩ := bind_eq_ok h
    split at h
    · cases h
    · rename_i howners
      rw [hpolicy]
      change (if _ then _ else _) = _
      rw [if_neg howners]
      rfl

/-! ## 4. What a key of the file gives -/

theorem mem_fileSources {source : List String × TomlEntry F} (h : source ∈ fileSources (F := F)) :
    (∃ s ∈ sections ++ [coldStorage], ∃ entry ∈ s.entries, source = ([s.name], entry)) ∨
      (∃ l : LocationField, source = (["cold_storage", "s3"], l.entry) ∨
        source = (["s3"], l.entry)) ∨ source = ([], observationDirsEntry) := by
  rw [fileSources, List.mem_append, List.mem_append, List.mem_append] at h
  rcases h with ((h | h) | h) | h
  · obtain ⟨s, hs, h⟩ := List.mem_flatMap.mp h
    obtain ⟨entry, hentry, rfl⟩ := List.mem_map.mp h
    exact .inl ⟨s, hs, entry, hentry, rfl⟩
  · obtain ⟨l, -, rfl⟩ := List.mem_map.mp h
    exact .inr (.inl ⟨l, .inl rfl⟩)
  · obtain ⟨l, -, rfl⟩ := List.mem_map.mp h
    exact .inr (.inl ⟨l, .inr rfl⟩)
  · exact .inr (.inr (List.mem_singleton.mp h))

theorem mem_fileSources_section {s : TomlSection F} (hs : s ∈ sections ++ [coldStorage])
    {entry : TomlEntry F} (hentry : entry ∈ s.entries) : ([s.name], entry) ∈ fileSources := by
  rw [fileSources, List.mem_append, List.mem_append, List.mem_append]
  exact .inl (.inl (.inl (List.mem_flatMap.mpr ⟨s, hs, List.mem_map.mpr ⟨entry, hentry, rfl⟩⟩)))

theorem mem_fileSources_location (l : LocationField) :
    (["cold_storage", "s3"], (l.entry : TomlEntry F)) ∈ fileSources ∧
      (["s3"], (l.entry : TomlEntry F)) ∈ fileSources := by
  rw [fileSources, List.mem_append, List.mem_append, List.mem_append, List.mem_append,
    List.mem_append]
  exact ⟨.inl (.inl (.inr (List.mem_map.mpr ⟨l, l.mem_all, rfl⟩))),
    .inl (.inr (List.mem_map.mpr ⟨l, l.mem_all, rfl⟩))⟩

theorem section_field {s : TomlSection F} (hs : s ∈ sections ++ [coldStorage])
    {entry : TomlEntry F} (hentry : entry ∈ s.entries) :
    entry.field ∈ sectionFields ∨ (s = coldStorage ∧ entry.field ∈ coldFields) := by
  rcases List.mem_append.mp hs with hs | hs
  · refine .inl ?_
    have hfields : ((sections (F := F)).flatMap fun s => s.entries.map TomlEntry.field) =
        sectionFields := rfl
    rw [← hfields]
    exact List.mem_flatMap.mpr ⟨s, hs, List.mem_map.mpr ⟨entry, hentry, rfl⟩⟩
  · obtain rfl := List.mem_singleton.mp hs
    have hfields : (coldStorage (F := F)).entries.map TomlEntry.field = coldFields := rfl
    refine .inr ⟨rfl, ?_⟩
    rw [← hfields]
    exact List.mem_map.mpr ⟨entry, hentry, rfl⟩

/-- The sources of a location field are the two location tables. -/
theorem mem_fileSources_of_location {source : List String × TomlEntry F}
    (h : source ∈ fileSources (F := F)) {l : LocationField} (hf : source.2.field = .location l) :
    source = (["cold_storage", "s3"], l.entry) ∨ source = (["s3"], l.entry) := by
  rcases mem_fileSources h with ⟨s, hs, entry, hentry, rfl⟩ | ⟨l', hl'⟩ | rfl
  · change entry.field = _ at hf
    rcases section_field hs hentry with hmem | ⟨-, hmem⟩
    · exact absurd (hf ▸ hmem) (location_not_fields l).1
    · exact absurd (hf ▸ hmem) (location_not_fields l).2
  · have hl : l' = l := by
      rcases hl' with rfl | rfl <;> exact ConfigField.location.inj hf
    rw [← hl]
    exact hl'
  · cases hf

theorem dirs_mem_fileSources : ([], (observationDirsEntry : TomlEntry F)) ∈ fileSources :=
  List.mem_append_right _ (List.mem_singleton_self _)

/-- The only source of the observation directories is the array of tables. -/
theorem mem_fileSources_of_dirs {source : List String × TomlEntry F}
    (h : source ∈ fileSources (F := F)) (hf : source.2.field = .observationDirs) :
    source = ([], observationDirsEntry) := by
  rcases mem_fileSources h with ⟨s, hs, entry, hentry, rfl⟩ | ⟨l, rfl | rfl⟩ | rfl
  · change entry.field = _ at hf
    rcases section_field hs hentry with hmem | ⟨-, hmem⟩
    · exact absurd (hf ▸ hmem) observationDirs_not_sectionFields
    · exact absurd (hf ▸ hmem) not_coldFields
  · cases hf
  · cases hf
  · rfl

/-- The only source of a flag is its key in `[cold_storage]`. -/
theorem mem_fileSources_of_enabled {source : List String × TomlEntry F}
    (h : source ∈ fileSources (F := F)) {e : EnabledField} (hf : source.2.field = .enabled e) :
    source = (["cold_storage"], ⟨[e.key], .enabled e, asBool⟩) := by
  rcases mem_fileSources h with ⟨s, hs, entry, hentry, rfl⟩ | ⟨l, rfl | rfl⟩ | rfl
  · change entry.field = _ at hf
    rcases section_field hs hentry with hmem | ⟨rfl, -⟩
    · exact absurd (hf ▸ hmem) (enabled_not_sectionFields e)
    · rw [enabled_entry hentry hf]
      rfl
  · cases hf
  · cases hf
  · cases hf

theorem asBool_label {label label' : String} {value : TomlValue F} {b : Bool}
    (h : asBool py label value = .ok b) : asBool py label' value = .ok b := by
  unfold asBool at h ⊢
  split at h
  · exact h
  · dsimp only at h ⊢
    split at h
    · rename_i htrue
      rw [if_pos htrue]
      exact h
    · rename_i htrue
      rw [if_neg htrue]
      split at h
      · rename_i hfalse
        rw [if_pos hfalse]
        exact h
      · cases h

/-- A flag of the file has one value. -/
theorem fileGives_enabled_unique {data : TomlTable F} {e : EnabledField} {b b' : Bool}
    (h : FileGives py data (.enabled e) b) (h' : FileGives py data (.enabled e) b') : b = b' := by
  obtain ⟨source, hsource, key, hkey, value, label, hlookup, hgives⟩ := h
  obtain ⟨source', hsource', key', hkey', value', label', hlookup', hgives'⟩ := h'
  obtain rfl := mem_fileSources_of_enabled hsource hgives.field
  obtain rfl := mem_fileSources_of_enabled hsource' hgives'.field
  obtain rfl := List.mem_singleton.mp hkey
  obtain rfl := List.mem_singleton.mp hkey'
  rw [hlookup] at hlookup'
  obtain rfl := Option.some.inj hlookup'
  have hb := Option.some.inj (Lib.Setting.gives_iff.mp hgives)
  have hb' := Option.some.inj (Lib.Setting.gives_iff.mp hgives')
  have hsame : asBool py label' value = .ok _ := asBool_label py hb
  exact Except.ok.inj (hsame.symm.trans hb')

/-- A text of a location table is given by one of its keys. -/
theorem fileGives_of_textIn {data : TomlTable F} {l : LocationField} {text : String}
    {path : List String} (hpath : path = ["cold_storage", "s3"] ∨ path = ["s3"])
    (h : textIn py (tableAt data path) l = some text) :
    FileSet data (.location l) ∧ FileGives py data (.location l) text := by
  rw [textIn] at h
  obtain ⟨shown, hbind, hshown⟩ := Option.map_eq_some_iff.mp h
  obtain ⟨value, hfirst, hstr⟩ := Option.bind_eq_some_iff.mp hbind
  obtain ⟨key, hkey, hlookup⟩ := List.exists_of_findSome?_eq_some hfirst
  have hsource : (path, (l.entry : TomlEntry F)) ∈ fileSources := by
    rcases hpath with rfl | rfl
    · exact (mem_fileSources_location l).1
    · exact (mem_fileSources_location l).2
  refine ⟨⟨_, hsource, rfl, key, hkey, by rw [hlookup]; rfl⟩,
    _, hsource, key, hkey, value, "", hlookup, Lib.Setting.gives_mk ?_⟩
  have hok : asStr py "" value = .ok text := (asStr_ok_iff py).mpr (by
    rw [hstr, Option.map_some, hshown])
  exact congrArg some hok

/-- What the settings of the sections leave at a field is what its keys give. -/
theorem file_decides {data : TomlTable F} {source : String} {base cfg : MountdConfig F}
    {f : ConfigField} (hf : ∀ l, f ≠ .location l) (hne : f ≠ .observationDirs)
    (h : Lib.OverlaidAt (fileSettings py data source) base cfg f) :
    (FileSet data f → FileGives py data f (cfg f)) ∧ (¬ FileSet data f → cfg f = base f) := by
  have hgiven : (∃ s ∈ fileSettings py data source, s.Gives f (cfg f)) →
      FileGives py data f (cfg f) ∧ FileSet data f := by
    rintro ⟨s, hs, hgives⟩
    obtain ⟨part, hpart, hs⟩ := List.mem_flatMap.mp hs
    obtain ⟨entry, hentry, rfl⟩ := List.mem_map.mp hs
    obtain rfl : entry.field = f := hgives.field
    have hread := Lib.Setting.gives_iff.mp hgives
    obtain ⟨value, hfirst, hparse⟩ := Option.map_eq_some_iff.mp hread
    obtain ⟨key, hkey, hlookup⟩ := List.exists_of_findSome?_eq_some hfirst
    refine ⟨⟨_, mem_fileSources_section hpart hentry, key, hkey, value, _, hlookup,
      Lib.Setting.gives_mk (congrArg some hparse)⟩,
      _, mem_fileSources_section hpart hentry, rfl, key, hkey, ?_⟩
    rw [hlookup]
    rfl
  refine ⟨fun hset => ?_, fun hunset => ?_⟩
  · obtain ⟨⟨path, entry⟩, hsource, hfield, key, hkey, hlookup⟩ := hset
    rcases mem_fileSources hsource with ⟨s, hs, entry, hentry, heq⟩ | ⟨l, heq | heq⟩ | heq
    · obtain ⟨rfl, rfl⟩ := Prod.mk.inj heq
      refine (hgiven (h.given ⟨_, List.mem_flatMap.mpr ⟨s, hs, List.mem_map.mpr
        ⟨entry, hentry, rfl⟩⟩, hfield, fun hread => ?_⟩)).1
      have hnone := List.findSome?_eq_none_iff.mp (Option.map_eq_none_iff.mp hread) key hkey
      change (List.lookup key (tableAt data [s.name])).isSome at hlookup
      rw [hnone] at hlookup
      cases hlookup
    · obtain ⟨-, rfl⟩ := Prod.mk.inj heq
      exact absurd hfield.symm (hf l)
    · obtain ⟨-, rfl⟩ := Prod.mk.inj heq
      exact absurd hfield.symm (hf l)
    · obtain ⟨-, rfl⟩ := Prod.mk.inj heq
      exact absurd hfield.symm hne
  · rcases h with hgives | ⟨-, heq⟩
    · exact absurd (hgiven hgives).2 hunset
    · exact heq

end

end CccStorage.Mountd
