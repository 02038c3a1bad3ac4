/-
  File:      CccStorage/ConfigPrecedence.lean
  Subject:   Built-in defaults, then the file, then the environment, field by field
             (`docs/operations/configuration.md`).

  * `Precedence` -- a field is what the highest source that is set says;
  * `TurnedOn`, `LeftBlank` -- a `false` of the file against a configured location, and a blank text
    of `[cold_storage.s3]` with none in `[s3]`;
  * `precedence_iff` -- the precedence holds exactly without the two.
-/
import CccStorage.ConfigLayers

namespace CccStorage.Mountd

section

variable {F : Type} (py : PyNumbers F)

/-! ## 1. The precedence -/

/-- The value of a field no source of which is set. -/
def fallback (cfg : MountdConfig F) : (f : ConfigField) → f.Value F
  | .enabled _ => configured cfg
  | f => builtin py f

/-- **The precedence of the sources** at one field. -/
structure Precedence (data : TomlTable F) (env : Environment) (cfg : MountdConfig F)
    (f : ConfigField) : Prop where
  fromEnv : EnvSet F env f → EnvGives py env f (cfg f)
  fromFile : ¬ EnvSet F env f → FileSet data f → FileGives py data f (cfg f)
  unset : ¬ EnvSet F env f → ¬ FileSet data f → cfg f = fallback py cfg f

/-- `bucket` and `endpoint_url` are configured, by a variable or by the file. -/
def Configured (data : TomlTable F) (env : Environment) : Prop :=
  ∀ l, l = .bucket ∨ l = .endpointUrl →
    EnvSet F env (.location l) ∨ (fileLocation py data l).any (· ≠ "")

/-- **A `false` of the file that is turned on**: no variable of the flag is set, and the location is
    configured. -/
structure TurnedOn (data : TomlTable F) (env : Environment) (e : EnabledField) : Prop where
  unset : ¬ EnvSet F env (.enabled e)
  off : FileGives py data (.enabled e) false
  configured : Configured py data env

/-- **A blank text that is taken for none**: the first key of `l` in `[cold_storage.s3]` is blank,
    `[s3]` has none, no variable of `l` is set, and no key of `l` names the default. -/
structure LeftBlank (data : TomlTable F) (env : Environment) (l : LocationField) : Prop where
  unset : ¬ EnvSet F env (.location l)
  blank : textIn py (tableAt data ["cold_storage", "s3"]) l = some ""
  none : textIn py (tableAt data ["s3"]) l = none
  other : ¬ FileGives py data (.location l) l.builtin

/-! ## 2. Flags and locations -/

theorem envFirst_not_blank {env : Environment} {keys : List String} {value : String}
    (h : envFirst env keys = some value) : strip value ≠ "" := by
  obtain ⟨key, -, hkey⟩ := List.exists_of_findSome?_eq_some h
  have hfilter := Option.filter_eq_some_iff.mp hkey
  exact of_decide_eq_true hfilter.2

theorem location_rule {rule : EnvRule F} (h : rule ∈ allEnvRules (F := F)) {l : LocationField}
    (hf : rule.field = .location l) : ∃ vars default, rule = .location vars l default := by
  simp only [allEnvRules, envRules, coldEnvRules, List.mem_append, List.mem_cons, List.not_mem_nil,
    or_false] at h
  rcases h with ((h | rfl) | rfl) | h
  · repeat' rcases h with rfl | h
    all_goals cases hf
    all_goals exact ⟨_, _, rfl⟩
  · cases hf
  · cases hf
  · rcases h with rfl | rfl | rfl | rfl <;> cases hf

/-- A variable of a location field is set to a text that is not blank. -/
theorem envGives_location {env : Environment} {l : LocationField} {text : String}
    (h : EnvGives py env (.location l) text) : text ≠ "" := by
  obtain ⟨rule, hrule, hgives⟩ := h
  obtain ⟨vars, default, rfl⟩ := location_rule hrule hgives.field
  have hread := Lib.Setting.gives_iff.mp hgives
  obtain ⟨value, hvalue, hparse⟩ := Option.map_eq_some_iff.mp hread
  have hne := envFirst_not_blank hvalue
  have htext : (if strip value = "" then default else strip value) = text :=
    Except.ok.inj hparse
  rw [if_neg hne] at htext
  rw [← htext]
  exact hne

section Loaded

variable {py} {data : TomlTable F} {source : String} {loaded cfg : MountdConfig F}
  {env : Environment}

theorem locationOf_loaded (hfile : fromFile py data source = .ok loaded) {l : LocationField}
    (hl : l = .bucket ∨ l = .endpointUrl) :
    locationOf loaded l ≠ "" ↔ (fileLocation py data l).any (· ≠ "") := by
  have hbuiltin : l.builtin = "" := by rcases hl with rfl | rfl <;> rfl
  rw [(fromFile_at py hfile).1 l, hbuiltin]
  cases fileLocation py data l <;> simp

theorem locationOf_unset (henv : withEnv py loaded env = .ok cfg) {l : LocationField}
    (hunset : ¬ EnvSet F env (.location l)) : locationOf cfg l = locationOf loaded l :=
  (env_decides py henv (.location l)).2 hunset

theorem locationOf_ne_iff (hfile : fromFile py data source = .ok loaded)
    (henv : withEnv py loaded env = .ok cfg) {l : LocationField}
    (hl : l = .bucket ∨ l = .endpointUrl) :
    locationOf cfg l ≠ "" ↔
      EnvSet F env (.location l) ∨ (fileLocation py data l).any (· ≠ "") := by
  by_cases hset : EnvSet F env (.location l)
  · exact ⟨fun _ => .inl hset, fun _ => envGives_location py ((env_decides py henv _).1 hset)⟩
  · rw [locationOf_unset henv hset, locationOf_loaded hfile hl, or_iff_right hset]

theorem configured_eq_true {c : MountdConfig F} :
    configured c = true ↔ ∀ l, l = .bucket ∨ l = .endpointUrl → locationOf c l ≠ "" := by
  rw [configured, Bool.and_eq_true, decide_eq_true_iff, decide_eq_true_iff]
  constructor
  · rintro ⟨hbucket, hendpoint⟩ l (rfl | rfl)
    · exact hbucket
    · exact hendpoint
  · intro h
    exact ⟨h _ (.inl rfl), h _ (.inr rfl)⟩

/-- Whether the configuration that comes out has a location is decided by what went in. -/
theorem configured_iff (hfile : fromFile py data source = .ok loaded)
    (henv : withEnv py loaded env = .ok cfg) :
    configured cfg = true ↔ Configured py data env := by
  rw [configured_eq_true]
  exact forall₂_congr fun l hl => locationOf_ne_iff hfile henv hl

/-- A location of the file stays configured. -/
theorem configured_of_loaded (hfile : fromFile py data source = .ok loaded)
    (henv : withEnv py loaded env = .ok cfg) (h : configured loaded = true) :
    configured cfg = true := by
  rw [configured_eq_true] at h ⊢
  exact fun l hl => (locationOf_ne_iff hfile henv hl).mpr
    (.inr ((locationOf_loaded hfile hl).mp (h l hl)))

/-- A field that is neither a flag nor a location. -/
theorem precedence_of_plain (hfile : fromFile py data source = .ok loaded)
    (henv : withEnv py loaded env = .ok cfg) {f : ConfigField} (hflag : ∀ e, f ≠ .enabled e)
    (hlocation : ∀ l, f ≠ .location l) : Precedence py data env cfg f := by
  obtain ⟨hset, hunset⟩ := env_decides py henv f
  obtain ⟨-, -, hdirs, hsections, -⟩ := fromFile_at py hfile
  have hfallback : fallback py cfg f = builtin py f := by
    cases f with
    | enabled e => exact absurd rfl (hflag e)
    | _ => rfl
  rw [raised_of_ne hflag] at hunset
  by_cases hne : f = .observationDirs
  · subst hne
    cases hlookup : data.lookup "observation_dirs" with
    | some value =>
      rw [hlookup] at hdirs
      have hgives : FileGives py data .observationDirs (loaded .observationDirs) :=
        ⟨_, dirs_mem_fileSources, _, List.mem_singleton_self _, value, source, hlookup,
          Lib.Setting.gives_mk (congrArg some hdirs)⟩
      refine ⟨hset, fun hno _ => ?_, fun _ hfileUnset => absurd ?_ hfileUnset⟩
      · rw [hunset hno]
        exact hgives
      · refine ⟨_, dirs_mem_fileSources, rfl, _, List.mem_singleton_self _, ?_⟩
        rw [show tableAt data [] = data from rfl, hlookup]
        rfl
    | none =>
      rw [hlookup] at hdirs
      refine ⟨hset, fun _ hfileSet => ?_, fun hno _ => ?_⟩
      · obtain ⟨entry, hentry, hfield, key, hkey, hisSome⟩ := hfileSet
        obtain rfl := mem_fileSources_of_dirs hentry hfield
        obtain rfl := List.mem_singleton.mp hkey
        rw [show tableAt data [] = data from rfl, hlookup] at hisSome
        cases hisSome
      · rw [hunset hno]
        exact (Except.ok.inj hdirs).symm
  · obtain ⟨hgives, hkept⟩ := file_decides py hlocation hne (hsections f hlocation hne)
    rw [raised_of_ne hflag] at hkept
    refine ⟨hset, fun hno hfileSet => ?_, fun hno hfileUnset => ?_⟩
    · rw [hunset hno]
      exact hgives hfileSet
    · rw [hunset hno, hkept hfileUnset, hfallback]

/-- What the file leaves a flag at. -/
theorem file_decides_flag (hfile : fromFile py data source = .ok loaded) (e : EnabledField) :
    (FileSet data (.enabled e) → FileGives py data (.enabled e) (isEnabled loaded e)) ∧
      (¬ FileSet data (.enabled e) →
        isEnabled loaded e = isEnabled (raised (builtin py) (configured loaded)) e) := by
  have hlocation : ∀ l, ConfigField.enabled e ≠ .location l := fun l h => by cases h
  have hdirs : ConfigField.enabled e ≠ .observationDirs := fun h => by cases h
  obtain ⟨-, -, -, hsections, -⟩ := fromFile_at py hfile
  exact file_decides py hlocation hdirs (hsections _ hlocation hdirs)

/-- **A flag** follows the precedence exactly when it is not turned on against the file. -/
theorem precedence_enabled_iff (hfile : fromFile py data source = .ok loaded)
    (henv : withEnv py loaded env = .ok cfg) (e : EnabledField) :
    Precedence py data env cfg (.enabled e) ↔ ¬ TurnedOn py data env e := by
  obtain ⟨hset, hunset⟩ := env_decides py henv (.enabled e)
  obtain ⟨hgives, hkept⟩ := file_decides_flag hfile e
  have hvalue : ¬ EnvSet F env (.enabled e) →
      isEnabled cfg e = (isEnabled loaded e || configured cfg) := hunset
  constructor
  · rintro hprecedence ⟨hno, hoff, hconf⟩
    have hfileSet : FileSet data (.enabled e) := by
      obtain ⟨entry, hentry, key, hkey, value, label, hlookup, hgives⟩ := hoff
      exact ⟨entry, hentry, hgives.field, key, hkey, by rw [hlookup]; rfl⟩
    have hcfg : FileGives py data (.enabled e) (isEnabled cfg e) :=
      hprecedence.fromFile hno hfileSet
    rw [hvalue hno, (configured_iff hfile henv).mpr hconf, Bool.or_true] at hcfg
    cases fileGives_enabled_unique py hoff hcfg
  · intro hoff
    refine ⟨hset, fun hno hfileSet => ?_, fun hno hfileUnset => ?_⟩
    · have hloaded : FileGives py data (.enabled e) (isEnabled loaded e) := hgives hfileSet
      change FileGives py data (.enabled e) (isEnabled cfg e)
      rw [hvalue hno]
      cases hflag : isEnabled loaded e with
      | true =>
        rw [hflag] at hloaded
        rw [Bool.true_or]
        exact hloaded
      | false =>
        rw [hflag] at hloaded
        cases hconf : configured cfg with
        | false => exact hloaded
        | true => exact absurd ⟨hno, hloaded, (configured_iff hfile henv).mp hconf⟩ hoff
    · have hloaded : isEnabled loaded e = (false || configured loaded) := hkept hfileUnset
      change isEnabled cfg e = configured cfg
      rw [hvalue hno, hloaded, Bool.false_or]
      cases hconf : configured loaded with
      | false => rw [Bool.false_or]
      | true => rw [configured_of_loaded hfile henv hconf, Bool.true_or]

/-- **A location** follows the precedence exactly when no blank text was taken for none. -/
theorem precedence_location_iff (hfile : fromFile py data source = .ok loaded)
    (henv : withEnv py loaded env = .ok cfg) (l : LocationField) :
    Precedence py data env cfg (.location l) ↔ ¬ LeftBlank py data env l := by
  obtain ⟨hset, hunset⟩ := env_decides py henv (.location l)
  obtain ⟨hloaded, hkeys, -, -, -⟩ := fromFile_at py hfile
  have hvalue : ¬ EnvSet F env (.location l) →
      locationOf cfg l = (fileLocation py data l).getD l.builtin := fun hno =>
    (locationOf_unset henv hno).trans (hloaded l)
  constructor
  · rintro hprecedence ⟨hno, hblank, htop, hother⟩
    have hnone : fileLocation py data l = none := by
      rw [fileLocation, hblank]
      exact htop
    have hcfg : FileGives py data (.location l) (locationOf cfg l) :=
      hprecedence.fromFile hno (fileGives_of_textIn py (.inl rfl) hblank).1
    rw [hvalue hno, hnone] at hcfg
    exact hother hcfg
  · intro hblank
    refine ⟨hset, fun hno hfileSet => ?_, fun hno hfileUnset => ?_⟩
    · change FileGives py data (.location l) (locationOf cfg l)
      rw [hvalue hno]
      cases htext : fileLocation py data l with
      | some text =>
        rw [fileLocation] at htext
        split at htext
        · exact (fileGives_of_textIn py (.inl rfl) htext).2
        · exact (fileGives_of_textIn py (.inr rfl) htext).2
      | none =>
        by_contra hother
        obtain ⟨hfalsy, htop⟩ := fileLocation_none py htext
        cases hown : textIn py (tableAt data ["cold_storage", "s3"]) l with
        | some text =>
          rw [hown, Option.any_some, decide_eq_true_iff, not_not] at hfalsy
          exact hblank ⟨hno, hfalsy ▸ hown, htop, hother⟩
        | none =>
          obtain ⟨entry, hentry, hfield, key, hkey, hlookup⟩ := hfileSet
          rcases mem_fileSources_of_location hentry hfield with rfl | rfl
          · rw [(hkeys l htext key hkey).2 hown] at hlookup
            cases hlookup
          · rw [(hkeys l htext key hkey).1] at hlookup
            cases hlookup
    · change locationOf cfg l = l.builtin
      rw [hvalue hno]
      cases htext : fileLocation py data l with
      | none => rfl
      | some text =>
        rw [fileLocation] at htext
        refine absurd ?_ hfileUnset
        split at htext
        · exact (fileGives_of_textIn py (.inl rfl) htext).1
        · exact (fileGives_of_textIn py (.inr rfl) htext).1

/-! ## 3. All fields -/

def noVariables : Environment := fun _ => none

theorem envFirst_noVariables (keys : List String) : envFirst noVariables keys = none :=
  List.findSome?_eq_none_iff.mpr fun _ _ => rfl

theorem not_envSet_noVariables {f : ConfigField} : ¬ EnvSet F noVariables f := by
  rintro ⟨rule, -, -, hset⟩
  exact hset (envFirst_noVariables _)

/-- The flag the file left off, with a location: the empty environment turns it on. -/
theorem enabled_of_not_turnedOn (hfile : fromFile py data source = .ok loaded) {e : EnabledField}
    (hoff : ¬ TurnedOn py data noVariables e) :
    (configured loaded && !isEnabled loaded e) = false := by
  obtain ⟨hgives, hkept⟩ := file_decides_flag hfile e
  cases hconf : configured loaded with
  | false => rfl
  | true =>
    cases hflag : isEnabled loaded e with
    | true => rfl
    | false =>
      refine absurd ⟨not_envSet_noVariables, ?_, fun l hl => .inr ?_⟩ hoff
      · by_cases hfileSet : FileSet data (.enabled e)
        · have hloaded : FileGives py data (.enabled e) (isEnabled loaded e) := hgives hfileSet
          rw [hflag] at hloaded
          exact hloaded
        · have hloaded : isEnabled loaded e = (false || configured loaded) := hkept hfileSet
          rw [hflag, hconf] at hloaded
          cases hloaded
      · exact (locationOf_loaded hfile hl).mp (configured_eq_true.mp hconf l hl)

/-- **The empty environment** leaves a configuration of a file as it is exactly when it turns no
    flag on. -/
theorem withEnv_noVariables_iff (hfile : fromFile py data source = .ok loaded) :
    withEnv py loaded noVariables = .ok loaded ↔ ∀ e, ¬ TurnedOn py data noVariables e := by
  constructor
  · rintro henv e hon
    have hvalue : isEnabled loaded e = (isEnabled loaded e || configured loaded) :=
      (env_decides py henv (.enabled e)).2 not_envSet_noVariables
    rw [(configured_iff hfile henv).mpr hon.configured, Bool.or_true] at hvalue
    have hset : FileSet data (.enabled e) := by
      obtain ⟨entry, hentry, key, hkey, value, label, hlookup, hgives⟩ := hon.off
      exact ⟨entry, hentry, hgives.field, key, hkey, by rw [hlookup]; rfl⟩
    have hloaded : FileGives py data (.enabled e) (isEnabled loaded e) :=
      (file_decides_flag hfile e).1 hset
    rw [hvalue] at hloaded
    cases fileGives_enabled_unique py hon.off hloaded
  · intro hoff
    have hunset : ∀ rules : List (EnvRule F),
        Lib.overlay (rules.map (EnvRule.setting py noVariables)) loaded = .ok loaded := by
      intro rules
      refine Lib.overlay_unset fun s hs => ?_
      obtain ⟨rule, -, rfl⟩ := List.mem_map.mp hs
      rw [EnvRule.setting, envFirst_noVariables]
      rfl
    have hflag : ∀ e, enabledFromEnv py noVariables loaded e = .ok loaded := by
      intro e
      rw [enabledFromEnv, envFirst_noVariables, Option.isSome_none, if_neg Bool.false_ne_true,
        enabled_of_not_turnedOn hfile (hoff e)]
      rfl
    refine (bind_of_ok (hunset _)).trans ?_
    refine (bind_of_ok (hflag _)).trans ?_
    refine (bind_of_ok (hflag _)).trans ?_
    refine (bind_of_ok (hunset _)).trans ?_
    exact (fromFile_at py hfile).2.2.2.2 _

/-- **The precedence of the sources**, field by field: it holds exactly when no `false` of the file
    is turned on and no blank text was taken for none; and the empty environment returns what the
    file gave exactly when it turns nothing on. -/
theorem precedence_iff (hfile : fromFile py data source = .ok loaded)
    (henv : withEnv py loaded env = .ok cfg) :
    ((∀ f, Precedence py data env cfg f) ↔
      (∀ e, ¬ TurnedOn py data env e) ∧ ∀ l, ¬ LeftBlank py data env l) ∧
    (withEnv py loaded noVariables = .ok loaded ↔ ∀ e, ¬ TurnedOn py data noVariables e) := by
  refine ⟨⟨fun h => ⟨fun e => ?_, fun l => ?_⟩, fun ⟨hflags, hlocations⟩ f => ?_⟩,
    withEnv_noVariables_iff hfile⟩
  · exact (precedence_enabled_iff hfile henv e).mp (h _)
  · exact (precedence_location_iff hfile henv l).mp (h _)
  · by_cases hflag : ∃ e, f = .enabled e
    · obtain ⟨e, rfl⟩ := hflag
      exact (precedence_enabled_iff hfile henv e).mpr (hflags e)
    · by_cases hlocation : ∃ l, f = .location l
      · obtain ⟨l, rfl⟩ := hlocation
        exact (precedence_location_iff hfile henv l).mpr (hlocations l)
      · exact precedence_of_plain hfile henv (fun e he => hflag ⟨e, he⟩)
          fun l hl => hlocation ⟨l, hl⟩

end Loaded

end

/-! ## 4. A file that says no -/

def disabledFile : TomlTable Int :=
  [("cold_storage", .table [("enabled", .bool false),
    ("s3", .table [("bucket", .text "file-bucket"), ("endpoint_url", .text "https://s3.example")])])]

/-- The flag after the file, and after the environment. -/
def flagsOf (data : TomlTable Int) (env : Environment) : Except ConfigError (Bool × Bool) := do
  let loaded ← fromFile wholeNumbers data "mountd.toml"
  let cfg ← withEnv wholeNumbers loaded env
  return (isEnabled loaded .enabled, isEnabled cfg .enabled)

theorem flagsOf_ok {data : TomlTable Int} {env : Environment} {flags : Bool × Bool}
    (h : flagsOf data env = .ok flags) :
    ∃ loaded cfg, fromFile wholeNumbers data "mountd.toml" = .ok loaded ∧
      withEnv wholeNumbers loaded env = .ok cfg ∧ isEnabled loaded .enabled = flags.1 ∧
      isEnabled cfg .enabled = flags.2 := by
  obtain ⟨loaded, hloaded, h⟩ := bind_eq_ok h
  obtain ⟨cfg, hcfg, h⟩ := bind_eq_ok h
  obtain rfl := Except.ok.inj h
  exact ⟨loaded, cfg, hloaded, hcfg, rfl, rfl⟩

theorem disabledFile_off : FileGives wholeNumbers disabledFile (.enabled .enabled) false := by
  have hmem : (coldStorage : TomlSection Int) ∈ sections ++ [coldStorage] :=
    List.mem_append_right _ (List.mem_singleton_self _)
  exact ⟨_, mem_fileSources_section hmem (enabled_entry_mem .enabled), _, List.mem_singleton_self _,
    .bool false, "", rfl, Lib.Setting.gives_mk rfl⟩

/-- **The explicit `false` is turned on**: the file says `enabled = false` and names a bucket and an
    endpoint, no variable is set, and the cold storage is enabled. -/
theorem disabledFile_turnedOn :
    ∃ loaded cfg, fromFile wholeNumbers disabledFile "mountd.toml" = .ok loaded ∧
      withEnv wholeNumbers loaded noVariables = .ok cfg ∧ isEnabled loaded .enabled = false ∧
      isEnabled cfg .enabled = true ∧
      ¬ Precedence wholeNumbers disabledFile noVariables cfg (.enabled .enabled) := by
  have hflags : flagsOf disabledFile noVariables = .ok (false, true) := by decide +kernel
  obtain ⟨loaded, cfg, hfile, henv, hoff, hon⟩ := flagsOf_ok hflags
  refine ⟨loaded, cfg, hfile, henv, hoff, hon, fun hprecedence => ?_⟩
  have hset : FileSet disabledFile (.enabled .enabled) := by
    obtain ⟨entry, hentry, key, hkey, value, label, hlookup, hgives⟩ := disabledFile_off
    exact ⟨entry, hentry, hgives.field, key, hkey, by rw [hlookup]; rfl⟩
  have hcfg : FileGives wholeNumbers disabledFile (.enabled .enabled) (isEnabled cfg .enabled) :=
    hprecedence.fromFile not_envSet_noVariables hset
  rw [hon] at hcfg
  cases fileGives_enabled_unique wholeNumbers disabledFile_off hcfg

/-- `CCC_COLD_STORAGE_ENABLED=0`. -/
def disabledEnv : Environment := fun key =>
  if key = "CCC_COLD_STORAGE_ENABLED" then some "0" else none

theorem disabledEnv_precedence :
    ∃ loaded cfg, fromFile wholeNumbers disabledFile "mountd.toml" = .ok loaded ∧
      withEnv wholeNumbers loaded disabledEnv = .ok cfg ∧
      ((∀ f, Precedence wholeNumbers disabledFile disabledEnv cfg f) ↔
        (∀ e, ¬ TurnedOn wholeNumbers disabledFile disabledEnv e) ∧
          ∀ l, ¬ LeftBlank wholeNumbers disabledFile disabledEnv l) ∧
      (withEnv wholeNumbers loaded noVariables = .ok loaded ↔
        ∀ e, ¬ TurnedOn wholeNumbers disabledFile noVariables e) := by
  have hflags : flagsOf disabledFile disabledEnv = .ok (false, false) := by decide +kernel
  obtain ⟨loaded, cfg, hfile, henv, -, -⟩ := flagsOf_ok hflags
  exact ⟨loaded, cfg, hfile, henv, precedence_iff hfile henv⟩

end CccStorage.Mountd
