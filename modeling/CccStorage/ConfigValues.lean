/-
  File:      CccStorage/ConfigValues.lean
  Subject:   The values of a configuration and their parsers: the `_as_*` functions of
             `mountd/config.py`, `normalize_write_policy` (`core/manifest.py`), `parse_human_bytes`
             and `parse_levels` (`mountd/workers/levels.py`).

  * `PyNumbers` -- what the interpreter decides about numbers: its float type, and the decimal
    digits of its Unicode tables;
  * `TomlValue` -- what `tomllib` reads;
  * `asStr`, `asBool`, ... -- a value of the file or a text of the environment as a field's value;
  * `parseLevels`, `parseLevels_increasing` -- the levels come out sorted, each number once.
-/
import CccStorage.Levels
import CccStorage.Passes

namespace CccStorage.Mountd

/-! ## 1. Values and errors -/

/-- `ValueError` and `TypeError` are caught by the parsers, `OverflowError` is not. -/
inductive NumberError where
  | value
  | overflow
  deriving DecidableEq, Repr

/-- The numeric built-ins that depend on the interpreter, over its float type. -/
structure PyNumbers (F : Type) where
  /-- `unicodedata.decimal`, which `int()` and `\d` go by. -/
  digit : Char → Option Nat
  /-- `str.isdigit` of one character; also true of a superscript, which `int()` refuses. -/
  isDigit : Char → Bool
  /-- A number of whole seconds written in the source. -/
  seconds : Nat → F
  ofText : String → Option F
  /-- `float(n)`, with `OverflowError` for a number out of range. -/
  ofInt : Int → Option F
  /-- `int(x)`, which refuses the infinities and nan. -/
  trunc : F → Except NumberError Int
  /-- `x < 0`. -/
  negative : F → Bool
  /-- `str(x)`. -/
  shown : F → String

/-- Numbers without fractions. -/
def wholeNumbers : PyNumbers Int where
  digit c := if c.isDigit then some (c.toNat - '0'.toNat) else none
  isDigit := Char.isDigit
  seconds n := n
  ofText s := s.toInt?
  ofInt := some
  trunc n := .ok n
  negative n := n < 0
  shown n := toString n ++ ".0"

/-- A TOML value; of a date or a time only what `str` shows. -/
inductive TomlValue (F : Type) where
  | text (s : String)
  | int (n : Int)
  | bool (b : Bool)
  | float (x : F)
  | moment (shown : String)
  | array (items : List (TomlValue F))
  | table (entries : List (String × TomlValue F))

abbrev TomlTable (F : Type) := List (String × TomlValue F)

/-- `str | int`, as `max_online_compaction_bytes` is kept. -/
inductive HumanBytes where
  | text (s : String)
  | count (n : Int)
  deriving DecidableEq, Repr

inductive LevelPolicyError where
  /-- `byte size must be positive: {value!r}` -/
  | notPositive (value : HumanBytes)
  /-- `empty byte size` -/
  | emptySize
  /-- `malformed byte size: {value!r}` -/
  | malformedSize (value : String)
  /-- `unknown byte unit in {value!r}` -/
  | unknownUnit (value : String)
  /-- `empty level spec` -/
  | emptySpec
  /-- `malformed level entry (need 'level:size'): {item!r}` -/
  | malformedEntry (item : String)
  /-- `malformed level number: {level_str!r}` -/
  | malformedLevel (level : String)
  /-- The `ValueError` of `int(level_str)`. -/
  | notAnInt (level : String)
  /-- `level number must be >= 0: {level}` -/
  | negativeLevel (level : Int)
  /-- `duplicate level: {level}` -/
  | duplicateLevel (level : Nat)
  /-- `no levels parsed from {spec!r}` -/
  | noLevels (spec : String)
  deriving DecidableEq, Repr

/-- The exceptions that refuse a configuration. -/
inductive ConfigError where
  /-- `ConfigError(message)` -/
  | message (text : String)
  /-- `{label}: invalid write_policy {value!r}; ...`; no value for an array or a table. -/
  | writePolicy (label : String) (value : Option String)
  /-- `invalid compaction policy in mountd config: {exc}` -/
  | compaction (cause : LevelPolicyError)
  /-- A `LevelPolicyError` no one turns into a `ConfigError`. -/
  | levels (cause : LevelPolicyError)
  /-- An `OverflowError`. -/
  | overflow
  deriving DecidableEq, Repr

/-- What the first of two steps returned, when both went through. -/
theorem bind_eq_ok {ε α β : Type} {x : Except ε α} {f : α → Except ε β} {b : β}
    (h : x >>= f = .ok b) : ∃ a, x = .ok a ∧ f a = .ok b := by
  cases x with
  | error e => cases h
  | ok a => exact ⟨a, rfl, h⟩

theorem bind_of_ok {ε α β : Type} {x : Except ε α} {f : α → Except ε β} {a : α}
    (h : x = .ok a) : x >>= f = f a := by
  rw [h]
  rfl

/-! ## 2. Numbers -/

section Numbers

variable {F : Type} (py : PyNumbers F)

/-- The digits after the first; one underscore may stand between two of them. -/
def digitsFrom (value : Nat) : List Char → Option Nat
  | [] => some value
  | '_' :: c :: cs => (py.digit c).bind fun d => digitsFrom (value * 10 + d) cs
  | c :: cs => (py.digit c).bind fun d => digitsFrom (value * 10 + d) cs

def digits : List Char → Option Nat
  | [] => none
  | c :: cs => (py.digit c).bind fun d => digitsFrom py d cs

/-- `int(text)`. -/
def parseInt (text : String) : Option Int :=
  match (strip text).toList with
  | '-' :: cs => (digits py cs).map fun n => -Int.ofNat n
  | '+' :: cs => (digits py cs).map Int.ofNat
  | cs => (digits py cs).map Int.ofNat

namespace TomlValue

/-- `str(value)`; none for an array or a table, whose text no parser accepts. -/
def str : TomlValue F → Option String
  | .text s => some s
  | .int n => some (toString n)
  | .bool b => some (if b then "True" else "False")
  | .float x => some (py.shown x)
  | .moment shown => some shown
  | .array _ | .table _ => none

/-- `float(value)`. -/
def toFloat : TomlValue F → Except NumberError F
  | .text s => (py.ofText s).elim (.error .value) .ok
  | .int n => (py.ofInt n).elim (.error .overflow) .ok
  | .bool b => (py.ofInt (if b then 1 else 0)).elim (.error .overflow) .ok
  | .float x => .ok x
  | .moment _ | .array _ | .table _ => .error .value

/-- `int(value)`. -/
def toInt : TomlValue F → Except NumberError Int
  | .text s => (parseInt py s).elim (.error .value) .ok
  | .int n => .ok n
  | .bool b => .ok (if b then 1 else 0)
  | .float x => py.trunc x
  | .moment _ | .array _ | .table _ => .error .value

end TomlValue

/-! ## 3. The parsers -/

def asStr (label : String) (value : TomlValue F) : Except ConfigError String :=
  match value.str py with
  | some s => .ok (strip s)
  | none => .error (.message (label ++ " must be a string"))

/-- `_as_str(...) or default`. -/
def asStrOr (default : String) (label : String) (value : TomlValue F) :
    Except ConfigError String := do
  let text ← asStr py label value
  return if text = "" then default else text

def TRUE : List String := ["1", "true", "yes", "on"]
def FALSE : List String := ["0", "false", "no", "off"]

/-- `str.lower`, on the letters that decide whether a text is one of the words compared with. -/
def lower (s : String) : String := String.ofList (s.toList.map Char.toLower)

def asBool (label : String) : TomlValue F → Except ConfigError Bool
  | .bool b => .ok b
  | value =>
    let text := (value.str py).map fun s => lower (strip s)
    if text.any (· ∈ TRUE) then .ok true
    else if text.any (· ∈ FALSE) then .ok false
    else .error (.message (label ++ " must be a boolean"))

def asNonnegativeFloat (label : String) (value : TomlValue F) : Except ConfigError F :=
  match value.toFloat py with
  | .error .overflow => .error .overflow
  | .error .value => .error (.message (label ++ " must be a non-negative number"))
  | .ok parsed =>
    if py.negative parsed then .error (.message (label ++ " must be a non-negative number"))
    else .ok parsed

def asPositiveInt (label : String) (value : TomlValue F) :
    Except ConfigError { n : Nat // 0 < n } :=
  match value.toInt py with
  | .error .overflow => .error .overflow
  | .error .value => .error (.message (label ++ " must be a positive integer"))
  | .ok parsed =>
    if h : 0 < parsed.toNat then .ok ⟨parsed.toNat, h⟩
    else .error (.message (label ++ " must be a positive integer"))

def asOptionalOwnerId (label : String) (value : TomlValue F) : Except ConfigError (Option Nat) :=
  match (value.str py).map strip with
  | some "" => .ok none
  | text =>
    match text.bind (parseInt py) with
    | none => .error (.message (label ++ " must be a non-negative integer"))
    | some parsed =>
      if parsed < 0 then .error (.message (label ++ " must be a non-negative integer"))
      else .ok (some parsed.toNat)

/-- `_WRITE_POLICY_ALIASES.get(raw, raw)`, when that is a valid policy. -/
def writePolicyNamed (raw : String) : Option WritePolicy :=
  if raw ∈ ["", "shared", "shared-overlay", "nfs", "nfs-upper", "shared-nfs"] then some .sharedNfs
  else if raw ∈ ["local", "local-async", "ssd", "local-ssd", "local-ssd-async"] then
    some .localSsdAsync
  else none

def normalizeWritePolicy (label : String) (value : TomlValue F) : Except ConfigError WritePolicy :=
  match (value.str py).bind fun s => writePolicyNamed (lower (strip s)) with
  | some policy => .ok policy
  | none => .error (.writePolicy label (value.str py))

/-! ## 4. Byte sizes and levels -/

/-- `[KMGTPB]` and its factor, case ignored. The Kelvin sign is a `k` to the pattern, and no unit to
    the table of factors. -/
def unitFactor (c : Char) : Option (Option Nat) :=
  match c.toUpper with
  | 'B' => some (some 1)
  | 'K' => some (some 1024)
  | 'M' => some (some (1024 ^ 2))
  | 'G' => some (some (1024 ^ 3))
  | 'T' => some (some (1024 ^ 4))
  | 'P' => some (some (1024 ^ 5))
  | '\u212a' => some none
  | _ => none

/-- `(?:i?B)?` up to the end, case ignored as `re` does for `i`. -/
def endsUnit : List Char → Bool
  | [] => true
  | [b] => b.toUpper = 'B'
  | [i, b] => i ∈ ['i', 'I', '\u0130', '\u0131'] && b.toUpper = 'B'
  | _ => false

/-- What follows the number: the factor of its unit, if the pattern matches. -/
def unitOf (rest : List Char) : Option (Option Nat) :=
  match rest with
  | [] => some (some 1)
  | c :: cs =>
    match unitFactor c with
    | some factor => if endsUnit cs then some factor else none
    | none => if endsUnit rest then some (some 1) else none

def parseHumanBytes : HumanBytes → Except LevelPolicyError Nat
  | .count n => if n ≤ 0 then .error (.notPositive (.count n)) else .ok n.toNat
  | .text value =>
    let text := (strip value).toList
    let isDecimal (c : Char) : Bool := (py.digit c).isSome
    if text = [] then .error .emptySize
    else
      match digits py (text.takeWhile isDecimal),
        unitOf ((text.dropWhile isDecimal).dropWhile isSpace) with
      | none, _ | some _, none => .error (.malformedSize value)
      | some _, some none => .error (.unknownUnit value)
      | some number, some (some factor) =>
        if number * factor = 0 then .error (.notPositive (.text value)) else .ok (number * factor)

def asHumanBytesString (label : String) : TomlValue F → Except ConfigError HumanBytes
  | .int n => ((parseHumanBytes py (.count n)).mapError .levels).map fun _ => .count n
  | .bool b =>
    ((parseHumanBytes py (.count (if b then 1 else 0))).mapError .levels).map fun _ =>
      .count (if b then 1 else 0)
  | value => do
    let text ← asStr py label value
    match parseHumanBytes py (.text text) with
    | .ok _ => return .text text
    | .error _ => .error (.message (label ++ " must be a byte size such as '10G' or 1048576"))

/-- `int(level_str)`, after the `isdigit` test that lets leading minus signs pass. -/
def levelNumber (text : String) : Except LevelPolicyError Nat :=
  let unsigned := text.toList.dropWhile (· = '-')
  if unsigned = [] ∨ ¬ unsigned.all py.isDigit then .error (.malformedLevel text)
  else
    match parseInt py text with
    | none => .error (.notAnInt text)
    | some level => if level < 0 then .error (.negativeLevel level) else .ok level.toNat

/-- One turn of the loop of `parse_levels`. -/
def addLevel (levels : List PackLevel) (raw : List Char) :
    Except LevelPolicyError (List PackLevel) :=
  let item := strip (String.ofList raw)
  if item = "" then .ok levels
  else if ':' ∉ item.toList then .error (.malformedEntry item)
  else do
    let level ← levelNumber py (strip (String.ofList (item.toList.takeWhile (· ≠ ':'))))
    if level ∈ levels.map PackLevel.level then .error (.duplicateLevel level)
    let size := String.ofList ((item.toList.dropWhile (· ≠ ':')).drop 1)
    let maxBytes ← parseHumanBytes py (.text size)
    return levels ++ [⟨level, maxBytes⟩]

def parseLevels (spec : String) : Except LevelPolicyError (List PackLevel) :=
  if strip spec = "" then .error .emptySpec
  else do
    let levels ← (spec.toList.splitOn ',').foldlM (addLevel py) []
    if levels = [] then .error (.noLevels spec)
    return levels.insertionSort fun a b => a.level ≤ b.level

/-! ## 5. The levels that were parsed -/

theorem addLevel_nodup {levels levels' : List PackLevel} {raw : List Char}
    (h : addLevel py levels raw = .ok levels') (hnodup : (levels.map PackLevel.level).Nodup) :
    (levels'.map PackLevel.level).Nodup := by
  simp only [addLevel] at h
  split at h
  · obtain rfl := Except.ok.inj h
    exact hnodup
  split at h
  · cases h
  obtain ⟨level, -, h⟩ := bind_eq_ok h
  by_cases hmem : level ∈ levels.map PackLevel.level
  · rw [if_pos hmem] at h
    cases h
  · rw [if_neg hmem] at h
    obtain ⟨maxBytes, -, h⟩ := bind_eq_ok h
    obtain rfl := Except.ok.inj h
    rw [List.map_append, List.nodup_append]
    refine ⟨hnodup, List.nodup_singleton _, fun a ha b hb => ?_⟩
    rw [List.map_singleton, List.mem_singleton] at hb
    rintro rfl
    rw [hb] at ha
    exact hmem ha

theorem addLevels_nodup {items : List (List Char)} {levels levels' : List PackLevel}
    (h : items.foldlM (addLevel py) levels = .ok levels')
    (hnodup : (levels.map PackLevel.level).Nodup) : (levels'.map PackLevel.level).Nodup := by
  induction items generalizing levels with
  | nil =>
    obtain rfl := Except.ok.inj h
    exact hnodup
  | cons item items ih =>
    rw [List.foldlM_cons] at h
    obtain ⟨mid, hmid, h⟩ := bind_eq_ok h
    exact ih h (addLevel_nodup py hmid hnodup)

theorem sortedLevels_increasing {levels : List PackLevel}
    (hnodup : (levels.map PackLevel.level).Nodup) :
    (levels.insertionSort fun a b => a.level ≤ b.level).Pairwise fun a b => a.level < b.level := by
  have htotal : Std.Total fun a b : PackLevel => a.level ≤ b.level :=
    ⟨fun a b => Nat.le_total a.level b.level⟩
  have htrans : IsTrans PackLevel fun a b => a.level ≤ b.level :=
    ⟨fun _ _ _ => Nat.le_trans⟩
  have hsorted := List.pairwise_insertionSort (fun a b : PackLevel => a.level ≤ b.level) levels
  have hdistinct : (levels.insertionSort fun a b => a.level ≤ b.level).Pairwise
      fun a b => a.level ≠ b.level := by
    rw [← List.pairwise_map]
    exact ((List.perm_insertionSort _ levels).map PackLevel.level).nodup_iff.mpr hnodup
  exact (hsorted.and hdistinct).imp fun h => Nat.lt_of_le_of_ne h.1 h.2

/-- **The levels come out sorted**, each number once, and there is one. -/
theorem parseLevels_increasing {spec : String} {levels : List PackLevel}
    (h : parseLevels py spec = .ok levels) :
    levels ≠ [] ∧ levels.Pairwise fun a b => a.level < b.level := by
  rw [parseLevels] at h
  split at h
  · cases h
  obtain ⟨parsed, hparsed, h⟩ := bind_eq_ok h
  by_cases hnil : parsed = []
  · rw [if_pos hnil] at h
    cases h
  · rw [if_neg hnil] at h
    obtain rfl := Except.ok.inj h
    refine ⟨fun hsorted => hnil ?_, sortedLevels_increasing (addLevels_nodup py hparsed .nil)⟩
    have hlength := List.length_insertionSort (fun a b : PackLevel => a.level ≤ b.level) parsed
    rw [hsorted] at hlength
    exact List.length_eq_zero_iff.mp hlength.symm

end Numbers

end CccStorage.Mountd
