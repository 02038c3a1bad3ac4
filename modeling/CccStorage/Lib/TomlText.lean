/-
  File:      CccStorage/Lib/TomlText.lean
  Subject:   Texts of TOML 1.0 with a statement to a line, as Python's `tomllib` reads them. Names
             nothing of the storage service.

  Keys are bare, and a value is a basic string, a decimal integer or a boolean. What else TOML has
  (comments, other strings and escapes of code points, other numbers, dates, arrays and inline
  tables as values) is not read.

  * `Statement`, `Statement.line` -- the statements, and how they are written;
  * `readLine`, `readLine_line` -- a statement that is written is read back;
  * `Statement.Clean` -- no string holds a control character other than a tab;
  * `statements`, `statements_lines` -- the lines of a text, and those of clean statements;
  * `statements_lines_unclean` -- a text with an unclean statement is not read.
-/
import CccStorage.Lib.Joined
import CccStorage.Lib.JsonLexemes

namespace Lib.Toml

open Lib.JsonText (intText)

/-! ## 1. Statements -/

inductive Scalar where
  | text (s : String)
  | int (n : Int)
  | bool (b : Bool)
  deriving DecidableEq

inductive Statement where
  | blank
  /-- `key = value` -/
  | pair (key : String) (value : Scalar)
  /-- `[path]` -/
  | table (path : List String)
  /-- `[[path]]` -/
  | element (path : List String)

/-- `BARE_KEY_CHARS` -/
def isBare (c : Char) : Bool := c.isAlphanum || c = '_' || c = '-'

/-- `ILLEGAL_BASIC_STR_CHARS` -/
def isControl (c : Char) : Bool := (c.toNat < 32 && c ≠ '\t') || c.toNat == 127

/-- `TOML_WS` -/
def isBlank (c : Char) : Bool := c = ' ' || c = '\t'

/-- A character of a basic string as it is written. -/
def escaped (c : Char) : List Char := if c = '\\' ∨ c = '"' then ['\\', c] else [c]

def quote (s : String) : List Char := '"' :: (s.toList.flatMap escaped ++ ['"'])

def Scalar.chars : Scalar → List Char
  | .text s => quote s
  | .int n => intText n
  | .bool b => if b then ['t', 'r', 'u', 'e'] else ['f', 'a', 'l', 's', 'e']

/-- The names of a path, with dots between them. -/
def dotted (path : List String) : List Char := ['.'].intercalate (path.map String.toList)

def Statement.line : Statement → List Char
  | .blank => []
  | .pair key value => key.toList ++ ' ' :: '=' :: ' ' :: value.chars
  | .table path => '[' :: (dotted path ++ [']'])
  | .element path => '[' :: '[' :: (dotted path ++ [']', ']'])

/-- A key that needs no quotes. -/
def BareKey (key : String) : Prop := key ≠ "" ∧ ∀ c ∈ key.toList, isBare c = true

instance (key : String) : Decidable (BareKey key) :=
  inferInstanceAs (Decidable (key ≠ "" ∧ ∀ c ∈ key.toList, isBare c = true))

/-- Keys that a computation shows to need no quotes. -/
theorem bareKeys_of {keys : List String}
    (h : (keys.all fun key => !key.toList.isEmpty && key.toList.all isBare) = true) :
    ∀ key ∈ keys, BareKey key := by
  intro key hkey
  have hone := List.all_eq_true.mp h key hkey
  rw [Bool.and_eq_true, Bool.not_eq_true', List.all_eq_true] at hone
  refine ⟨?_, hone.2⟩
  rintro rfl
  exact absurd hone.1 (by decide)

/-- The keys of a statement can be written. -/
def Statement.WellFormed : Statement → Prop
  | .blank => True
  | .pair key _ => BareKey key
  | .table path => path ≠ [] ∧ ∀ key ∈ path, BareKey key
  | .element path => path ≠ [] ∧ ∀ key ∈ path, BareKey key

/-- A string that TOML allows between the quotes. -/
def CleanText (s : String) : Prop := ∀ c ∈ s.toList, isControl c = false

instance (s : String) : Decidable (CleanText s) :=
  inferInstanceAs (Decidable (∀ c ∈ s.toList, isControl c = false))

theorem cleanText_of {s : String} (h : (s.toList.all fun c => !isControl c) = true) :
    CleanText s := fun c hc => by
  simpa using List.all_eq_true.mp h c hc

def Scalar.Clean : Scalar → Prop
  | .text s => CleanText s
  | .int _ => True
  | .bool _ => True

def Statement.Clean : Statement → Prop
  | .pair _ value => value.Clean
  | _ => True

/-! ## 2. Reading a line -/

/-- `BASIC_STR_ESCAPE_REPLACEMENTS` -/
def unescape (c : Char) : Option Char :=
  if c = 'b' then some '\x08'
  else if c = 't' then some '\t'
  else if c = 'n' then some '\n'
  else if c = 'f' then some '\x0c'
  else if c = 'r' then some '\r'
  else if c = '"' then some '"'
  else if c = '\\' then some '\\'
  else none

/-- A basic string after its opening quote, and what follows its closing one. -/
def basicString : List Char → Option (List Char × List Char)
  | [] => none
  | c :: s =>
    if c = '"' then some ([], s)
    else if c = '\\' then
      match s with
      | [] => none
      | e :: s => do
        let d ← unescape e
        let (text, rest) ← basicString s
        return (d :: text, rest)
    else if isControl c then none
    else do
      let (text, rest) ← basicString s
      return (c :: text, rest)

/-- One or more decimal digits without a leading zero. -/
def natural (s : List Char) : Option Nat :=
  if s ≠ [] ∧ s.all Char.isDigit ∧ (s.head? = some '0' → s = ['0']) then
    some (Nat.ofDigitChars 10 s 0)
  else none

def integer : List Char → Option Int
  | '-' :: s => (natural s).map fun n => -(n : Int)
  | '+' :: s => (natural s).map Int.ofNat
  | s => (natural s).map Int.ofNat

/-- A value up to the end of its line. -/
def readScalar (s : List Char) : Option Scalar :=
  match s with
  | '"' :: s =>
    -- three quotes open a string of more lines
    if s.take 2 = ['"', '"'] then none
    else
      match basicString s with
      | some (text, rest) => if rest.all isBlank then some (.text (String.ofList text)) else none
      | none => none
  | s =>
    let word := s.takeWhile fun c => !isBlank c
    if !(s.dropWhile fun c => !isBlank c).all isBlank then none
    else if word = ['t', 'r', 'u', 'e'] then some (.bool true)
    else if word = ['f', 'a', 'l', 's', 'e'] then some (.bool false)
    else (integer word).map .int

/-- The keys of a header, up to its closing bracket. -/
def readPath (s : List Char) : Option (List String) :=
  let keys := (s.splitOn '.').map String.ofList
  if ∀ key ∈ keys, BareKey key then some keys else none

/-- What follows the opening brackets of a header. -/
def readHeader (close : List Char) (s : List Char) : Option (List String) :=
  let rest := s.dropWhile (· ≠ ']')
  if close <+: rest ∧ (rest.drop close.length).all isBlank then readPath (s.takeWhile (· ≠ ']'))
  else none

def readPair (s : List Char) : Option Statement :=
  let key := String.ofList (s.takeWhile isBare)
  match (s.dropWhile isBare).dropWhile isBlank with
  | '=' :: rest =>
    if BareKey key then (readScalar (rest.dropWhile isBlank)).map (.pair key) else none
  | _ => none

def readLine (line : List Char) : Option Statement :=
  match line.dropWhile isBlank with
  | [] => some .blank
  | '[' :: '[' :: s => (readHeader [']', ']'] s).map .element
  | '[' :: s => (readHeader [']'] s).map .table
  | s => readPair s

theorem basicString_plain {c : Char} (hquote : c ≠ '"') (hslash : c ≠ '\\')
    (h : isControl c = false) (t : List Char) :
    basicString (c :: t) = (basicString t).map fun x => (c :: x.1, x.2) := by
  rw [basicString.eq_def]
  simp only [if_neg hquote, if_neg hslash, h, if_neg Bool.false_ne_true]
  cases basicString t <;> rfl

theorem basicString_escape {e d : Char} (h : unescape e = some d) (t : List Char) :
    basicString ('\\' :: e :: t) = (basicString t).map fun x => (d :: x.1, x.2) := by
  rw [basicString.eq_def]
  simp only [show ('\\' : Char) ≠ '"' by decide, if_false, if_true, h]
  cases basicString t <;> rfl

theorem escaped_clean {c : Char} (h : isControl c = false) (t : List Char) :
    basicString (escaped c ++ t) = (basicString t).map fun x => (c :: x.1, x.2) := by
  unfold escaped
  by_cases hslash : c = '\\'
  · rw [if_pos (.inl hslash), List.cons_append, List.singleton_append, hslash]
    exact basicString_escape rfl t
  · by_cases hquote : c = '"'
    · rw [if_pos (.inr hquote), List.cons_append, List.singleton_append, hquote]
      exact basicString_escape rfl t
    · rw [if_neg (not_or.mpr ⟨hslash, hquote⟩), List.singleton_append]
      exact basicString_plain hquote hslash h t

/-- **What is written of clean characters is read back**, whatever follows. -/
theorem basicString_append {p : List Char} (h : ∀ c ∈ p, isControl c = false) (t : List Char) :
    basicString (p.flatMap escaped ++ t) = (basicString t).map fun x => (p ++ x.1, x.2) := by
  induction p with
  | nil => cases ht : basicString t <;> simp [ht]
  | cons c p ih =>
      rw [List.forall_mem_cons] at h
      rw [List.flatMap_cons, List.append_assoc, escaped_clean h.1, ih h.2, Option.map_map]
      rfl

/-- A basic string ends neither with the text nor at a control character. -/
theorem basicString_cut {t : List Char} (h : ∀ c ∈ t.head?, isControl c = true) :
    basicString t = none := by
  cases t with
  | nil => rfl
  | cons c t =>
    have hc : isControl c = true := h c rfl
    have hquote : c ≠ '"' := by
      rintro rfl
      cases hc
    have hslash : c ≠ '\\' := by
      rintro rfl
      cases hc
    rw [basicString.eq_def]
    simp only [if_neg hquote, if_neg hslash, hc, if_true]

/-- No string of one line begins with three quotes. -/
theorem take_two_ne {p : List Char} (t : List Char) (h : p = [] → t.take 2 ≠ ['"', '"']) :
    (p.flatMap escaped ++ t).take 2 ≠ ['"', '"'] := by
  cases p with
  | nil => exact h rfl
  | cons c p =>
    rw [List.flatMap_cons]
    unfold escaped
    split
    · intro heq
      injection heq with hhead
      exact absurd hhead (by decide)
    · rename_i hc
      intro heq
      injection heq with hhead
      exact hc (.inr hhead)

theorem readScalar_quoted (s : List Char) (h : s.take 2 ≠ ['"', '"']) :
    readScalar ('"' :: s) = (basicString s).bind fun x =>
      if x.2.all isBlank then some (.text (String.ofList x.1)) else none := by
  rw [readScalar, if_neg h]
  cases basicString s <;> rfl

theorem readScalar_quote {s : String} (h : CleanText s) :
    readScalar (quote s) = some (.text s) := by
  have hend : basicString ['"'] = some ([], []) := rfl
  have htwo : (['"'] : List Char).take 2 ≠ ['"', '"'] := by simp
  unfold quote
  rw [readScalar_quoted _ (take_two_ne _ fun _ => htwo), basicString_append h, hend]
  simp only [Option.map_some, Option.bind_some, List.all_nil, if_true, List.append_nil,
    String.ofList_toList]

/-- **A string that breaks off is not read**, and neither is one with a control character. -/
theorem readScalar_cut {p t : List Char} (hp : ∀ c ∈ p, isControl c = false)
    (ht : ∀ c ∈ t.head?, isControl c = true) :
    readScalar ('"' :: (p.flatMap escaped ++ t)) = none := by
  have htwo : t.take 2 ≠ ['"', '"'] := by
    cases t with
    | nil => decide
    | cons c t =>
      intro heq
      injection heq with hhead
      have hc : isControl c = true := ht c rfl
      rw [hhead] at hc
      cases hc
  rw [readScalar_quoted _ (take_two_ne _ fun _ => htwo), basicString_append hp, basicString_cut ht]
  rfl

theorem natural_digits (n : Nat) : natural (Nat.toDigits 10 n) = some n := by
  obtain ⟨c, t, heq, hzero, hc, ht⟩ := Lib.JsonText.toDigits_head n
  have hall : (Nat.toDigits 10 n).all Char.isDigit = true :=
    List.all_eq_true.mpr fun d hd => Nat.isDigit_of_mem_toDigits (by decide) (by decide) hd
  have hhead : (Nat.toDigits 10 n).head? = some '0' → Nat.toDigits 10 n = ['0'] := by
    rw [heq]
    intro h
    injection h with h
    rw [h, hzero h]
  unfold natural
  rw [if_pos ⟨Nat.toDigits_ne_nil, hall, hhead⟩, Nat.ofDigitChars_ten_toDigits]

/-- An integer as it is written: a digit or a minus sign comes first. -/
theorem intText_cases (n : Int) :
    (∃ m : Nat, intText n = '-' :: Nat.toDigits 10 m ∧ n = -(m : Int)) ∨
      ∃ m : Nat, intText n = Nat.toDigits 10 m ∧ n = m := by
  unfold intText
  by_cases hneg : n < 0
  · exact .inl ⟨n.natAbs, if_pos hneg, by omega⟩
  · exact .inr ⟨n.natAbs, if_neg hneg, by omega⟩

theorem intText_chars {n : Int} {c : Char} (h : c ∈ intText n) : c = '-' ∨ c.isDigit = true := by
  have hdigit : ∀ {m : Nat}, c ∈ Nat.toDigits 10 m → c.isDigit = true := fun hc =>
    Nat.isDigit_of_mem_toDigits (by decide) (by decide) hc
  rcases intText_cases n with ⟨m, heq, -⟩ | ⟨m, heq, -⟩ <;> rw [heq] at h
  · rcases List.mem_cons.mp h with rfl | h
    · exact .inl rfl
    · exact .inr (hdigit h)
  · exact .inr (hdigit h)

theorem integer_intText (n : Int) : integer (intText n) = some n := by
  rcases intText_cases n with ⟨m, heq, rfl⟩ | ⟨m, heq, rfl⟩
  · rw [heq, integer, natural_digits]
    rfl
  · rw [heq]
    obtain ⟨c, t, hdigits, -, hc, -⟩ := Lib.JsonText.toDigits_head m
    have hminus : c ≠ '-' := by
      rintro rfl
      cases hc
    have hplus : c ≠ '+' := by
      rintro rfl
      cases hc
    have hnat : integer (Nat.toDigits 10 m) = (natural (Nat.toDigits 10 m)).map Int.ofNat := by
      rw [hdigits, integer]
      · rintro s ⟨⟩
        exact hminus rfl
      · rintro s ⟨⟩
        exact hplus rfl
    rw [hnat, natural_digits]
    rfl

theorem intText_ne_nil (n : Int) : intText n ≠ [] := by
  rcases intText_cases n with ⟨m, heq, -⟩ | ⟨m, heq, -⟩ <;> rw [heq]
  · exact List.cons_ne_nil _ _
  · exact Nat.toDigits_ne_nil

theorem readScalar_word {s : List Char} (hquote : s.head? ≠ some '"')
    (hblank : ∀ c ∈ s, isBlank c = false) :
    readScalar s = if s = ['t', 'r', 'u', 'e'] then some (.bool true)
      else if s = ['f', 'a', 'l', 's', 'e'] then some (.bool false)
      else (integer s).map .int := by
  have hall : ∀ c ∈ s, (!isBlank c) = true := fun c hc => by rw [hblank c hc]; rfl
  rw [readScalar]
  · simp only [List.takeWhile_eq_self_iff.mpr hall, List.dropWhile_eq_nil_iff.mpr hall,
      List.all_nil, Bool.not_true, Bool.false_eq_true, if_false]
  · rintro s' rfl
    exact hquote rfl

/-- **A clean value is read back.** -/
theorem readScalar_chars {x : Scalar} (h : x.Clean) : readScalar x.chars = some x := by
  cases x with
  | text s => exact readScalar_quote h
  | bool b => cases b <;> rfl
  | int n =>
    have hchars : ∀ c ∈ intText n, isBlank c = false ∧ c ≠ '"' ∧ c ≠ 't' ∧ c ≠ 'f' := by
      intro c hc
      rcases intText_chars hc with rfl | hdigit
      · decide
      · refine ⟨?_, ?_, ?_, ?_⟩
        · unfold isBlank
          rw [Bool.or_eq_false_iff, decide_eq_false_iff_not, decide_eq_false_iff_not]
          constructor <;> rintro rfl <;> cases hdigit
        all_goals rintro rfl; cases hdigit
    obtain ⟨c, t, heq⟩ := List.exists_cons_of_ne_nil (intText_ne_nil n)
    obtain ⟨-, hquote, htrue, hfalse⟩ := hchars c (heq ▸ List.mem_cons_self)
    show readScalar (intText n) = some (.int n)
    rw [readScalar_word _ fun c hc => (hchars c hc).1, if_neg, if_neg, integer_intText]
    · rfl
    · rw [heq]
      rintro ⟨⟩
      exact hfalse rfl
    · rw [heq]
      rintro ⟨⟩
      exact htrue rfl
    · rw [heq]
      rintro ⟨⟩
      exact hquote rfl

/-! ## 3. Keys and lines -/

theorem isBare_apart {c : Char} (h : isBare c = true) :
    isBlank c = false ∧ isControl c = false ∧ c ≠ '[' ∧ c ≠ ']' ∧ c ≠ '.' ∧ c ≠ '=' := by
  refine ⟨?_, ?_, ?_, ?_, ?_, ?_⟩
  · unfold isBlank
    rw [Bool.or_eq_false_iff, decide_eq_false_iff_not, decide_eq_false_iff_not]
    constructor <;> rintro rfl <;> cases h
  · unfold isBare at h
    unfold isControl
    simp only [Bool.or_eq_true, decide_eq_true_eq, Char.isAlphanum, Char.isAlpha, Char.isDigit,
      Char.isUpper, Char.isLower, Bool.and_eq_true, ge_iff_le, UInt32.le_iff_toNat_le] at h
    simp only [Char.toNat, Bool.or_eq_false_iff, Bool.and_eq_false_iff, decide_eq_false_iff_not,
      beq_eq_false_iff_ne]
    have hle : 45 ≤ c.val.toNat ∧ c.val.toNat ≤ 122 := by
      rcases h with (((⟨h₁, h₂⟩ | ⟨h₁, h₂⟩) | ⟨h₁, h₂⟩) | rfl) | rfl
      · exact ⟨le_trans (by decide) h₁, le_trans h₂ (by decide)⟩
      · exact ⟨le_trans (by decide) h₁, le_trans h₂ (by decide)⟩
      · exact ⟨le_trans (by decide) h₁, le_trans h₂ (by decide)⟩
      · decide
      · decide
    exact ⟨.inl (by omega), by omega⟩
  all_goals rintro rfl; cases h

theorem BareKey.takeWhile {key : String} (h : BareKey key) {t : List Char}
    (ht : ∀ c ∈ t.head?, isBare c = false) :
    (key.toList ++ t).takeWhile isBare = key.toList ∧
      (key.toList ++ t).dropWhile isBare = t := by
  have hstop : t.takeWhile isBare = [] ∧ t.dropWhile isBare = t := by
    cases t with
    | nil => exact ⟨rfl, rfl⟩
    | cons c t =>
      have hc : ¬isBare c = true := by rw [ht c rfl]; decide
      exact ⟨List.takeWhile_cons_of_neg hc, List.dropWhile_cons_of_neg hc⟩
  rw [List.takeWhile_append_of_pos h.2, List.dropWhile_append_of_pos h.2, hstop.1, hstop.2,
    List.append_nil]
  exact ⟨rfl, rfl⟩

/-- **A pair is read as its value is**: the key stands before the equals sign. -/
theorem readLine_pair {key : String} (h : BareKey key) {t : List Char}
    (ht : ∀ c ∈ t.head?, isBlank c = false) :
    readLine (key.toList ++ ' ' :: '=' :: ' ' :: t) = (readScalar t).map (.pair key) := by
  have hpair : readPair (key.toList ++ ' ' :: '=' :: ' ' :: t) =
      (readScalar t).map (.pair key) := by
    have hdrop : t.dropWhile isBlank = t := by
      cases t with
      | nil => rfl
      | cons c t => exact List.dropWhile_cons_of_neg (by rw [ht c rfl]; decide)
    obtain ⟨htake, hrest⟩ := h.takeWhile (t := ' ' :: '=' :: ' ' :: t) (by rintro c ⟨⟩; rfl)
    have hblank : (' ' :: '=' :: ' ' :: t).dropWhile isBlank = '=' :: ' ' :: t := rfl
    unfold readPair
    rw [htake, hrest, hblank, String.ofList_toList]
    show (if BareKey key then (readScalar (t.dropWhile isBlank)).map (Statement.pair key)
      else none) = _
    rw [if_pos h, hdrop]
  obtain ⟨c, s, hkey⟩ : ∃ c s, key.toList = c :: s :=
    List.exists_cons_of_ne_nil fun hnil => h.1 (String.toList_eq_nil_iff.mp hnil)
  obtain ⟨hblank, -, hopen, -⟩ := isBare_apart (h.2 c (hkey ▸ List.mem_cons_self))
  rw [← hpair, hkey]
  unfold readLine
  rw [List.cons_append, List.dropWhile_cons_of_neg (by rw [hblank]; decide)]
  split
  · rename_i heq
    cases heq
  · rename_i heq
    exact absurd (List.cons.inj heq).1 hopen
  · rename_i heq
    exact absurd (List.cons.inj heq).1 hopen
  · rfl

theorem readPath_dotted {path : List String} (hne : path ≠ []) (h : ∀ key ∈ path, BareKey key) :
    readPath (dotted path) = some path := by
  have hsplit : (dotted path).splitOn '.' = path.map String.toList := by
    refine List.splitOn_intercalate '.' ?_ (by simpa using hne)
    intro s hs hdot
    obtain ⟨key, hkey, rfl⟩ := List.mem_map.mp hs
    exact (isBare_apart ((h key hkey).2 _ hdot)).2.2.2.2.1 rfl
  have hmap : (path.map String.toList).map String.ofList = path := by
    rw [List.map_map]
    exact (List.map_congr_left fun s _ => String.ofList_toList).trans (List.map_id path)
  unfold readPath
  rw [hsplit]
  dsimp only
  rw [hmap, if_pos h]

theorem dotted_chars {path : List String} (h : ∀ key ∈ path, BareKey key) {c : Char}
    (hc : c ∈ dotted path) : c = '.' ∨ isBare c = true := by
  have hmem : ∀ names : List (List Char), c ∈ ['.'].intercalate names →
      c = '.' ∨ ∃ n ∈ names, c ∈ n := by
    intro names hc
    rcases Lib.mem_joined hc with rfl | hn
    · exact .inl rfl
    · exact .inr hn
  rcases hmem _ hc with rfl | ⟨n, hn, hcn⟩
  · exact .inl rfl
  · obtain ⟨key, hkey, rfl⟩ := List.mem_map.mp hn
    exact .inr ((h key hkey).2 c hcn)

theorem readHeader_dotted {path : List String} (hne : path ≠ []) (h : ∀ key ∈ path, BareKey key)
    {close : List Char} (hclose : close.head? = some ']') :
    readHeader close (dotted path ++ close) = some path := by
  have hpos : ∀ c ∈ dotted path, decide (c ≠ ']') = true := by
    intro c hc
    rcases dotted_chars h hc with rfl | hc
    · decide
    · exact decide_eq_true (isBare_apart hc).2.2.2.1
  have hstop : close.takeWhile (fun c => decide (c ≠ ']')) = [] ∧
      close.dropWhile (fun c => decide (c ≠ ']')) = close := by
    cases close with
    | nil => cases hclose
    | cons c s =>
      obtain rfl : c = ']' := Option.some.inj hclose
      exact ⟨List.takeWhile_cons_of_neg (by decide), List.dropWhile_cons_of_neg (by decide)⟩
  unfold readHeader
  rw [List.dropWhile_append_of_pos hpos, List.takeWhile_append_of_pos hpos, hstop.1, hstop.2,
    List.append_nil]
  dsimp only
  rw [if_pos ⟨List.prefix_rfl, by rw [List.drop_length]; rfl⟩, readPath_dotted hne h]

/-- **A clean statement is read back.** -/
theorem readLine_line {s : Statement} (hform : s.WellFormed) (h : s.Clean) :
    readLine s.line = some s := by
  cases s with
  | blank => rfl
  | pair key value =>
    have hblank : ∀ c ∈ value.chars.head?, isBlank c = false := by
      cases value with
      | text s =>
        rintro c ⟨⟩
        rfl
      | bool b => cases b <;> · rintro c ⟨⟩; rfl
      | int n =>
        intro c hc
        rcases intText_chars (List.mem_of_mem_head? hc) with rfl | hdigit
        · rfl
        · exact (isBare_apart (by unfold isBare; simp [Char.isAlphanum, hdigit])).1
    rw [Statement.line, readLine_pair hform hblank, readScalar_chars h]
    rfl
  | table path =>
    have hopen : ∀ s, dotted path ++ [']'] ≠ '[' :: s := by
      intro s heq
      have hmem : '[' ∈ dotted path ++ [']'] := heq ▸ List.mem_cons_self
      rcases List.mem_append.mp hmem with hmem | hmem
      · rcases dotted_chars hform.2 hmem with heq | hbare
        · cases heq
        · exact (isBare_apart hbare).2.2.1 rfl
      · cases List.mem_singleton.mp hmem
    rw [Statement.line, readLine, List.dropWhile_cons_of_neg (by decide)]
    split
    · rename_i heq
      cases heq
    · rename_i heq
      injection heq with _ heq
      exact absurd heq (hopen _)
    · rename_i heq
      injection heq with _ heq
      rw [← heq, readHeader_dotted hform.1 hform.2 rfl]
      rfl
    · rename_i hno
      exact absurd rfl (hno _)
  | element path =>
    rw [Statement.line, readLine, List.dropWhile_cons_of_neg (by decide)]
    show (readHeader [']', ']'] (dotted path ++ [']', ']'])).map Statement.element = _
    rw [readHeader_dotted hform.1 hform.2 rfl]
    rfl

/-! ## 4. Texts -/

/-- `src.replace("\r\n", "\n")` -/
def newlines : List Char → List Char
  | [] => []
  | [c] => [c]
  | c :: d :: s => if c = '\r' ∧ d = '\n' then '\n' :: newlines s else c :: newlines (d :: s)

/-- The statements of a text, if each of its lines is one. -/
def statements (src : List Char) : Option (List Statement) :=
  ((newlines src).splitOn '\n').mapM readLine

/-- Lines as a text, each of them ended. -/
def textOf (lines : List (List Char)) : List Char := Lib.joined '\n' lines ++ ['\n']

theorem newlines_cons {c : Char} (h : c ≠ '\r') (s : List Char) :
    newlines (c :: s) = c :: newlines s := by
  cases s with
  | nil => rfl
  | cons d s => rw [newlines, if_neg fun hcr => h hcr.1]

theorem newlines_append {p : List Char} (h : '\r' ∉ p) (t : List Char) :
    newlines (p ++ t) = p ++ newlines t := by
  induction p with
  | nil => rfl
  | cons c p ih =>
      rw [List.mem_cons, not_or] at h
      rw [List.cons_append, newlines_cons (Ne.symm h.1), ih h.2, List.cons_append]

theorem newlines_nil : newlines [] = [] := by rw [newlines]

theorem newlines_of_not_mem {t : List Char} (h : '\r' ∉ t) : newlines t = t := by
  have happend := newlines_append h []
  rwa [List.append_nil, newlines_nil, List.append_nil] at happend

/-- A line feed stays one, whatever stands before it. -/
theorem newlines_lineFeed (p t : List Char) :
    ∃ q, newlines (p ++ '\n' :: t) = q ++ '\n' :: newlines t := by
  induction p using newlines.induct with
  | case1 => exact ⟨[], newlines_cons (by decide) t⟩
  | case2 c =>
    by_cases hc : c = '\r'
    · refine ⟨[], ?_⟩
      rw [List.singleton_append, newlines, if_pos ⟨hc, rfl⟩]
      rfl
    · refine ⟨[c], ?_⟩
      rw [List.singleton_append, newlines_cons hc, newlines_cons (by decide)]
      rfl
  | case3 c d s hcrlf ih =>
    obtain ⟨q, hq⟩ := ih
    refine ⟨'\n' :: q, ?_⟩
    rw [List.cons_append, List.cons_append, newlines, if_pos hcrlf, hq]
    rfl
  | case4 c d s hcrlf ih =>
    obtain ⟨q, hq⟩ := ih
    refine ⟨c :: q, ?_⟩
    rw [List.cons_append, List.cons_append, newlines, if_neg hcrlf, ← List.cons_append, hq]
    rfl

theorem mapM_eq_none {α β : Type} {f : α → Option β} {l : List α} {a : α} (ha : a ∈ l)
    (h : f a = none) : l.mapM f = none := by
  induction l with
  | nil => cases ha
  | cons b l ih =>
      rw [List.mapM_cons]
      rcases List.mem_cons.mp ha with rfl | ha
      · rw [h]
        rfl
      · rw [ih ha]
        cases f b <;> rfl

theorem mapM_eq_some {α β : Type} {f : α → Option β} {g : β → α} {l : List β}
    (h : ∀ b ∈ l, f (g b) = some b) : (l.map g).mapM f = some l := by
  induction l with
  | nil => rfl
  | cons b l ih =>
      rw [List.forall_mem_cons] at h
      rw [List.map_cons, List.mapM_cons, h.1, ih h.2]
      rfl

/-- No line of a clean statement holds a control character. -/
theorem line_clean {s : Statement} (hform : s.WellFormed) (h : s.Clean) {c : Char}
    (hc : c ∈ s.line) : isControl c = false := by
  have hpath : ∀ {path : List String} {close : List Char}, (∀ key ∈ path, BareKey key) →
      (∀ d ∈ close, isControl d = false) → c ∈ dotted path ++ close → isControl c = false := by
    intro path close hkeys hclose hc
    rcases List.mem_append.mp hc with hc | hc
    · rcases dotted_chars hkeys hc with rfl | hbare
      · rfl
      · exact (isBare_apart hbare).2.1
    · exact hclose c hc
  have hbracket : isControl ']' = false := rfl
  cases s with
  | blank => cases hc
  | pair key value =>
    rcases List.mem_append.mp hc with hc | hc
    · exact (isBare_apart (hform.2 c hc)).2.1
    · have hvalue : c = ' ' ∨ c = '=' ∨ c ∈ value.chars := by
        simp only [List.mem_cons] at hc
        tauto
      rcases hvalue with rfl | rfl | hvalue
      · rfl
      · rfl
      · cases value with
        | text s =>
          rcases List.mem_cons.mp hvalue with rfl | hvalue
          · rfl
          · rcases List.mem_append.mp hvalue with hvalue | hvalue
            · obtain ⟨d, hd, hcd⟩ := List.mem_flatMap.mp hvalue
              unfold escaped at hcd
              split at hcd
              · rcases List.mem_cons.mp hcd with rfl | hcd
                · rfl
                · exact List.mem_singleton.mp hcd ▸ h d hd
              · exact List.mem_singleton.mp hcd ▸ h d hd
            · rw [List.mem_singleton.mp hvalue]
              rfl
        | bool b =>
          have hword : c.isAlphanum = true := by
            cases b with
            | true =>
              have hmem : c ∈ ['t', 'r', 'u', 'e'] := hvalue
              simp only [List.mem_cons, List.not_mem_nil, or_false] at hmem
              rcases hmem with rfl | rfl | rfl | rfl <;> rfl
            | false =>
              have hmem : c ∈ ['f', 'a', 'l', 's', 'e'] := hvalue
              simp only [List.mem_cons, List.not_mem_nil, or_false] at hmem
              rcases hmem with rfl | rfl | rfl | rfl | rfl <;> rfl
          exact (isBare_apart (by unfold isBare; rw [hword]; rfl)).2.1
        | int n =>
          rcases intText_chars hvalue with rfl | hdigit
          · rfl
          · exact (isBare_apart (by unfold isBare; simp [Char.isAlphanum, hdigit])).2.1
  | table path =>
    rcases List.mem_cons.mp hc with rfl | hc
    · rfl
    · exact hpath hform.2 (by simp [hbracket]) hc
  | element path =>
    rcases List.mem_cons.mp hc with rfl | hc
    · rfl
    · rcases List.mem_cons.mp hc with rfl | hc
      · rfl
      · exact hpath hform.2 (by simp [hbracket]) hc

/-- **The lines of clean statements are read back**; what follows the last of them is blank. -/
theorem statements_lines {ss : List Statement} (hne : ss ≠ []) (hform : ∀ s ∈ ss, s.WellFormed)
    (h : ∀ s ∈ ss, s.Clean) :
    statements (textOf (ss.map Statement.line)) = some (ss ++ [.blank]) := by
  have hbreak : ∀ l ∈ ss.map Statement.line, ∀ c ∈ l, isControl c = false := by
    intro l hl c hc
    obtain ⟨s, hs, rfl⟩ := List.mem_map.mp hl
    exact line_clean (hform s hs) (h s hs) hc
  have hcr : '\r' ∉ textOf (ss.map Statement.line) := by
    intro hmem
    rcases List.mem_append.mp hmem with hmem | hmem
    · rcases Lib.mem_joined hmem with heq | ⟨l, hl, hc⟩
      · cases heq
      · exact absurd (hbreak l hl _ hc) (by decide)
    · cases List.mem_singleton.mp hmem
  have hsplit : (textOf (ss.map Statement.line)).splitOn '\n' =
      (ss ++ [Statement.blank]).map Statement.line := by
    unfold textOf Lib.joined
    rw [List.splitOn_append_cons_self, List.splitOn_intercalate, List.splitOn_nil,
      List.map_append]
    · rfl
    · intro l hl hmem
      exact absurd (hbreak l hl _ hmem) (by decide)
    · simpa using hne
  unfold statements
  rw [newlines_of_not_mem hcr, hsplit]
  refine mapM_eq_some fun s hs => ?_
  rcases List.mem_append.mp hs with hs | hs
  · exact readLine_line (hform s hs) (h s hs)
  · rw [List.mem_singleton.mp hs]
    rfl

/-- The string up to its first control character. -/
theorem exists_control {value : String} (h : ¬CleanText value) : ∃ p c q,
    value.toList = p ++ c :: q ∧ (∀ d ∈ p, isControl d = false) ∧ isControl c = true := by
  unfold CleanText at h
  generalize value.toList = l at h
  induction l with
  | nil => exact absurd (by simp) h
  | cons d l ih =>
      by_cases hd : isControl d = true
      · exact ⟨[], d, l, rfl, nofun, hd⟩
      · rw [Bool.not_eq_true] at hd
        obtain ⟨p, c, q, rfl, hp, hc⟩ := ih fun hall => h (List.forall_mem_cons.mpr ⟨hd, hall⟩)
        exact ⟨d :: p, c, q, rfl, List.forall_mem_cons.mpr ⟨hd, hp⟩, hc⟩

/-- The first line of a text, as far as it is known. -/
theorem splitOn_first {l s first : List Char} {d : Char} {others : List (List Char)}
    (hl : '\n' ∉ l) (hd : d ≠ '\n') (hs : s.splitOn '\n' = first :: others) :
    (l ++ d :: s).splitOn '\n' = (l ++ d :: first) :: others := by
  induction l with
  | nil =>
      rw [List.nil_append, List.splitOn_cons_eq_if_modifyHead, if_neg (by simpa using hd), hs]
      rfl
  | cons e l ih =>
      rw [List.mem_cons, not_or] at hl
      rw [List.cons_append, List.splitOn_cons_eq_if_modifyHead,
        if_neg (by simpa using Ne.symm hl.1), ih hl.2]
      rfl

/-- **A text with an unclean statement is not read**: the string breaks off at the end of a line, or
    a control character stands in it. -/
theorem statements_unclean {key value : String} (hkey : BareKey key) (h : ¬CleanText value)
    {before : List Char} (hbefore : before = [] ∨ ∃ p, before = p ++ ['\n']) (after : List Char) :
    statements (before ++ (Statement.pair key (.text value)).line ++ after) = none := by
  obtain ⟨p, c, q, hvalue, hp, hc⟩ := exists_control h
  have hplain : escaped c = [c] := by
    refine if_neg fun hor => ?_
    rcases hor with rfl | rfl <;> cases hc
  have hhead : ∀ d ∈ key.toList ++ ' ' :: '=' :: ' ' :: '"' :: p.flatMap escaped,
      isControl d = false := by
    intro d hd
    have hclean : (Statement.pair key (.text (String.ofList p))).Clean := by
      intro e he
      rw [String.toList_ofList] at he
      exact hp e he
    refine line_clean (s := .pair key (.text (String.ofList p))) hkey hclean ?_
    rw [Statement.line, Scalar.chars, quote, String.toList_ofList]
    simp only [List.mem_append, List.mem_cons] at hd ⊢
    tauto
  have hcut : ∀ t : List Char, (∀ d ∈ t.head?, isControl d = true) →
      readLine (key.toList ++ ' ' :: '=' :: ' ' :: '"' :: (p.flatMap escaped ++ t)) = none := by
    intro t ht
    rw [readLine_pair hkey (by rintro d ⟨⟩; rfl), readScalar_cut hp ht]
    rfl
  obtain ⟨rest, hline⟩ : ∃ rest, (Statement.pair key (.text value)).line ++ after =
      (key.toList ++ ' ' :: '=' :: ' ' :: '"' :: p.flatMap escaped) ++ c :: rest := by
    refine ⟨q.flatMap escaped ++ '"' :: after, ?_⟩
    rw [Statement.line, Scalar.chars, quote, hvalue, List.flatMap_append, List.flatMap_cons, hplain]
    simp
  -- the first line of what follows is not read
  have hfirst : ∃ l ∈ (newlines ((Statement.pair key (.text value)).line ++ after)).splitOn '\n',
      readLine l = none := by
    have hcr : '\r' ∉ key.toList ++ ' ' :: '=' :: ' ' :: '"' :: p.flatMap escaped := by
      intro hmem
      exact absurd (hhead _ hmem) (by decide)
    have hlf : '\n' ∉ key.toList ++ ' ' :: '=' :: ' ' :: '"' :: p.flatMap escaped := by
      intro hmem
      exact absurd (hhead _ hmem) (by decide)
    rw [hline, newlines_append hcr]
    obtain ⟨d, rest', hrest, hd⟩ : ∃ d rest', newlines (c :: rest) = d :: rest' ∧
        isControl d = true := by
      cases rest with
      | nil => exact ⟨c, [], by rw [newlines], hc⟩
      | cons e rest =>
        rw [newlines]
        split
        · exact ⟨'\n', _, rfl, by decide⟩
        · exact ⟨c, _, rfl, hc⟩
    rw [hrest]
    by_cases hd' : d = '\n'
    · rw [hd', List.splitOn_append_cons_self, List.splitOn_eq_singleton hlf]
      refine ⟨_, List.mem_append_left _ List.mem_cons_self, ?_⟩
      have hnone := hcut [] nofun
      rwa [List.append_nil] at hnone
    · obtain ⟨first, others, hothers⟩ :=
        List.exists_cons_of_ne_nil (List.splitOn_ne_nil '\n' rest')
      rw [splitOn_first hlf hd' hothers]
      refine ⟨_, List.mem_cons_self, ?_⟩
      have hnone := hcut (d :: first) (by rintro e ⟨⟩; exact hd)
      simpa using hnone
  obtain ⟨l, hl, hnone⟩ := hfirst
  unfold statements
  rw [List.append_assoc]
  rcases hbefore with rfl | ⟨p', rfl⟩
  · exact mapM_eq_none hl hnone
  · obtain ⟨q', hq'⟩ := newlines_lineFeed p' ((Statement.pair key (.text value)).line ++ after)
    rw [List.append_assoc, List.singleton_append, hq', List.splitOn_append_cons_self]
    exact mapM_eq_none (List.mem_append_right _ hl) hnone

theorem statements_lines_unclean {ss : List Statement} (hform : ∀ s ∈ ss, s.WellFormed)
    (h : ∃ s ∈ ss, ¬s.Clean) : statements (textOf (ss.map Statement.line)) = none := by
  obtain ⟨s, hs, hunclean⟩ := h
  obtain ⟨key, value, rfl, hvalue⟩ : ∃ key value, s = .pair key (.text value) ∧
      ¬CleanText value := by
    cases s with
    | pair key value =>
      cases value with
      | text value => exact ⟨key, value, rfl, hunclean⟩
      | int n => exact absurd trivial hunclean
      | bool b => exact absurd trivial hunclean
    | blank => exact absurd trivial hunclean
    | table path => exact absurd trivial hunclean
    | element path => exact absurd trivial hunclean
  obtain ⟨as, bs, rfl⟩ := List.append_of_mem hs
  obtain ⟨before, after, htext, hbefore⟩ : ∃ before after,
      textOf ((as ++ .pair key (.text value) :: bs).map Statement.line) =
        before ++ (Statement.pair key (.text value)).line ++ after ∧
      (before = [] ∨ ∃ p, before = p ++ ['\n']) := by
    have hafter : ∃ after, Lib.joined '\n' ((.pair key (.text value) :: bs).map Statement.line) =
        (Statement.pair key (.text value)).line ++ after := by
      rw [List.map_cons]
      by_cases hbs : bs.map Statement.line = []
      · exact ⟨[], by rw [hbs, Lib.joined_singleton, List.append_nil]⟩
      · exact ⟨_, Lib.joined_cons _ hbs⟩
    obtain ⟨after, hafter⟩ := hafter
    unfold textOf
    rw [List.map_append]
    by_cases has : as.map Statement.line = []
    · refine ⟨[], after ++ ['\n'], ?_, .inl rfl⟩
      rw [has, List.nil_append, hafter, List.nil_append, List.append_assoc]
    · refine ⟨Lib.joined '\n' (as.map Statement.line) ++ ['\n'], after ++ ['\n'], ?_,
        .inr ⟨_, rfl⟩⟩
      rw [Lib.joined_append has (by simp), hafter]
      simp
  rw [htext]
  exact statements_unclean (hform _ hs) hvalue hbefore after

end Lib.Toml
