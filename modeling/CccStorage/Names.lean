/-
  File:      CccStorage/Names.lean
  Subject:   From child names and ids to file names: the encoder of `ccc_storage_core/names.py`
             and the sanitiser of `mountd/managed_parent.py`.

  * `safeNamespaceName` -- ids percent-encoded: overlay roots, pack directories, mountpoints and
    lock files; `safeNamespaceName_inj`, no two ids share a name;
  * `safeName` -- names sanitised: manifest files, which different names may share;
  * `validateName` -- the names `_validate_name` accepts, `ChildName`.
-/
import Mathlib

namespace CccStorage

/-! ## 1. Percent encoding -/

/-- The characters `quote` leaves as they are: `_SAFE_CHARS`, and `~`. -/
def isQuoteSafe (c : Char) : Bool :=
  c.isAlphanum || c = '_' || c = '.' || c = '-' || c = '~'

def hexDigit (n : Nat) : Char := Char.ofNat (if n < 10 then 48 + n else 55 + n)

/-- One byte: itself, or `%` and its two hexadecimal digits. -/
def quoteByte (b : UInt8) : List Char :=
  if isQuoteSafe (Char.ofNat b.toNat) then [Char.ofNat b.toNat]
  else ['%', hexDigit (b.toNat / 16), hexDigit (b.toNat % 16)]

def quoteBytes (bytes : List UInt8) : List Char := bytes.flatMap quoteByte

/-- `urllib.parse.quote(text, safe=_SAFE_CHARS)`, over the UTF-8 bytes of the text. -/
def quote (text : String) : String := String.ofList (quoteBytes text.toUTF8.data.toList)

def safeNamespaceName (value : String) : String :=
  if value = "" then "child"
  else if quote value = "" then "child"
  else quote value

theorem hexDigit_inj {m n : Nat} (hm : m < 16) (hn : n < 16) (h : hexDigit m = hexDigit n) :
    m = n := by
  have hall : ∀ a b : Fin 16, hexDigit a = hexDigit b → a = b := by decide
  exact congrArg Fin.val (hall ⟨m, hm⟩ ⟨n, hn⟩ h)

theorem toNat_ofNat_byte (b : UInt8) : (Char.ofNat b.toNat).toNat = b.toNat := by
  have hlt := UInt8.toNat_lt b
  rw [Char.toNat_ofNat, if_pos]
  exact Or.inl (by omega)

/-- What one byte encodes to tells where it ends and which byte it was. -/
theorem quoteByte_append_inj {a b : UInt8} {us vs : List Char}
    (h : quoteByte a ++ us = quoteByte b ++ vs) : a = b ∧ us = vs := by
  have hpercent : ∀ c : UInt8, isQuoteSafe (Char.ofNat c.toNat) = true →
      Char.ofNat c.toNat ≠ '%' := by
    intro c hc heq
    rw [heq] at hc
    revert hc
    decide
  have hlt : ∀ c : UInt8, c.toNat / 16 < 16 ∧ c.toNat % 16 < 16 := by
    intro c
    have := UInt8.toNat_lt c
    omega
  unfold quoteByte at h
  by_cases ha : isQuoteSafe (Char.ofNat a.toNat) = true
  · by_cases hb : isQuoteSafe (Char.ofNat b.toNat) = true
    · rw [if_pos ha, if_pos hb] at h
      obtain ⟨hc, hrest⟩ := List.cons.inj h
      have hnat := congrArg Char.toNat hc
      rw [toNat_ofNat_byte, toNat_ofNat_byte] at hnat
      exact ⟨UInt8.toNat_inj.mp hnat, hrest⟩
    · rw [if_pos ha, if_neg hb] at h
      exact absurd (List.cons.inj h).1 (hpercent a ha)
  · by_cases hb : isQuoteSafe (Char.ofNat b.toNat) = true
    · rw [if_neg ha, if_pos hb] at h
      exact absurd (List.cons.inj h).1.symm (hpercent b hb)
    · rw [if_neg ha, if_neg hb] at h
      obtain ⟨-, h⟩ := List.cons.inj h
      obtain ⟨hhi, h⟩ := List.cons.inj h
      obtain ⟨hlo, hrest⟩ := List.cons.inj h
      have h1 := hexDigit_inj (hlt a).1 (hlt b).1 hhi
      have h2 := hexDigit_inj (hlt a).2 (hlt b).2 hlo
      exact ⟨UInt8.toNat_inj.mp (by omega), hrest⟩

theorem quoteByte_ne_nil (b : UInt8) : quoteByte b ≠ [] := by
  unfold quoteByte
  split <;> simp

theorem quoteBytes_inj {bs cs : List UInt8} (h : quoteBytes bs = quoteBytes cs) : bs = cs := by
  induction bs generalizing cs with
  | nil =>
      cases cs with
      | nil => rfl
      | cons c cs =>
          unfold quoteBytes at h
          rw [List.flatMap_nil, List.flatMap_cons] at h
          exact absurd (List.append_eq_nil_iff.mp h.symm).1 (quoteByte_ne_nil c)
  | cons b bs ih =>
      cases cs with
      | nil =>
          unfold quoteBytes at h
          rw [List.flatMap_nil, List.flatMap_cons] at h
          exact absurd (List.append_eq_nil_iff.mp h).1 (quoteByte_ne_nil b)
      | cons c cs =>
          unfold quoteBytes at h
          rw [List.flatMap_cons, List.flatMap_cons] at h
          obtain ⟨hb, hrest⟩ := quoteByte_append_inj h
          rw [hb, ih hrest]

theorem quote_inj {s t : String} (h : quote s = quote t) : s = t := by
  unfold quote at h
  have hbytes := quoteBytes_inj (String.ofList_inj.mp h)
  have hdata : s.toUTF8.data = t.toUTF8.data := Array.toList_inj.mp hbytes
  exact String.toByteArray_inj.mp (ByteArray.ext hdata)

theorem quote_ne_empty {s : String} (h : s ≠ "") : quote s ≠ "" := by
  intro hq
  have hempty : quote "" = "" := by decide
  exact h (quote_inj (hq.trans hempty.symm))

/-- **No two ids share a name** under the overlays, the packs, the mounts or the locks. -/
theorem safeNamespaceName_inj {s t : String} (hs : s ≠ "") (ht : t ≠ "")
    (h : safeNamespaceName s = safeNamespaceName t) : s = t := by
  unfold safeNamespaceName at h
  rw [if_neg hs, if_neg ht, if_neg (quote_ne_empty hs), if_neg (quote_ne_empty ht)] at h
  exact quote_inj h

example : safeNamespaceName "dataset:a b" = "dataset%3Aa%20b" := by decide

/-! ## 2. Sanitised names -/

/-- The class `[A-Za-z0-9_.-]`. -/
def isNameChar (c : Char) : Bool := c.isAlphanum || c = '_' || c = '.' || c = '-'

/-- `re.sub` of every longest run of other characters by one `_`. -/
def subRuns (inRun : Bool) : List Char → List Char
  | [] => []
  | c :: cs =>
    if isNameChar c then c :: subRuns false cs
    else if inRun then subRuns true cs
    else '_' :: subRuns true cs

/-- `text.strip("_")`. -/
def stripUnderscores (text : List Char) : List Char :=
  ((text.dropWhile (· = '_')).reverse.dropWhile (· = '_')).reverse

/-- `_safe_name` of `managed_parent.py`. -/
def safeName (value : String) : String :=
  let name := String.ofList (stripUnderscores (subRuns false value.toList))
  if name = "" then "child" else name

/-- Marker and internal names. -/
def isInternalName (name : String) : Bool :=
  ".".toList.isPrefixOf name.toList || name = ".ccc-storage" || name = "ccc-storage"

inductive NameError where
  | invalid (name : String)
  | reserved (name : String)
  deriving DecidableEq, Repr

/-- `_validate_name`: what it raises. -/
def validateName (name : String) : Option NameError :=
  if name = "" ∨ name = "." ∨ name = ".." then some (.invalid name)
  else if '/' ∈ name.toList ∨ '\x00' ∈ name.toList then some (.invalid name)
  else if isInternalName name then some (.reserved name)
  else none

/-- A name `_validate_name` accepts. -/
structure ChildName where
  text : String
  valid : validateName text = none
  deriving DecidableEq

/-- Names that share one manifest file. -/
example : safeName "a b" = "a_b" ∧ safeName "_a_b_" = "a_b" ∧ safeName "__" = "child" := by decide

-- nothing below depends on how a name is sanitised; only runs on concrete names compute it
attribute [irreducible] safeName

end CccStorage
