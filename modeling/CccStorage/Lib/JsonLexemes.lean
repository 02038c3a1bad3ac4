/-
  File:      CccStorage/Lib/JsonLexemes.lean
  Subject:   The strings and the numbers of JSON texts, as Python's `json` writes and reads them.
             Names nothing of the storage service.

  A Python string is a list of code points, and may hold surrogates. The writer escapes everything
  but printable ASCII, a code point above the first plane as a surrogate pair; the reader joins
  such pairs, whatever they were written for.

  * `escapeChar`, `scanUnits`, `joinPairs` -- the strings; `scanString_quote` -- reading one back;
  * `numberParts` -- what the number pattern takes of a text;
  * `numberParts_append` -- the same before a delimiter, whatever follows that;
  * `numberParts_intText` -- a number written in decimals is taken as a whole.
-/
import Mathlib

namespace Lib.JsonText

/-! ## 1. Strings -/

/-- A code point, a surrogate or not. -/
abbrev CodePoint := Fin 0x110000

/-- A Python string. -/
abbrev PyText := List CodePoint

def codePoint (n : Nat) : CodePoint := Fin.ofNat 0x110000 n

/-- A text written in the source. -/
def pyText (s : String) : PyText := s.toList.map fun c => codePoint c.toNat

def isHigh (c : CodePoint) : Bool := 0xd800 ≤ c.val && c.val ≤ 0xdbff

def isLow (c : CodePoint) : Bool := 0xdc00 ≤ c.val && c.val ≤ 0xdfff

def hexDigit (d : Nat) : Char := if d < 10 then Char.ofNat (48 + d) else Char.ofNat (87 + d)

/-- `'\\u{0:04x}'.format(n)`. -/
def unicodeEscape (n : Nat) : List Char :=
  ['\\', 'u', hexDigit (n / 0x1000 % 16), hexDigit (n / 0x100 % 16), hexDigit (n / 16 % 16),
    hexDigit (n % 16)]

/-- The surrogate pair of a code point above the first plane. -/
def highOf (c : CodePoint) : CodePoint := codePoint (0xd800 + (c.val - 0x10000) / 0x400)

def lowOf (c : CodePoint) : CodePoint := codePoint (0xdc00 + (c.val - 0x10000) % 0x400)

/-- What the writer escapes: `py_encode_basestring_ascii`, for one character. -/
def escapeChar (c : CodePoint) : List Char :=
  if c.val = 34 then ['\\', '"']
  else if c.val = 92 then ['\\', '\\']
  else if c.val = 10 then ['\\', 'n']
  else if c.val = 13 then ['\\', 'r']
  else if c.val = 9 then ['\\', 't']
  else if c.val = 12 then ['\\', 'f']
  else if c.val = 8 then ['\\', 'b']
  else if 32 ≤ c.val ∧ c.val ≤ 126 then [Char.ofNat c.val]
  else if c.val < 0x10000 then unicodeEscape c.val
  else unicodeEscape (highOf c).val ++ unicodeEscape (lowOf c).val

/-- A string as it is written, between its quotes. -/
def quote (s : PyText) : List Char := '"' :: (s.flatMap escapeChar ++ ['"'])

def hexVal (c : Char) : Option Nat :=
  if 48 ≤ c.toNat ∧ c.toNat ≤ 57 then some (c.toNat - 48)
  else if 97 ≤ c.toNat ∧ c.toNat ≤ 102 then some (c.toNat - 87)
  else if 65 ≤ c.toNat ∧ c.toNat ≤ 70 then some (c.toNat - 55)
  else none

/-- `_decode_uXXXX`. -/
def hex4 (a b c d : Char) : Option Nat := do
  return 0x1000 * (← hexVal a) + 0x100 * (← hexVal b) + 16 * (← hexVal c) + (← hexVal d)

/-- `BACKSLASH`. -/
def backslash (e : Char) : Option CodePoint :=
  if e = '"' then some 34
  else if e = '\\' then some 92
  else if e = '/' then some 47
  else if e = 'b' then some 8
  else if e = 'f' then some 12
  else if e = 'n' then some 10
  else if e = 'r' then some 13
  else if e = 't' then some 9
  else none

/-- `py_scanstring`, after the opening quote and before pairs are joined. -/
def scanUnits : List Char → Option (PyText × List Char)
  | [] => none
  | c :: s =>
    if c = '"' then some ([], s)
    else if c = '\\' then
      match s with
      | [] => none
      | e :: s₁ =>
        if e = 'u' then
          match s₁ with
          | a₁ :: a₂ :: a₃ :: a₄ :: s₂ => do
            let n ← hex4 a₁ a₂ a₃ a₄
            let (text, rest) ← scanUnits s₂
            return (codePoint n :: text, rest)
          | _ => none
        else do
          let n ← backslash e
          let (text, rest) ← scanUnits s₁
          return (n :: text, rest)
    else if c.toNat < 32 then none
    else do
      let (text, rest) ← scanUnits s
      return (codePoint c.toNat :: text, rest)

/-- The code point of a surrogate pair. -/
def astral (a b : CodePoint) : CodePoint :=
  codePoint (0x10000 + (a.val - 0xd800) * 0x400 + (b.val - 0xdc00))

/-- The surrogate pairs of what was scanned are joined. What is not escaped is no surrogate, so
    that pairs of escapes are all there are. -/
def joinPairs : PyText → PyText
  | a :: b :: s =>
    if isHigh a && isLow b then astral a b :: joinPairs s else a :: joinPairs (b :: s)
  | s => s

def scanString (s : List Char) : Option (PyText × List Char) :=
  (scanUnits s).map fun x => (joinPairs x.1, x.2)

/-- The code units a code point is written as. -/
def units (c : CodePoint) : PyText := if c.val < 0x10000 then [c] else [highOf c, lowOf c]

theorem hexVal_hexDigit : ∀ d < 16, hexVal (hexDigit d) = some d := by decide

theorem hex4_unicode {n : Nat} (h : n < 0x10000) :
    hex4 (hexDigit (n / 0x1000 % 16)) (hexDigit (n / 0x100 % 16)) (hexDigit (n / 16 % 16))
      (hexDigit (n % 16)) = some n := by
  unfold hex4
  rw [hexVal_hexDigit _ (Nat.mod_lt _ (by decide)), hexVal_hexDigit _ (Nat.mod_lt _ (by decide)),
    hexVal_hexDigit _ (Nat.mod_lt _ (by decide)), hexVal_hexDigit _ (Nat.mod_lt _ (by decide))]
  show some _ = some _
  congr 1
  omega

theorem codePoint_val (c : CodePoint) : codePoint c.val = c := by
  unfold codePoint
  exact Fin.ofNat_val_eq_self c

theorem val_codePoint {n : Nat} (h : n < 0x110000) : (codePoint n).val = n := Nat.mod_eq_of_lt h

theorem highOf_val (c : CodePoint) : (highOf c).val = 0xd800 + (c.val - 0x10000) / 0x400 := by
  have hc := c.isLt
  exact val_codePoint (by omega)

theorem lowOf_val (c : CodePoint) : (lowOf c).val = 0xdc00 + (c.val - 0x10000) % 0x400 :=
  val_codePoint (by omega)

/-- A simple escape is read back. -/
theorem scanUnits_backslash {e : Char} {n : CodePoint} (he : e ≠ 'u') (hn : backslash e = some n)
    (s : List Char) : scanUnits ('\\' :: e :: s) =
      (scanUnits s).map fun x => (n :: x.1, x.2) := by
  rw [scanUnits.eq_def]
  simp only [Char.reduceEq, if_false, if_true, if_neg he, hn]
  cases scanUnits s <;> rfl

theorem scanUnits_unicode {n : Nat} (h : n < 0x10000) (s : List Char) :
    scanUnits (unicodeEscape n ++ s) = (scanUnits s).map fun x => (codePoint n :: x.1, x.2) := by
  show scanUnits ('\\' :: 'u' :: _ :: _ :: _ :: _ :: s) = _
  rw [scanUnits.eq_def]
  simp only [Char.reduceEq, if_false, if_true, hex4_unicode h]
  cases scanUnits s <;> rfl

/-- **One character is read back** as its code units. -/
theorem scanUnits_escape (c : CodePoint) (s : List Char) :
    scanUnits (escapeChar c ++ s) = (scanUnits s).map fun x => (units c ++ x.1, x.2) := by
  have hsimple : ∀ {e : Char} {n : Nat}, c.val = n → n < 0x10000 → e ≠ 'u' →
      backslash e = some (codePoint n) → scanUnits ('\\' :: e :: s) =
        (scanUnits s).map fun x => (units c ++ x.1, x.2) := by
    intro e n hc hn he hback
    rw [scanUnits_backslash he hback, ← hc, codePoint_val, units, if_pos (by omega)]
    rfl
  unfold escapeChar
  by_cases h34 : c.val = 34
  · rw [if_pos h34]
    exact hsimple h34 (by decide) (by decide) rfl
  by_cases h92 : c.val = 92
  · rw [if_neg h34, if_pos h92]
    exact hsimple h92 (by decide) (by decide) rfl
  by_cases h10 : c.val = 10
  · rw [if_neg h34, if_neg h92, if_pos h10]
    exact hsimple h10 (by decide) (by decide) rfl
  by_cases h13 : c.val = 13
  · rw [if_neg h34, if_neg h92, if_neg h10, if_pos h13]
    exact hsimple h13 (by decide) (by decide) rfl
  by_cases h9 : c.val = 9
  · rw [if_neg h34, if_neg h92, if_neg h10, if_neg h13, if_pos h9]
    exact hsimple h9 (by decide) (by decide) rfl
  by_cases h12 : c.val = 12
  · rw [if_neg h34, if_neg h92, if_neg h10, if_neg h13, if_neg h9, if_pos h12]
    exact hsimple h12 (by decide) (by decide) rfl
  by_cases h8 : c.val = 8
  · rw [if_neg h34, if_neg h92, if_neg h10, if_neg h13, if_neg h9, if_neg h12, if_pos h8]
    exact hsimple h8 (by decide) (by decide) rfl
  rw [if_neg h34, if_neg h92, if_neg h10, if_neg h13, if_neg h9, if_neg h12, if_neg h8]
  by_cases hplain : 32 ≤ c.val ∧ c.val ≤ 126
  · have hnat : (Char.ofNat c.val).toNat = c.val := by
      rw [Char.toNat_ofNat, if_pos (.inl (by omega))]
    have hquote : Char.ofNat c.val ≠ '"' := fun heq => h34 (by rw [← hnat, heq]; rfl)
    have hback : Char.ofNat c.val ≠ '\\' := fun heq => h92 (by rw [← hnat, heq]; rfl)
    rw [if_pos hplain, units, if_pos (by omega)]
    show scanUnits (Char.ofNat c.val :: s) = _
    rw [scanUnits.eq_def]
    dsimp only
    rw [if_neg hquote, if_neg hback, hnat, if_neg (by omega), codePoint_val]
    cases scanUnits s <;> rfl
  rw [if_neg hplain]
  by_cases hfirst : c.val < 0x10000
  · rw [if_pos hfirst, scanUnits_unicode hfirst, codePoint_val, units, if_pos hfirst]
    rfl
  · have hc := c.isLt
    have hhigh := highOf_val c
    have hlow := lowOf_val c
    rw [if_neg hfirst, List.append_assoc, scanUnits_unicode (by omega),
      scanUnits_unicode (by omega), codePoint_val, codePoint_val, units, if_neg hfirst]
    cases scanUnits s <;> rfl

theorem scanUnits_quote (s : PyText) (rest : List Char) :
    scanUnits (s.flatMap escapeChar ++ '"' :: rest) = some (s.flatMap units, rest) := by
  induction s with
  | nil =>
      show scanUnits ('"' :: rest) = _
      rw [scanUnits.eq_def]
      rfl
  | cons c s ih =>
      rw [List.flatMap_cons, List.append_assoc, scanUnits_escape, ih, List.flatMap_cons]
      rfl

theorem joinPairs_cons {a : CodePoint} (s : PyText)
    (h : ∀ b ∈ s.head?, (isHigh a && isLow b) = false) : joinPairs (a :: s) = a :: joinPairs s := by
  cases s with
  | nil => rfl
  | cons b s => rw [joinPairs, h b rfl]; rfl

theorem isHigh_highOf (c : CodePoint) : isHigh (highOf c) = true := by
  have hc := c.isLt
  have hval := highOf_val c
  unfold isHigh
  simp only [Bool.and_eq_true, decide_eq_true_eq]
  omega

theorem isLow_lowOf (c : CodePoint) : isLow (lowOf c) = true := by
  have hval := lowOf_val c
  unfold isLow
  simp only [Bool.and_eq_true, decide_eq_true_eq]
  omega

theorem isLow_highOf (c : CodePoint) : isLow (highOf c) = false := by
  have hc := c.isLt
  have hval := highOf_val c
  unfold isLow
  simp only [Bool.and_eq_false_iff, decide_eq_false_iff_not]
  omega

theorem astral_pair {c : CodePoint} (h : ¬c.val < 0x10000) : astral (highOf c) (lowOf c) = c := by
  have hc := c.isLt
  apply Fin.ext
  unfold astral
  rw [highOf_val, lowOf_val, val_codePoint (by omega)]
  omega

/-- What is joined of the code units is what is joined of the string. -/
theorem joinPairs_units (s : PyText) : joinPairs (s.flatMap units) = joinPairs s := by
  have hsurrogate : ∀ {c : CodePoint}, c.val < 0x10000 → ∀ s : PyText,
      List.flatMap units (c :: s) = c :: s.flatMap units := by
    intro c hc s
    rw [List.flatMap_cons, units, if_pos hc]
    rfl
  induction hn : s.length using Nat.strong_induction_on generalizing s with
  | _ n ih =>
    cases s with
    | nil => rfl
    | cons c s =>
      have hrest : joinPairs (s.flatMap units) = joinPairs s :=
        ih s.length (by rw [← hn]; exact Nat.lt_succ_self _) s rfl
      by_cases hc : c.val < 0x10000
      · rw [hsurrogate hc]
        by_cases hpair : ∃ d s', s = d :: s' ∧ (isHigh c && isLow d) = true
        · obtain ⟨d, s', rfl, hpair⟩ := hpair
          have hd : d.val < 0x10000 := by
            simp only [isHigh, isLow, Bool.and_eq_true, decide_eq_true_eq] at hpair
            omega
          rw [hsurrogate hd, joinPairs, joinPairs, if_pos hpair, if_pos hpair]
          congr 1
          exact ih s'.length (by rw [← hn]; simp) s' rfl
        · have hnone : ∀ b ∈ s.head?, (isHigh c && isLow b) = false := by
            intro b hb
            cases s with
            | nil => cases hb
            | cons d s' =>
              obtain rfl : d = b := Option.some.inj hb
              exact Bool.eq_false_of_not_eq_true fun h => hpair ⟨d, s', rfl, h⟩
          have hunits : ∀ b ∈ (s.flatMap units).head?, (isHigh c && isLow b) = false := by
            intro b hb
            cases s with
            | nil => cases hb
            | cons d s' =>
              by_cases hd : d.val < 0x10000
              · rw [hsurrogate hd] at hb
                exact hnone b hb
              · rw [List.flatMap_cons, units, if_neg hd] at hb
                obtain rfl : highOf d = b := Option.some.inj hb
                rw [isLow_highOf, Bool.and_false]
          rw [joinPairs_cons _ hunits, joinPairs_cons _ hnone, hrest]
      · have hnot : isHigh c = false := by
          simp only [isHigh, Bool.and_eq_false_iff, decide_eq_false_iff_not]
          omega
        rw [List.flatMap_cons, units, if_neg hc]
        show joinPairs (highOf c :: lowOf c :: s.flatMap units) = _
        rw [joinPairs, isHigh_highOf, isLow_lowOf, Bool.and_self, if_pos rfl, astral_pair hc,
          joinPairs_cons s (fun b _ => by rw [hnot]; rfl), hrest]

/-- **A string is read back** with its surrogate pairs joined. -/
theorem scanString_quote (s : PyText) (rest : List Char) :
    scanString (s.flatMap escapeChar ++ '"' :: rest) = some (joinPairs s, rest) := by
  rw [scanString, scanUnits_quote, Option.map_some, joinPairs_units]

/-- What is taken of a string does not depend on what follows it. -/
theorem scanUnits_append {s : List Char} {x : PyText × List Char} (q : List Char)
    (h : scanUnits s = some x) : scanUnits (s ++ q) = some (x.1, x.2 ++ q) := by
  fun_induction scanUnits s generalizing x with
  | case1 => cases h
  | case2 s =>
      obtain rfl := Option.some.inj h
      show scanUnits ('"' :: (s ++ q)) = _
      rw [scanUnits.eq_def]
      rfl
  | case3 hquote => cases h
  | case4 a₁ a₂ a₃ a₄ s hquote ih =>
      simp only [Option.bind_eq_bind, Option.bind_eq_some_iff] at h
      obtain ⟨n, hn, y, hy, hx⟩ := h
      obtain rfl := Option.some.inj hx
      show scanUnits ('\\' :: 'u' :: a₁ :: a₂ :: a₃ :: a₄ :: (s ++ q)) = _
      rw [scanUnits.eq_def]
      simp only [Char.reduceEq, if_false, if_true, hn, ih hy]
      rfl
  | case5 s hshort hquote => cases h
  | case6 e s he hquote ih =>
      simp only [Option.bind_eq_bind, Option.bind_eq_some_iff] at h
      obtain ⟨n, hn, y, hy, hx⟩ := h
      obtain rfl := Option.some.inj hx
      rw [List.cons_append, List.cons_append, scanUnits_backslash he hn, ih hy]
      rfl
  | case7 c s hquote hback hcontrol => cases h
  | case8 c s hquote hback hcontrol ih =>
      simp only [Option.bind_eq_bind, Option.bind_eq_some_iff] at h
      obtain ⟨y, hy, hx⟩ := h
      obtain rfl := Option.some.inj hx
      show scanUnits (c :: (s ++ q)) = _
      rw [scanUnits.eq_def]
      simp only [if_neg hquote, if_neg hback, if_neg hcontrol, ih hy]
      rfl

theorem scanString_append {s : List Char} {x : PyText × List Char} (q : List Char)
    (h : scanString s = some x) : scanString (s ++ q) = some (x.1, x.2 ++ q) := by
  rw [scanString] at h ⊢
  obtain ⟨y, hy, rfl⟩ := Option.map_eq_some_iff.mp h
  rw [scanUnits_append q hy]
  rfl

/-- No string holds a high surrogate right before a low one. -/
def Unpaired : PyText → Prop
  | a :: b :: s => (isHigh a && isLow b) = false ∧ Unpaired (b :: s)
  | _ => True

instance Unpaired.decidable : (s : PyText) → Decidable (Unpaired s)
  | a :: b :: s =>
      have := Unpaired.decidable (b :: s)
      inferInstanceAs (Decidable ((isHigh a && isLow b) = false ∧ Unpaired (b :: s)))
  | [_] => isTrue trivial
  | [] => isTrue trivial

theorem joinPairs_length (s : PyText) :
    (joinPairs s).length ≤ s.length ∧ ((joinPairs s).length = s.length → Unpaired s) := by
  fun_induction joinPairs s with
  | case1 a b s hpair ih =>
      refine ⟨by simp only [List.length_cons]; omega, fun h => ?_⟩
      simp only [List.length_cons] at h
      omega
  | case2 a b s hpair ih =>
      refine ⟨by simp only [List.length_cons] at ih ⊢; omega, fun h => ?_⟩
      refine ⟨Bool.eq_false_of_not_eq_true hpair, ih.2 ?_⟩
      simp only [List.length_cons] at h ⊢
      omega
  | case3 s hshort =>
      refine ⟨le_rfl, fun _ => ?_⟩
      rcases s with _ | ⟨a, _ | ⟨b, s⟩⟩
      · trivial
      · trivial
      · exact (hshort a b s rfl).elim

/-- Where there is no pair, nothing is joined. -/
theorem Unpaired.joinPairs_eq {s : PyText} (h : Unpaired s) : joinPairs s = s := by
  fun_induction joinPairs s with
  | case1 a b s hpair ih => rw [h.1] at hpair; cases hpair
  | case2 a b s hpair ih => rw [ih h.2]
  | case3 s hshort => rfl

/-! ## 2. Numbers -/

/-- White space of a JSON text. -/
def isWs (c : Char) : Bool := c = ' ' || c = '\t' || c = '\n' || c = '\r'

/-- What may follow a value inside an array or an object. -/
def isDelim (c : Char) : Bool := isWs c || c = ',' || c = ']' || c = '}'

/-- Nothing follows, or a delimiter does. -/
def Delim (s : List Char) : Prop := ∀ c ∈ s.head?, isDelim c = true

def minusSign : List Char → List Char × List Char
  | [] => ([], [])
  | c :: s => if c = '-' then ([c], s) else ([], c :: s)

def digits (s : List Char) : List Char × List Char :=
  (s.takeWhile Char.isDigit, s.dropWhile Char.isDigit)

/-- `0|[1-9]\d*` -/
def integerPart : List Char → List Char × List Char
  | [] => ([], [])
  | c :: s => if c = '0' then ([c], s) else digits (c :: s)

/-- `(\.\d+)?` -/
def fraction : List Char → List Char × List Char
  | [] => ([], [])
  | c :: s =>
    if c = '.' ∧ (digits s).1 ≠ [] then (c :: (digits s).1, (digits s).2) else ([], c :: s)

/-- `[-+]?` -/
def exponentSign : List Char → List Char × List Char
  | [] => ([], [])
  | c :: s => if c = '-' ∨ c = '+' then ([c], s) else ([], c :: s)

/-- `([eE][-+]?\d+)?` -/
def exponent : List Char → List Char × List Char
  | [] => ([], [])
  | c :: s =>
    if (c = 'e' ∨ c = 'E') ∧ (digits (exponentSign s).2).1 ≠ [] then
      (c :: ((exponentSign s).1 ++ (digits (exponentSign s).2).1), (digits (exponentSign s).2).2)
    else ([], c :: s)

/-- What `NUMBER_RE` takes of a text, and what it leaves. -/
structure NumberParts where
  minus : List Char
  integer : List Char
  frac : List Char
  expo : List Char
  rest : List Char
  deriving DecidableEq

def numberParts (s : List Char) : NumberParts :=
  let m := minusSign s
  let i := integerPart m.2
  let f := fraction i.2
  let e := exponent f.2
  ⟨m.1, i.1, f.1, e.1, e.2⟩

/-- The text of the number. -/
def NumberParts.text (p : NumberParts) : List Char := p.minus ++ (p.integer ++ (p.frac ++ p.expo))

section Append

variable {s q : List Char} {c : Char}

theorem Delim.cons (h : Delim (c :: s)) : isDelim c = true := h c rfl

theorem digits_append (h : (digits s).2 = [] → Delim q) :
    digits (s ++ q) = ((digits s).1, (digits s).2 ++ q) := by
  have hdelim : Delim q → digits q = ([], q) := by
    intro hq
    cases q with
    | nil => rfl
    | cons c q =>
      have hc : c.isDigit = false := by
        have hc := hq.cons
        simp only [isDelim, isWs, Bool.or_eq_true, decide_eq_true_eq] at hc
        rcases hc with (((((rfl | rfl) | rfl) | rfl) | rfl) | rfl) | rfl <;> rfl
      simp [digits, hc]
  induction s with
  | nil => exact hdelim (h rfl)
  | cons c s ih =>
      by_cases hc : c.isDigit = true
      · have htail : digits (c :: s) = (c :: (digits s).1, (digits s).2) := by
          simp [digits, hc]
        have htail' : digits (c :: s ++ q) = (c :: (digits (s ++ q)).1, (digits (s ++ q)).2) := by
          simp [digits, hc]
        rw [htail] at h ⊢
        rw [htail', ih h]
      · simp [digits, hc]

/-- No part of a number begins with a delimiter. -/
theorem not_delim (h : c = '-' ∨ c = '0' ∨ c = '.' ∨ c = 'e' ∨ c = 'E') : isDelim c = false := by
  rcases h with rfl | rfl | rfl | rfl | rfl <;> rfl

theorem exponent_append (h : Delim ((exponent s).2 ++ q)) :
    exponent (s ++ q) = ((exponent s).1, (exponent s).2 ++ q) := by
  have hnone : ∀ {c : Char} {t : List Char}, isDelim c = true →
      exponent (c :: t) = ([], c :: t) := by
    intro c t hc
    refine if_neg fun ⟨he, _⟩ => ?_
    rw [not_delim (.inr (.inr (.inr he)))] at hc
    cases hc
  cases s with
  | nil =>
      cases q with
      | nil => rfl
      | cons c q => exact hnone (h : Delim (c :: q)).cons
  | cons c s =>
      by_cases he : c = 'e' ∨ c = 'E'
      · have hdigits : (digits (exponentSign s).2).1 ≠ [] := by
          intro hnil
          have hrest : (exponent (c :: s)).2 = c :: s := by simp [exponent, hnil]
          rw [hrest] at h
          have hc := h.cons
          rw [not_delim (.inr (.inr (.inr he)))] at hc
          cases hc
        have hsign : exponentSign (s ++ q) = ((exponentSign s).1, (exponentSign s).2 ++ q) := by
          cases s with
          | nil => exact absurd rfl hdigits
          | cons d s =>
            by_cases hd : d = '-' ∨ d = '+' <;> simp [exponentSign, hd]
        have hpart : exponent (c :: s) =
            (c :: ((exponentSign s).1 ++ (digits (exponentSign s).2).1),
              (digits (exponentSign s).2).2) := if_pos ⟨he, hdigits⟩
        rw [hpart] at h ⊢
        have htail : digits ((exponentSign s).2 ++ q) = _ := digits_append fun hnil => by
          rwa [hnil] at h
        have hpart' : exponent (c :: (s ++ q)) =
            (c :: ((exponentSign (s ++ q)).1 ++ (digits (exponentSign (s ++ q)).2).1),
              (digits (exponentSign (s ++ q)).2).2) := by
          refine if_pos ⟨he, ?_⟩
          rw [hsign, htail]
          exact hdigits
        rw [List.cons_append, hpart', hsign, htail]
      · simp [exponent, he]

theorem fraction_append (h : Delim ((exponent (fraction s).2).2 ++ q)) :
    fraction (s ++ q) = ((fraction s).1, (fraction s).2 ++ q) := by
  have hnone : ∀ {c : Char} {t : List Char}, isDelim c = true →
      fraction (c :: t) = ([], c :: t) := by
    intro c t hc
    refine if_neg fun ⟨hdot, _⟩ => ?_
    rw [not_delim (.inr (.inr (.inl hdot)))] at hc
    cases hc
  cases s with
  | nil =>
      cases q with
      | nil => rfl
      | cons c q => exact hnone (h : Delim (c :: q)).cons
  | cons c s =>
      by_cases hdot : c = '.'
      · have hdigits : (digits s).1 ≠ [] := by
          intro hnil
          have hrest : (exponent (fraction (c :: s)).2).2 = c :: s := by
            simp [fraction, exponent, hnil, hdot]
          rw [hrest] at h
          have hc := h.cons
          rw [not_delim (.inr (.inr (.inl hdot)))] at hc
          cases hc
        have hpart : fraction (c :: s) = (c :: (digits s).1, (digits s).2) :=
          if_pos ⟨hdot, hdigits⟩
        rw [hpart] at h ⊢
        have htail : digits (s ++ q) = _ := digits_append fun hnil => by
          rwa [hnil] at h
        have hpart' : fraction (c :: (s ++ q)) =
            (c :: (digits (s ++ q)).1, (digits (s ++ q)).2) := by
          refine if_pos ⟨hdot, ?_⟩
          rw [htail]
          exact hdigits
        rw [List.cons_append, hpart', htail]
      · simp [fraction, hdot]

theorem integerPart_append (h : Delim ((exponent (fraction (integerPart s).2).2).2 ++ q)) :
    integerPart (s ++ q) = ((integerPart s).1, (integerPart s).2 ++ q) := by
  cases s with
  | nil =>
      cases q with
      | nil => rfl
      | cons c q =>
        have hc := (h : Delim (c :: q)).cons
        have hzero : c ≠ '0' := fun heq => by
          rw [not_delim (.inr (.inl heq))] at hc
          cases hc
        have hdigits := digits_append (s := []) (fun _ => (h : Delim (c :: q)))
        exact (if_neg hzero).trans hdigits
  | cons c s =>
      by_cases hzero : c = '0'
      · simp [integerPart, hzero]
      · have hpart : ∀ t, integerPart (c :: t) = digits (c :: t) := fun t => if_neg hzero
        rw [hpart] at h ⊢
        rw [List.cons_append, hpart, ← List.cons_append]
        exact digits_append fun hnil => by rwa [hnil] at h

/-- **What is taken as a number before a delimiter** does not depend on what follows. -/
theorem numberParts_append (h : Delim ((numberParts s).rest ++ q)) :
    numberParts (s ++ q) = { numberParts s with rest := (numberParts s).rest ++ q } := by
  have hminus : minusSign (s ++ q) = ((minusSign s).1, (minusSign s).2 ++ q) := by
    cases s with
    | nil =>
      cases q with
      | nil => rfl
      | cons c q =>
        refine if_neg fun heq => ?_
        have hc := (h : Delim (c :: q)).cons
        rw [not_delim (.inl heq)] at hc
        cases hc
    | cons c s => by_cases hc : c = '-' <;> simp [minusSign, hc]
  unfold numberParts at h ⊢
  dsimp only at h ⊢
  rw [hminus, integerPart_append h]
  dsimp only
  rw [fraction_append h]
  dsimp only
  rw [exponent_append h]

end Append

/-! What is taken is a beginning of the text. -/

theorem digits_text (s : List Char) : (digits s).1 ++ (digits s).2 = s :=
  List.takeWhile_append_dropWhile

theorem numberParts_text (s : List Char) : (numberParts s).text ++ (numberParts s).rest = s := by
  have hminus : ∀ s : List Char, (minusSign s).1 ++ (minusSign s).2 = s := by
    intro s
    unfold minusSign
    split
    · rfl
    · split <;> rfl
  have hinteger : ∀ s : List Char, (integerPart s).1 ++ (integerPart s).2 = s := by
    intro s
    unfold integerPart
    split
    · rfl
    · split
      · rfl
      · exact digits_text _
  have hfraction : ∀ s : List Char, (fraction s).1 ++ (fraction s).2 = s := by
    intro s
    unfold fraction
    split
    · rfl
    · split
      · rw [List.cons_append, digits_text]
      · rfl
  have hsign : ∀ s : List Char, (exponentSign s).1 ++ (exponentSign s).2 = s := by
    intro s
    unfold exponentSign
    split
    · rfl
    · split <;> rfl
  have hexponent : ∀ s : List Char, (exponent s).1 ++ (exponent s).2 = s := by
    intro s
    unfold exponent
    split
    · rfl
    · split
      · rw [List.cons_append, List.append_assoc, digits_text, hsign]
      · rfl
  unfold numberParts NumberParts.text
  simp only [List.append_assoc]
  rw [hexponent, hfraction, hinteger, hminus]

/-- The characters of a number. -/
def isNumberChar (c : Char) : Bool :=
  c.isDigit || c = '-' || c = '+' || c = '.' || c = 'e' || c = 'E'

theorem numberParts_chars {s : List Char} : ∀ c ∈ (numberParts s).text, isNumberChar c = true := by
  have hdigits : ∀ {s : List Char} {c : Char}, c ∈ (digits s).1 → isNumberChar c = true := by
    intro s c hc
    have hdigit : c.isDigit = true := List.mem_takeWhile_imp hc
    simp [isNumberChar, hdigit]
  intro c hc
  unfold numberParts NumberParts.text at hc
  simp only [List.mem_append] at hc
  rcases hc with hc | hc | hc | hc
  · unfold minusSign at hc
    split at hc
    · cases hc
    · split at hc
      · rename_i heq
        rw [List.mem_singleton.mp hc, heq]
        rfl
      · cases hc
  · unfold integerPart at hc
    split at hc
    · cases hc
    · split at hc
      · rename_i heq
        rw [List.mem_singleton.mp hc, heq]
        rfl
      · exact hdigits hc
  · unfold fraction at hc
    split at hc
    · cases hc
    · split at hc
      · rename_i heq
        rcases List.mem_cons.mp hc with rfl | hc
        · rw [heq.1]
          rfl
        · exact hdigits hc
      · cases hc
  · unfold exponent at hc
    split at hc
    · cases hc
    · split at hc
      · rename_i heq
        rcases List.mem_cons.mp hc with rfl | hc
        · rcases heq.1 with rfl | rfl <;> rfl
        · rcases List.mem_append.mp hc with hc | hc
          · unfold exponentSign at hc
            split at hc
            · cases hc
            · split at hc
              · rename_i hsign
                rw [List.mem_singleton.mp hc]
                rcases hsign with rfl | rfl <;> rfl
              · cases hc
          · exact hdigits hc
      · cases hc

/-- A number begins with a sign or a digit. -/
theorem numberParts_head {s : List Char} (h : (numberParts s).integer ≠ []) :
    ∃ c t, s = c :: t ∧ (c.isDigit = true ∨ c = '-' ∧ ∃ d t', t = d :: t' ∧ d.isDigit = true) := by
  have hinteger : ∀ {s : List Char}, (integerPart s).1 ≠ [] →
      ∃ c t, s = c :: t ∧ c.isDigit = true := by
    intro s hs
    cases s with
    | nil => exact absurd rfl hs
    | cons c t =>
      refine ⟨c, t, rfl, ?_⟩
      by_cases hzero : c = '0'
      · rw [hzero]
        rfl
      · by_contra hc
        refine hs ?_
        simp [integerPart, hzero, digits, hc]
  cases s with
  | nil => exact absurd rfl h
  | cons c t =>
    refine ⟨c, t, rfl, ?_⟩
    by_cases hminus : c = '-'
    · have hrest : (minusSign (c :: t)).2 = t := by simp [minusSign, hminus]
      unfold numberParts at h
      dsimp only at h
      rw [hrest] at h
      exact .inr ⟨hminus, hinteger h⟩
    · have hrest : (minusSign (c :: t)).2 = c :: t := by simp [minusSign, hminus]
      unfold numberParts at h
      dsimp only at h
      rw [hrest] at h
      obtain ⟨c', t', heq, hc⟩ := hinteger h
      obtain ⟨rfl, -⟩ := List.cons.inj heq
      exact .inl hc

/-- `str(n)` of an integer. -/
def intText (n : Int) : List Char :=
  if n < 0 then '-' :: Nat.toDigits 10 n.natAbs else Nat.toDigits 10 n.natAbs

/-- `int(text)` of the parts of a number without fraction and exponent. -/
def NumberParts.toInt (p : NumberParts) : Int :=
  if p.minus = [] then Nat.ofDigitChars 10 p.integer 0 else -Nat.ofDigitChars 10 p.integer 0

theorem toDigits_head (n : Nat) :
    ∃ c t, Nat.toDigits 10 n = c :: t ∧ (c = '0' → t = []) ∧ c.isDigit = true ∧
      ∀ d ∈ t, d.isDigit = true := by
  induction n using Nat.strong_induction_on with
  | _ n ih =>
    have hdigit : ∀ c ∈ Nat.toDigits 10 n, c.isDigit = true := fun c hc =>
      Nat.isDigit_of_mem_toDigits (by decide) (by decide) hc
    by_cases hn : n < 10
    · rw [Nat.toDigits_of_lt_base hn] at hdigit ⊢
      exact ⟨n.digitChar, [], rfl, fun _ => rfl, hdigit _ List.mem_cons_self, nofun⟩
    · obtain ⟨c, t, heq, hzero, hc, ht⟩ := ih (n / 10) (by omega)
      rw [Nat.toDigits_of_base_le (by decide) (by omega), heq] at hdigit ⊢
      refine ⟨c, t ++ [(n % 10).digitChar], rfl, fun h => ?_, hc, fun d hd => ?_⟩
      · -- a leading zero is the number zero
        have hval := Nat.ofDigitChars_ten_toDigits (n := n / 10)
        rw [heq, h, hzero h] at hval
        have hpos : n / 10 = 0 := hval.symm
        omega
      · exact hdigit d (List.mem_cons_of_mem _ hd)

/-- **A number written in decimals** is taken as a whole, and is the same number. -/
theorem numberParts_intText (n : Int) : (numberParts (intText n)).toInt = n ∧
    (numberParts (intText n)).integer ≠ [] ∧ (numberParts (intText n)).frac = [] ∧
    (numberParts (intText n)).expo = [] ∧ (numberParts (intText n)).rest = [] := by
  have hinteger : ∀ n : Nat, integerPart (Nat.toDigits 10 n) = (Nat.toDigits 10 n, []) := by
    intro n
    obtain ⟨c, t, heq, hzero, hc, ht⟩ := toDigits_head n
    rw [heq]
    by_cases h : c = '0'
    · rw [h, hzero h]
      rfl
    · have hall : ∀ d ∈ c :: t, d.isDigit = true := fun d hd =>
        (List.mem_cons.mp hd).elim (fun hd => hd ▸ hc) (ht d)
      refine (if_neg h).trans ?_
      unfold digits
      rw [List.takeWhile_eq_self_iff.mpr hall, List.dropWhile_eq_nil_iff.mpr hall]
  have hne : Nat.toDigits 10 n.natAbs ≠ [] := Nat.toDigits_ne_nil
  by_cases hneg : n < 0
  · have hparts : numberParts (intText n) = ⟨['-'], Nat.toDigits 10 n.natAbs, [], [], []⟩ := by
      have hminus : minusSign ('-' :: Nat.toDigits 10 n.natAbs) =
          (['-'], Nat.toDigits 10 n.natAbs) := rfl
      unfold numberParts intText
      rw [if_pos hneg, hminus]
      dsimp only
      rw [hinteger]
      rfl
    rw [hparts]
    refine ⟨?_, hne, rfl, rfl, rfl⟩
    show -((Nat.ofDigitChars 10 (Nat.toDigits 10 n.natAbs) 0 : Nat) : Int) = n
    rw [Nat.ofDigitChars_ten_toDigits]
    omega
  · have hparts : numberParts (intText n) = ⟨[], Nat.toDigits 10 n.natAbs, [], [], []⟩ := by
      obtain ⟨c, t, heq, hzero, hc, ht⟩ := toDigits_head n.natAbs
      have hminus : minusSign (Nat.toDigits 10 n.natAbs) = ([], Nat.toDigits 10 n.natAbs) := by
        rw [heq]
        refine if_neg fun h => ?_
        rw [h] at hc
        cases hc
      unfold numberParts intText
      rw [if_neg hneg, hminus]
      dsimp only
      rw [hinteger]
      rfl
    rw [hparts]
    refine ⟨?_, hne, rfl, rfl, rfl⟩
    show ((Nat.ofDigitChars 10 (Nat.toDigits 10 n.natAbs) 0 : Nat) : Int) = n
    rw [Nat.ofDigitChars_ten_toDigits]
    omega

end Lib.JsonText
