/-
  File:      CccStorage/ControlLines.lean
  Subject:   The control socket: its messages (`core/protocol.py`), the server's connections
             (`mountd/control.py`) and the client's calls (`cli/main.py`).

  A message is one line of JSON. Both sides collect chunks up to the first that holds a line feed,
  and decode all they have collected: also what came after the line feed in that chunk.

  * `Request`, `Response`, `encodeRequest`, `decodeRequest`, .. -- the messages and their lines;
  * `readLine`, `handleConn` -- a connection of the server;
  * `decodeRequest_line` -- exactly when a line with something after it is decoded as sent;
  * `decodeRequest_cut` -- nothing is decoded of a line that is cut short;
  * `request_readAsSent_iff` -- both, for every way the line comes in.
-/
import CccStorage.Passes
import CccStorage.Lib.JsonText

namespace CccStorage.Control

open Lib.JsonText (PyText pyText codePoint Json PyFloats dictOf dumps loads joined NoPairs Unpaired
  Canonical joinPairs skipWs joinedMembers)

/-! ## 1. Messages -/

def PROTOCOL_VERSION : Int := 1

/-- A dictionary whose values are JSON. -/
abbrev Payload (F : Type) := List (PyText × Json F)

structure Request (F : Type) where
  command : PyText
  path : PyText := []
  payload : Payload F := []
  version : Int := PROTOCOL_VERSION

structure Response (F : Type) where
  ok : Bool
  result : Payload F := []
  error : PyText := []
  code : PyText := []
  version : Int := PROTOCOL_VERSION

/-- What decoding a message or dispatching a request raises, with its text. -/
inductive WireError where
  /-- `ProtocolError` -/
  | protocol (text : PyText)
  /-- Any other exception. -/
  | internal (text : PyText)
  deriving DecidableEq

/-- What the built-ins make of a value, and the texts of their exceptions. -/
structure WireTexts (F : Type) where
  /-- `str` of a `JSONDecodeError`. -/
  jsonError : List Char → PyText
  /-- `str` of a `UnicodeDecodeError`. -/
  unicodeError : List UInt8 → PyText
  /-- `int(x)` of a value that is no integer. -/
  intOf : Json F → Except PyText Int
  /-- `str(x)` of a value that is no string. -/
  shown : Json F → PyText
  /-- `bool(x)` of a value that is no truth value. -/
  truthy : Json F → Bool

section

variable {F : Type} (py : PyFloats F) (texts : WireTexts F)

/-- `Request.to_dict`. -/
def Request.toDict (r : Request F) : Json F :=
  .obj (dictOf [(pyText "version", .int r.version), (pyText "command", .str r.command),
    (pyText "path", .str r.path), (pyText "payload", .obj r.payload)])

/-- `Response.to_dict`. -/
def Response.toDict (r : Response F) : Json F :=
  .obj (dictOf [(pyText "version", .int r.version), (pyText "ok", .bool r.ok),
    (pyText "result", .obj r.result), (pyText "error", .str r.error), (pyText "code", .str r.code)])

def intValue : Json F → Except WireError Int
  | .int n => .ok n
  | v => match texts.intOf v with
    | .ok n => .ok n
    | .error text => .error (.internal text)

def strValue : Json F → PyText
  | .str s => s
  | v => texts.shown v

def boolValue : Json F → Bool
  | .bool b => b
  | v => texts.truthy v

/-- `_check_version`. -/
def checkVersion (version : Int) : Except WireError Unit :=
  if version > PROTOCOL_VERSION then
    .error (.protocol (pyText ("protocol version " ++ toString version ++
      " is newer than supported " ++ toString PROTOCOL_VERSION)))
  else if version < 1 then
    .error (.protocol (pyText ("invalid protocol version " ++ toString version)))
  else .ok ()

/-- `data.get(key, default)`. -/
def getItem (data : Payload F) (key : String) (default : Json F) : Json F :=
  (data.lookup (pyText key)).getD default

/-- `Request.from_dict`. -/
def requestFromDict (data : Payload F) : Except WireError (Request F) := do
  let version ← intValue texts (getItem data "version" (.int 0))
  checkVersion version
  let command := strValue texts (getItem data "command" (.str []))
  if command = [] then throw (.protocol (pyText "missing command"))
  else
    match getItem data "payload" (.obj []) with
    | .obj payload =>
      return { command, path := strValue texts (getItem data "path" (.str [])), payload, version }
    | _ => throw (.protocol (pyText "payload must be an object"))

/-- `text.encode()` -/
def encodeText (text : List Char) : List UInt8 := text.flatMap String.utf8EncodeChar

/-- `data.decode()` -/
def decodeText (data : List UInt8) : Option (List Char) :=
  data.toByteArray.utf8Decode?.map fun text => text.toList

/-- A dumped value and a line feed. -/
def encodeLine (v : Json F) : List UInt8 := encodeText (dumps py v ++ ['\n'])

def encodeRequest (r : Request F) : List UInt8 := encodeLine py r.toDict

def encodeResponse (r : Response F) : List UInt8 := encodeLine py r.toDict

/-- `_loads_line`. -/
def loadsLine (data : List UInt8) : Except WireError (Payload F) :=
  match decodeText data with
  | none => .error (.internal (texts.unicodeError data))
  | some text =>
    let stripped := (strip (String.ofList text)).toList
    match loads py stripped with
    | none => .error (.protocol (texts.jsonError stripped))
    | some (.obj data) => .ok data
    | some _ => .error (.protocol (pyText "message must be a JSON object"))

def decodeRequest (data : List UInt8) : Except WireError (Request F) := do
  requestFromDict texts (← loadsLine py texts data)

/-- `b"\n"` -/
def newline : UInt8 := 10

/-- `_read_line` of the chunks `recv` gives; an empty one says that the connection is closed. -/
def readLine : List (List UInt8) → List UInt8
  | [] => []
  | chunk :: chunks =>
    if chunk = [] then []
    else if newline ∈ chunk then chunk
    else chunk ++ readLine chunks

/-- The response to what is read. -/
def respond (handler : Request F → Except WireError (Response F)) (data : List UInt8) :
    Response F :=
  match (do handler (← decodeRequest py texts data)) with
  | .ok response => response
  | .error (.protocol text) => { ok := false, error := text, code := pyText "EPROTO" }
  | .error (.internal text) => { ok := false, error := text, code := pyText "EINTERNAL" }

/-- `ControlServer._handle_conn`: what is sent back, if anything. -/
def handleConn (handler : Request F → Except WireError (Response F))
    (chunks : List (List UInt8)) : Option (List UInt8) :=
  let data := readLine chunks
  if data = [] then none else some (encodeResponse py (respond py texts handler data))

end

/-! ## 4. The text of a line -/

/-- **What was encoded is decoded**, and what follows it after it. -/
theorem decodeText_append (text : List Char) (data : List UInt8) :
    decodeText (encodeText text ++ data) = (decodeText data).map fun rest => text ++ rest := by
  induction text with
  | nil =>
      show decodeText data = _
      cases decodeText data <;> rfl
  | cons c text ih =>
      have hone : (encodeText (c :: text) ++ data).toByteArray =
          [c].utf8Encode ++ (encodeText text ++ data).toByteArray := by
        rw [List.utf8Encode_singleton, ← List.toByteArray_append]
        show ((String.utf8EncodeChar c ++ encodeText text) ++ data).toByteArray = _
        rw [List.append_assoc]
      unfold decodeText at ih ⊢
      rw [hone, ByteArray.utf8Decode?_utf8Encode_singleton_append, Option.map_map]
      have hcons : ∀ x : Option (Array Char),
          x.map ((fun text => text.toList) ∘ fun rest => #[c] ++ rest) =
            (x.map fun text => text.toList).map fun rest => c :: rest := by
        intro x
        cases x <;> simp
      rw [hcons, ih, Option.map_map]
      cases data.toByteArray.utf8Decode? <;> rfl

theorem decodeText_encode (text : List Char) : decodeText (encodeText text) = some text := by
  have hempty : decodeText [] = some [] := by
    show (ByteArray.empty.utf8Decode?).map _ = _
    rw [ByteArray.utf8Decode?_empty]
    rfl
  have happ := decodeText_append text []
  rwa [List.append_nil, hempty, Option.map_some, List.append_nil] at happ

/-- A printable character is one byte, and no line feed. -/
theorem utf8_printable {c : Char} (h : Lib.JsonText.isPrintable c = true) :
    String.utf8EncodeChar c = [c.val.toUInt8] ∧ c.val.toUInt8 ≠ newline := by
  simp only [Lib.JsonText.isPrintable, Bool.and_eq_true, decide_eq_true_eq] at h
  have hval : c.val.toNat = c.toNat := rfl
  refine ⟨String.utf8EncodeChar_eq_singleton ?_, fun heq => ?_⟩
  · rw [Char.utf8Size_eq_one_iff, UInt32.le_iff_toNat_le]
    exact le_trans h.2 (by decide)
  · have hnat := congrArg UInt8.toNat heq
    rw [UInt32.toNat_toUInt8, hval, Nat.mod_eq_of_lt (by omega)] at hnat
    have hten : newline.toNat = 10 := rfl
    omega

theorem newline_notMem {text : List Char}
    (h : ∀ c ∈ text, Lib.JsonText.isPrintable c = true) : newline ∉ encodeText text := by
  intro hmem
  obtain ⟨c, hc, hbyte⟩ := List.mem_flatMap.mp hmem
  obtain ⟨hone, hne⟩ := utf8_printable (h c hc)
  rw [hone] at hbyte
  exact hne (List.mem_singleton.mp hbyte).symm

/-- Bytes cut off a printable text are those of its beginning. -/
theorem encodeText_split {text : List Char}
    (h : ∀ c ∈ text, Lib.JsonText.isPrintable c = true) {data rest : List UInt8}
    (hcut : data ++ rest = encodeText text) :
    ∃ s q, text = s ++ q ∧ data = encodeText s ∧ rest = encodeText q := by
  induction data generalizing text with
  | nil => exact ⟨[], text, rfl, rfl, hcut⟩
  | cons b data ih =>
      cases text with
      | nil => cases hcut
      | cons c text =>
        have hone : encodeText (c :: text) = c.val.toUInt8 :: encodeText text := by
          show String.utf8EncodeChar c ++ encodeText text = _
          rw [(utf8_printable (h c List.mem_cons_self)).1]
          rfl
        rw [hone] at hcut
        obtain ⟨hb, hrest⟩ := List.cons.inj hcut
        obtain ⟨s, q, rfl, rfl, rfl⟩ := ih (fun d hd => h d (List.mem_cons_of_mem c hd)) hrest
        refine ⟨c :: s, q, rfl, ?_, rfl⟩
        show b :: encodeText s = String.utf8EncodeChar c ++ encodeText s
        rw [(utf8_printable (h c List.mem_cons_self)).1, hb]
        rfl

theorem encodeText_append (s t : List Char) :
    encodeText (s ++ t) = encodeText s ++ encodeText t := List.flatMap_append

section Lines

variable {F : Type} (py : PyFloats F) (texts : WireTexts F) {v : Json F}

/-- **A line ends at its only line feed.** -/
theorem encodeLine_eq (v : Json F) :
    encodeLine py v = encodeText (dumps py v) ++ [newline] ∧ newline ∉ encodeText (dumps py v) :=
  ⟨encodeText_append _ _, newline_notMem (Lib.JsonText.dumps_printable py v)⟩

theorem dropSpace_of_not {c : Char} (h : isSpace c = false) (s : List Char) :
    (c :: s).dropWhile isSpace = c :: s :=
  List.dropWhile_cons_of_neg (by rw [h]; decide)

theorem strip_toList (s : List Char) : (strip (String.ofList s)).toList =
    ((s.dropWhile isSpace).reverse.dropWhile isSpace).reverse := by
  unfold strip
  rw [String.toList_ofList, String.toList_ofList]

/-- An object's text has a brace at either end. -/
theorem dumps_obj (members : Payload F) :
    ∃ body, dumps py (.obj members) = '{' :: (body ++ ['}']) := by
  have hmembers : ∀ ms : Payload F, ∃ body, Lib.JsonText.dumpsMembers py ms = body ++ ['}'] := by
    intro ms
    induction ms with
    | nil => exact ⟨[], rfl⟩
    | cons m ms ih =>
        obtain ⟨body, hbody⟩ := ih
        rw [Lib.JsonText.dumpsMembers, hbody]
        exact ⟨',' :: ' ' :: (Lib.JsonText.quote m.1 ++ ':' :: ' ' :: (dumps py m.2 ++ body)),
          by simp⟩
  cases members with
  | nil => exact ⟨[], rfl⟩
  | cons m ms =>
      obtain ⟨body, hbody⟩ := hmembers ms
      rw [dumps, hbody]
      exact ⟨Lib.JsonText.quote m.1 ++ ':' :: ' ' :: (dumps py m.2 ++ body), by simp⟩

/-- White space after the text is stripped. -/
theorem strip_blank {body e : List Char} (he : ∀ c ∈ e, isSpace c = true) :
    (strip (String.ofList ('{' :: (body ++ ['}']) ++ e))).toList = '{' :: (body ++ ['}']) := by
  rw [strip_toList, List.cons_append, dropSpace_of_not rfl, ← List.cons_append,
    List.reverse_append, List.dropWhile_append_of_pos fun c hc => he c (List.mem_reverse.mp hc),
    List.reverse_cons, List.reverse_append]
  show ((('}' :: (body.reverse ++ ['{'])).dropWhile isSpace)).reverse = _
  rw [dropSpace_of_not rfl]
  simp

/-- Of anything else something stays. -/
theorem strip_extra {body e : List Char} (he : ¬∀ c ∈ e, isSpace c = true) :
    ∃ e', (strip (String.ofList ('{' :: (body ++ ['}']) ++ '\n' :: e))).toList =
      '{' :: (body ++ ['}']) ++ '\n' :: e' ∧ skipWs ('\n' :: e') ≠ [] := by
  have hnone : e.reverse.dropWhile isSpace ≠ [] := by
    intro hnil
    refine he fun c hc => ?_
    exact List.dropWhile_eq_nil_iff.mp hnil c (List.mem_reverse.mpr hc)
  refine ⟨(e.reverse.dropWhile isSpace).reverse, ?_, fun hnil => ?_⟩
  · have hempty : (e.reverse.dropWhile isSpace).isEmpty = false := by
      rw [List.isEmpty_eq_false_iff]
      exact hnone
    rw [strip_toList, List.cons_append, dropSpace_of_not rfl, ← List.cons_append,
      List.reverse_append, List.reverse_cons, List.append_assoc, List.dropWhile_append, hempty]
    simp
  · have hall := List.dropWhile_eq_nil_iff.mp hnil
    have hhead := List.head_dropWhile_not isSpace hnone
    have hmem := hall _ (List.mem_cons_of_mem '\n' (List.mem_reverse.mpr (List.head_mem hnone)))
    simp only [Lib.JsonText.isWs, Bool.or_eq_true, decide_eq_true_eq] at hmem
    rcases hmem with ((h | h) | h) | h <;> rw [h] at hhead <;> cases hhead

/-- A beginning of the text is stripped to a beginning. -/
theorem strip_prefix {c : Char} (hc : isSpace c = false) (s : List Char) :
    (strip (String.ofList (c :: s))).toList <+: c :: s := by
  rw [strip_toList, dropSpace_of_not hc]
  have hsuffix := List.dropWhile_suffix isSpace (l := (c :: s).reverse)
  rw [← List.reverse_prefix, List.reverse_reverse] at hsuffix
  exact hsuffix

/-- A line with white space after it is loaded as its dictionary, its pairs joined. -/
theorem loadsLine_blank (members : Payload F) {rest : List UInt8} {text : List Char}
    (htext : decodeText rest = some text) (hblank : ∀ c ∈ text, isSpace c = true) :
    loadsLine py texts (encodeLine py (.obj members) ++ rest) =
      .ok (dictOf (joinedMembers members)) := by
  obtain ⟨body, hbody⟩ := dumps_obj py members
  have hdecode : decodeText (encodeLine py (.obj members) ++ rest) =
      some (dumps py (.obj members) ++ ['\n'] ++ text) := by
    unfold encodeLine
    rw [decodeText_append, htext, Option.map_some]
  have hstrip : (strip (String.ofList (dumps py (.obj members) ++ ['\n'] ++ text))).toList =
      dumps py (.obj members) := by
    rw [List.append_assoc, hbody]
    refine strip_blank fun c hc => ?_
    rcases List.mem_append.mp hc with hc | hc
    · rw [List.mem_singleton.mp hc]
      rfl
    · exact hblank c hc
  have hread := Lib.JsonText.loads_dumps py (.obj members) (s := []) rfl
  rw [List.append_nil] at hread
  unfold loadsLine
  rw [hdecode]
  dsimp only
  rw [hstrip, hread]
  rfl

/-- The text alone is loaded likewise. -/
theorem loadsLine_text (members : Payload F) :
    loadsLine py texts (encodeText (dumps py (.obj members))) =
      .ok (dictOf (joinedMembers members)) := by
  obtain ⟨body, hbody⟩ := dumps_obj py members
  have hstrip : (strip (String.ofList (dumps py (.obj members) ++ []))).toList =
      dumps py (.obj members) := by
    rw [hbody]
    exact strip_blank nofun
  have hread := Lib.JsonText.loads_dumps py (.obj members) (s := []) rfl
  rw [List.append_nil] at hstrip hread
  unfold loadsLine
  rw [decodeText_encode]
  dsimp only
  rw [hstrip, hread]
  rfl

/-- A line with anything else after it is not loaded. -/
theorem loadsLine_extra (members : Payload F) {rest : List UInt8}
    (h : ∀ text, decodeText rest = some text → ¬∀ c ∈ text, isSpace c = true) :
    ∃ e, loadsLine py texts (encodeLine py (.obj members) ++ rest) = .error e := by
  have hdecode : decodeText (encodeLine py (.obj members) ++ rest) =
      (decodeText rest).map fun text => dumps py (.obj members) ++ ['\n'] ++ text :=
    decodeText_append _ _
  unfold loadsLine
  rw [hdecode]
  cases htext : decodeText rest with
  | none => exact ⟨_, rfl⟩
  | some text =>
    obtain ⟨body, hbody⟩ := dumps_obj py members
    obtain ⟨e', hstrip, hrest⟩ : ∃ e', (strip (String.ofList
        ('{' :: (body ++ ['}']) ++ '\n' :: text))).toList =
          '{' :: (body ++ ['}']) ++ '\n' :: e' ∧ skipWs ('\n' :: e') ≠ [] :=
      strip_extra (h text htext)
    have hloads := Lib.JsonText.loads_extra py (.obj members) hrest (fun c hc => by
      rw [← Option.some.inj hc]
      rfl)
    rw [hbody] at hloads
    rw [Option.map_some, List.append_assoc, List.singleton_append, hbody]
    dsimp only
    rw [hstrip, hloads]
    exact ⟨_, rfl⟩

/-- **Nothing is loaded of a line that is cut short**; only its line feed may be missing. -/
theorem loadsLine_cut (members : Payload F) {data rest : List UInt8}
    (hcut : data ++ rest = encodeText (dumps py (.obj members))) {d : Payload F}
    (h : loadsLine py texts data = .ok d) : rest = [] ∧ d = dictOf (joinedMembers members) := by
  obtain ⟨s, q, htext, rfl, rfl⟩ :=
    encodeText_split (Lib.JsonText.dumps_printable py (.obj members)) hcut
  obtain ⟨loaded, hloads⟩ : ∃ loaded, loads py (strip (String.ofList s)).toList =
      some (.obj loaded) := by
    unfold loadsLine at h
    rw [decodeText_encode] at h
    dsimp only at h
    cases hload : loads py (strip (String.ofList s)).toList with
    | none => rw [hload] at h; cases h
    | some v =>
      rw [hload] at h
      cases v with
      | obj loaded => exact ⟨loaded, rfl⟩
      | _ => cases h
  obtain ⟨t, ht⟩ : (strip (String.ofList s)).toList <+: s := by
    cases s with
    | nil => exact List.nil_prefix
    | cons c s =>
      obtain ⟨body, hbody⟩ := dumps_obj py members
      rw [hbody] at htext
      have hc : c = '{' := (List.cons.inj htext).1.symm
      exact strip_prefix (by rw [hc]; rfl) s
  have hwhole : (strip (String.ofList s)).toList ++ (t ++ q) = dumps py (.obj members) := by
    rw [← List.append_assoc, ht, htext]
  obtain ⟨rfl, rfl⟩ := List.append_eq_nil_iff.mp
    (Lib.JsonText.loads_cut py (.obj members) hwhole hloads rfl)
  rw [List.append_nil] at htext
  rw [← htext, loadsLine_text] at h
  exact ⟨rfl, (Except.ok.inj h).symm⟩

end Lines

section Requests

variable {F : Type} (py : PyFloats F) (texts : WireTexts F) {r : Request F}

theorem Request.toDict_eq (r : Request F) : r.toDict = .obj [(pyText "command", .str r.command),
    (pyText "path", .str r.path), (pyText "payload", .obj r.payload),
    (pyText "version", .int r.version)] := rfl

/-- The request with the surrogate pairs of its strings joined. -/
def joinedRequest (r : Request F) : Request F where
  command := joinPairs r.command
  path := joinPairs r.path
  payload := dictOf (joinedMembers r.payload)
  version := r.version

theorem joined_toDict (r : Request F) : joined r.toDict = (joinedRequest r).toDict := rfl

theorem toDict_inj {r r' : Request F} (h : r.toDict = r'.toDict) : r = r' := by
  rw [Request.toDict_eq, Request.toDict_eq] at h
  obtain ⟨command, path, payload, version⟩ := r
  obtain ⟨command', path', payload', version'⟩ := r'
  simp only [Json.obj.injEq, List.cons.injEq, Prod.mk.injEq, Json.str.injEq, Json.int.injEq,
    true_and, and_true] at h
  obtain ⟨rfl, rfl, rfl, rfl⟩ := h
  rfl

theorem requestFromDict_toDict {r : Request F} (hversion : r.version = 1)
    (hcommand : r.command ≠ []) {data : Payload F} (h : r.toDict = .obj data) :
    requestFromDict texts data = .ok r := by
  rw [Request.toDict_eq, Json.obj.injEq] at h
  subst h
  obtain ⟨command, path, payload, version⟩ := r
  subst hversion
  show (if command = [] then _ else _) = _
  rw [if_neg hcommand]
  rfl

theorem joinPairs_ne_nil {s : PyText} (h : s ≠ []) : joinPairs s ≠ [] := by
  rcases s with _ | ⟨a, _ | ⟨b, s⟩⟩
  · exact absurd rfl h
  · exact List.cons_ne_nil _ _
  · rw [joinPairs]
    split <;> exact List.cons_ne_nil _ _

/-- The request is canonical where its payload is. -/
theorem canonical_toDict (h : Canonical (.obj r.payload)) : Canonical r.toDict := by
  rw [Request.toDict_eq]
  have hkeys : List.Pairwise (· < ·)
      [pyText "command", pyText "path", pyText "payload", pyText "version"] := by decide
  exact ⟨hkeys, trivial, trivial, h, trivial, trivial⟩

/-- Where the joined request's dictionary is loaded, it is decoded. -/
theorem decodeRequest_of (hversion : r.version = 1) (hcommand : r.command ≠ [])
    {data : List UInt8} {members : Payload F} (hmembers : r.toDict = .obj members)
    (hloads : loadsLine py texts data = .ok (dictOf (joinedMembers members))) :
    decodeRequest py texts data = .ok (joinedRequest r) := by
  unfold decodeRequest
  rw [hloads]
  refine requestFromDict_toDict (r := joinedRequest r) texts hversion
    (joinPairs_ne_nil hcommand) ?_
  rw [← joined_toDict, hmembers]
  rfl

/-- **A line with white space after it** is decoded to the request, its pairs joined. -/
theorem decodeRequest_blank (hversion : r.version = 1) (hcommand : r.command ≠ [])
    {rest : List UInt8} {text : List Char} (htext : decodeText rest = some text)
    (hblank : ∀ c ∈ text, isSpace c = true) :
    decodeRequest py texts (encodeRequest py r ++ rest) = .ok (joinedRequest r) :=
  decodeRequest_of py texts hversion hcommand r.toDict_eq
    (loadsLine_blank py texts _ htext hblank)

/-- The text alone is decoded likewise. -/
theorem decodeRequest_text (hversion : r.version = 1) (hcommand : r.command ≠ []) :
    decodeRequest py texts (encodeText (dumps py r.toDict)) = .ok (joinedRequest r) :=
  decodeRequest_of py texts hversion hcommand r.toDict_eq (loadsLine_text py texts _)

/-- **A line with anything else after it** is not decoded. -/
theorem decodeRequest_extra {rest : List UInt8}
    (h : ∀ text, decodeText rest = some text → ¬∀ c ∈ text, isSpace c = true) (r' : Request F) :
    decodeRequest py texts (encodeRequest py r ++ rest) ≠ .ok r' := by
  obtain ⟨e, he⟩ : ∃ e, loadsLine py texts (encodeRequest py r ++ rest) = .error e :=
    loadsLine_extra py texts _ h
  unfold decodeRequest
  rw [he]
  nofun

/-- **Nothing is decoded of a line that is cut short**, and without the line feed the same request
    is. -/
theorem decodeRequest_cut (hversion : r.version = 1) (hcommand : r.command ≠ [])
    {data rest : List UInt8} (hcut : data ++ rest = encodeText (dumps py r.toDict)) {r' : Request F}
    (h : decodeRequest py texts data = .ok r') : rest = [] ∧ r' = joinedRequest r := by
  cases hload : loadsLine py texts data with
  | error e =>
    unfold decodeRequest at h
    rw [hload] at h
    cases h
  | ok d =>
    rw [Request.toDict_eq] at hcut
    obtain ⟨hrest, hd⟩ := loadsLine_cut py texts _ hcut hload
    rw [hd] at hload
    rw [decodeRequest_of py texts hversion hcommand r.toDict_eq hload] at h
    exact ⟨hrest, (Except.ok.inj h).symm⟩

end Requests

/-! ## 5. The chunks of a connection -/

/-- What the chunk with the first line feed holds after it. -/
def restOfChunk (chunks : List (List UInt8)) : List UInt8 :=
  match chunks.find? fun chunk => newline ∈ chunk with
  | some chunk => (chunk.dropWhile fun b => b ≠ newline).tail
  | none => []

/-- **What is collected of a line** is the line, and the rest of its last chunk. -/
theorem readLine_line {chunks : List (List UInt8)} (hchunks : ∀ chunk ∈ chunks, chunk ≠ [])
    {line trailing : List UInt8} (hline : newline ∉ line)
    (hflat : chunks.flatten = line ++ newline :: trailing) :
    readLine chunks = line ++ newline :: restOfChunk chunks := by
  induction chunks generalizing line with
  | nil => exact absurd hflat (by simp)
  | cons chunk chunks ih =>
      rw [readLine, if_neg (hchunks chunk List.mem_cons_self)]
      rw [List.flatten_cons] at hflat
      unfold restOfChunk
      by_cases hmem : newline ∈ chunk
      · rw [if_pos hmem, List.find?_cons_of_pos (by simpa using hmem)]
        obtain ⟨a, b, rfl, ha⟩ := List.eq_append_cons_of_mem hmem
        have hnot : ∀ l : List UInt8, newline ∉ l → ∀ x ∈ l, decide (x ≠ newline) = true :=
          fun l hl x hx => decide_eq_true fun heq => hl (heq ▸ hx)
        have hstop : ∀ (l m : List UInt8), newline ∉ l →
            (l ++ newline :: m).takeWhile (fun b => decide (b ≠ newline)) = l := by
          intro l m hl
          rw [List.takeWhile_append_of_pos (hnot l hl), List.takeWhile_cons_of_neg (by simp),
            List.append_nil]
        have hfirst := congrArg (List.takeWhile fun b => decide (b ≠ newline)) hflat
        rw [List.append_assoc, List.cons_append, hstop a _ ha, hstop line _ hline] at hfirst
        dsimp only
        rw [List.dropWhile_append_of_pos (hnot a ha), List.dropWhile_cons_of_neg (by simp), hfirst]
        rfl
      · rw [if_neg hmem, List.find?_cons_of_neg (by simpa using hmem)]
        rcases List.append_eq_append_iff.mp hflat with ⟨l, hl, hrest⟩ | ⟨l, hl, hrest⟩
        · subst hl
          rw [List.mem_append, not_or] at hline
          rw [ih (fun c hc => hchunks c (List.mem_cons_of_mem chunk hc)) hline.2 hrest,
            List.append_assoc]
          rfl
        · cases l with
          | nil =>
            rw [List.append_nil] at hl
            have hempty : newline ∉ ([] : List UInt8) := List.not_mem_nil
            rw [ih (fun c hc => hchunks c (List.mem_cons_of_mem chunk hc)) hempty hrest.symm, hl]
            rfl
          | cons b l =>
            rw [hl, ← (List.cons.inj hrest).1] at hmem
            exact absurd (List.mem_append_right line List.mem_cons_self) hmem

/-- **What is collected without a line feed** is all there is. -/
theorem readLine_cut {chunks : List (List UInt8)} (hchunks : ∀ chunk ∈ chunks, chunk ≠ [])
    (hline : newline ∉ chunks.flatten) : readLine chunks = chunks.flatten := by
  induction chunks with
  | nil => rfl
  | cons chunk chunks ih =>
      rw [List.flatten_cons, List.mem_append, not_or] at hline
      rw [readLine, if_neg (hchunks chunk List.mem_cons_self), if_neg hline.1, List.flatten_cons,
        ih (fun c hc => hchunks c (List.mem_cons_of_mem chunk hc)) hline.2]

section Connections

variable {F : Type} (py : PyFloats F) (texts : WireTexts F)
  (handler : Request F → Except WireError (Response F)) (r : Request F)

/-- One line: a line feed, and none before it. -/
def OneLine (data : List UInt8) : Prop := ∃ text, data = text ++ [newline] ∧ newline ∉ text

/-- What the handler makes of the request, as a response. -/
def answer : Response F :=
  match handler r with
  | .ok response => response
  | .error (.protocol text) => { ok := false, error := text, code := pyText "EPROTO" }
  | .error (.internal text) => { ok := false, error := text, code := pyText "EINTERNAL" }

/-- **A request is read as sent**: exactly it is decoded, and answered with one line. -/
structure ReadAsSent (chunks : List (List UInt8)) : Prop where
  decoded : decodeRequest py texts (readLine chunks) = .ok r
  answered : handleConn py texts handler chunks = some (encodeResponse py (answer handler r))
  line : OneLine (encodeResponse py (answer handler r))

/-- Nothing but white space is in the chunk after the line feed. -/
def BlankRest (chunks : List (List UInt8)) : Prop :=
  ∃ text, decodeText (restOfChunk chunks) = some text ∧ ∀ c ∈ text, isSpace c = true

variable {py texts handler r}

theorem respond_of {data : List UInt8} (h : decodeRequest py texts data = .ok r) :
    respond py texts handler data = answer handler r := by
  unfold respond answer
  rw [h]
  rfl

/-- Where the request is decoded, it is answered. -/
theorem readAsSent_iff {chunks : List (List UInt8)} :
    ReadAsSent py texts handler r chunks ↔ decodeRequest py texts (readLine chunks) = .ok r := by
  refine ⟨fun h => h.decoded, fun h => ⟨h, ?_, _, encodeLine_eq py _⟩⟩
  have hne : readLine chunks ≠ [] := by
    intro hnil
    rw [hnil] at h
    have hempty : decodeText [] = some [] := decodeText_encode []
    unfold decodeRequest loadsLine at h
    rw [hempty] at h
    cases h
  unfold handleConn
  dsimp only
  rw [if_neg hne, respond_of h]

/-- **A line is read as sent** exactly when nothing but white space follows it in its last chunk,
    and no string of it holds a surrogate pair. -/
theorem readAsSent_line (hversion : r.version = 1) (hcommand : r.command ≠ [])
    (hpayload : Canonical (.obj r.payload)) {chunks : List (List UInt8)}
    (hchunks : ∀ chunk ∈ chunks, chunk ≠ []) {trailing : List UInt8}
    (hflat : chunks.flatten = encodeRequest py r ++ trailing) :
    ReadAsSent py texts handler r chunks ↔ BlankRest chunks ∧ NoPairs r.toDict := by
  have hread : readLine chunks = encodeRequest py r ++ restOfChunk chunks := by
    obtain ⟨hline, hnot⟩ := encodeLine_eq py r.toDict
    unfold encodeRequest at hflat ⊢
    rw [hline, List.append_assoc] at hflat ⊢
    exact readLine_line hchunks hnot hflat
  have hjoined : joinedRequest r = r ↔ NoPairs r.toDict := by
    rw [← Lib.JsonText.joined_eq_iff (canonical_toDict hpayload), joined_toDict]
    exact ⟨fun h => by rw [h], toDict_inj⟩
  rw [readAsSent_iff, hread, ← hjoined]
  by_cases hblank : BlankRest chunks
  · obtain ⟨text, htext, hspace⟩ := hblank
    rw [decodeRequest_blank py texts hversion hcommand htext hspace, Except.ok.injEq]
    exact ⟨fun h => ⟨⟨text, htext, hspace⟩, h⟩, fun h => h.2⟩
  · refine ⟨fun h => absurd h ?_, fun h => absurd h.1 hblank⟩
    exact decodeRequest_extra py texts (fun text htext hspace => hblank ⟨text, htext, hspace⟩) r

/-- **Of a line that is cut short** no other request is decoded, unless only the line feed is
    missing and a string holds a surrogate pair. -/
theorem readLine_cut_iff (hversion : r.version = 1) (hcommand : r.command ≠ [])
    (hpayload : Canonical (.obj r.payload)) {chunks : List (List UInt8)}
    (hchunks : ∀ chunk ∈ chunks, chunk ≠ [])
    (hcut : chunks.flatten <+: encodeText (dumps py r.toDict)) :
    (∀ r', decodeRequest py texts (readLine chunks) = .ok r' → r' = r) ↔
      NoPairs r.toDict ∨ chunks.flatten ≠ encodeText (dumps py r.toDict) := by
  obtain ⟨rest, hrest⟩ := hcut
  have hnot := newline_notMem (Lib.JsonText.dumps_printable py r.toDict)
  rw [← hrest, List.mem_append, not_or] at hnot
  have hjoined : joinedRequest r = r ↔ NoPairs r.toDict := by
    rw [← Lib.JsonText.joined_eq_iff (canonical_toDict hpayload), joined_toDict]
    exact ⟨fun h => by rw [h], toDict_inj⟩
  rw [readLine_cut hchunks hnot.1, ← hjoined]
  constructor
  · intro h
    by_cases hwhole : chunks.flatten = encodeText (dumps py r.toDict)
    · left
      refine h _ ?_
      rw [hwhole]
      exact decodeRequest_text py texts hversion hcommand
    · exact .inr hwhole
  · intro h r' hr'
    obtain ⟨hnil, hsame⟩ := decodeRequest_cut py texts hversion hcommand hrest hr'
    rw [hnil, List.append_nil] at hrest
    rw [hsame]
    exact h.resolve_right (not_not.mpr hrest)

end Connections

/-- **Which lines are read as sent.** However the line of a request and what the client sends after
    it come in, the request is decoded and answered with one line exactly when the chunk with the
    line feed holds nothing but white space after it, and no string of the request holds a
    surrogate pair; and of a connection closed before the line feed another request is decoded only
    where nothing but the line feed is missing and a string holds such a pair. -/
theorem request_readAsSent_iff {F : Type} (py : PyFloats F) (texts : WireTexts F)
    (handler : Request F → Except WireError (Response F)) (r : Request F) (hversion : r.version = 1)
    (hcommand : r.command ≠ []) (hpayload : Canonical (.obj r.payload)) :
    (∀ chunks trailing, (∀ chunk ∈ chunks, chunk ≠ []) →
      chunks.flatten = encodeRequest py r ++ trailing →
      (ReadAsSent py texts handler r chunks ↔ BlankRest chunks ∧ NoPairs r.toDict)) ∧
    (∀ chunks, (∀ chunk ∈ chunks, chunk ≠ []) →
      chunks.flatten <+: encodeText (dumps py r.toDict) →
      ((∀ r', decodeRequest py texts (readLine chunks) = .ok r' → r' = r) ↔
        NoPairs r.toDict ∨ chunks.flatten ≠ encodeText (dumps py r.toDict))) :=
  ⟨fun _ _ hchunks hflat => readAsSent_line hversion hcommand hpayload hchunks hflat,
    fun _ hchunks hcut => readLine_cut_iff hversion hcommand hpayload hchunks hcut⟩

/-! A server with two floats, whose every request is answered with an empty result. -/

inductive TwoFloats where
  | zero
  | half
  deriving DecidableEq

def twoFloats : PyFloats TwoFloats where
  repr
    | .zero => "0.0".toList
    | .half => "0.5".toList
  ofText text := if text = "0.5".toList then .half else .zero
  whole := by
    intro x
    cases x <;> decide
  exact := by
    intro x
    cases x <;> decide

def plainTexts : WireTexts TwoFloats where
  jsonError _ := pyText "Extra data"
  unicodeError _ := pyText "invalid start byte"
  intOf _ := .error (pyText "int() argument must be a string or a real number")
  shown _ := pyText "None"
  truthy _ := false

def emptyAnswer (_ : Request TwoFloats) : Except WireError (Response TwoFloats) :=
  .ok { ok := true }

def statusRequest : Request TwoFloats :=
  { command := pyText "status", payload := [(pyText "wait", .float .half)] }

/-- The request's line, and another request's first byte after it. -/
def crowdedChunk : List UInt8 := encodeRequest twoFloats statusRequest ++ [123]

/-- A line that comes in with the chunk's end is read as sent, whatever is sent next. -/
theorem request_readAsSent_status :
    ReadAsSent twoFloats plainTexts emptyAnswer statusRequest
      [encodeRequest twoFloats statusRequest, crowdedChunk] :=
  ((request_readAsSent_iff twoFloats plainTexts emptyAnswer statusRequest rfl (by decide)
    ⟨by decide, trivial, trivial⟩).1 [encodeRequest twoFloats statusRequest, crowdedChunk]
    crowdedChunk (by decide) (by simp)).mpr
    ⟨⟨[], by rfl, nofun⟩, by
      rw [Request.toDict_eq]
      simp [NoPairs, Lib.JsonText.NoPairsMembers, statusRequest]
      decide⟩

/-- With one more byte in its chunk the same line is not decoded, and answered with an error. -/
theorem crowdedChunk_not_readAsSent :
    ¬ReadAsSent twoFloats plainTexts emptyAnswer statusRequest [crowdedChunk] := by
  rw [readAsSent_iff]
  have hread : readLine [crowdedChunk] = encodeRequest twoFloats statusRequest ++ [123] := by
    rfl
  rw [hread]
  refine decodeRequest_extra twoFloats plainTexts (fun text htext hspace => ?_) statusRequest
  have hbrace : decodeText [123] = some ['{'] := decodeText_encode ['{']
  rw [hbrace] at htext
  have hc := hspace '{' (Option.some.inj htext ▸ List.mem_singleton.mpr rfl)
  cases hc

end CccStorage.Control
