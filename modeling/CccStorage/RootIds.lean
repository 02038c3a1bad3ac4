/-
  File:      CccStorage/RootIds.lean
  Subject:   `initialize_observation_dir` on one directory by any number of callers, step by step.

  No call takes a lock. Each makes the state directories and tests for the file `root-id`; a call
  that finds it reads it, one that does not draws an id, truncates the file and writes the id to it
  in one or more pieces, and returns the id it drew.

  * `RootCall`, `rootStep` -- the steps of a call; every step may fail instead;
  * `SameRootId` -- the calls that have returned carry one id;
  * `TestsAlone` -- no call tests for the file while another is creating it;
  * `rootIds_agree` -- runs of such tests;
  * `bothCreate_disagree` -- two calls that test before either writes.
-/
import CccStorage.Passes
import CccStorage.Lib.Interleave

namespace CccStorage.RootIds

/-! ## 1. The steps of a call -/

def STATE_SUBDIRS : List String := ["registry", "packs", "overlays", "locks", "events"]

def ROOT_ID_FILE : String := "root-id"

def hexDigits : List Char :=
  ['0', '1', '2', '3', '4', '5', '6', '7', '8', '9', 'a', 'b', 'c', 'd', 'e', 'f']

/-- `uuid.uuid4().hex`. -/
structure HexId where
  text : String
  length : text.toList.length = 32
  hex : ∀ c ∈ text.toList, c ∈ hexDigits
  deriving DecidableEq

/-- `root_id + "\n"`. -/
def HexId.line (id : HexId) : List Char := id.text.toList ++ ['\n']

/-- Where a call is. -/
inductive RootCall where
  | idle
  /-- State directories still to make. -/
  | making (left : List String)
  /-- The file was there. -/
  | reading
  /-- It was not there. -/
  | creating (id : HexId)
  /-- The file is truncated; what is left is to be written at the offset. -/
  | writing (id : HexId) (offset : Nat) (left : List Char)
  | returned (rootId : String)
  /-- `ObservationError`. -/
  | raised (message : String)
  /-- Any other exception, or the node is gone. -/
  | failed
  deriving DecidableEq

namespace RootCall

/-- Between a test that found nothing and the end of the write. -/
def creates : RootCall → Bool
  | creating _ | writing _ _ _ => true
  | _ => false

/-- The call has found the file, or made it. -/
def settled : RootCall → Bool
  | reading | returned _ => true
  | _ => false

end RootCall

inductive RootAct where
  /-- `initialize_observation_dir(path, state_subdir=...)` -/
  | call (stateSubdir : String)
  | mkdir
  | test (drawn : HexId)
  | read
  | truncate
  | write (count : Nat)
  | close
  | fail
  deriving DecidableEq

/-- The directory: what is made in the state directory, and the text of `root-id`. -/
structure RootDir where
  made : List String
  rootId : Option (List Char)
  deriving DecidableEq

/-- `not state_subdir or "/" in state_subdir or state_subdir in {".", ".."}`. -/
def isStateSubdir (stateSubdir : String) : Bool :=
  stateSubdir ≠ "" && '/' ∉ stateSubdir.toList && stateSubdir ≠ "." && stateSubdir ≠ ".."

/-- Write a piece at an offset; a gap before it reads as NUL. -/
def writeAt (content : List Char) (offset : Nat) (piece : List Char) : List Char :=
  content.take offset ++ List.replicate (offset - content.length) '\x00' ++ piece ++
    content.drop (offset + piece.length)

/-- `if not root_id: raise ...`, and the answer. -/
def answer (rootId : String) : RootCall :=
  if rootId = "" then .raised ("empty observation root id: " ++ ROOT_ID_FILE) else .returned rootId

/-- **One step of a call.** -/
def rootStep (d : RootDir) : RootCall → RootAct → Option (RootDir × RootCall)
  | .idle, .call stateSubdir =>
    if isStateSubdir stateSubdir then some (d, .making STATE_SUBDIRS)
    else some (d, .raised "state_subdir must be a directory name")
  | .making (name :: left), .mkdir =>
    some ({ d with made := if name ∈ d.made then d.made else name :: d.made }, .making left)
  | .making [], .test drawn =>
    match d.rootId with
    | some _ => some (d, .reading)
    | none => some (d, .creating drawn)
  | .reading, .read =>
    match d.rootId with
    | none => some (d, .failed)
    | some content => some (d, answer (strip (String.ofList content)))
  | .creating id, .truncate => some ({ d with rootId := some [] }, .writing id 0 id.line)
  | .writing id offset left, .write count =>
    if 0 < count ∧ count ≤ left.length then
      some ({ d with rootId := some (writeAt (d.rootId.getD []) offset (left.take count)) },
        .writing id (offset + count) (left.drop count))
    else none
  | .writing id _ [], .close => some (d, answer id.text)
  | .making _, .fail | .reading, .fail | .creating _, .fail | .writing _ _ _, .fail =>
    some (d, .failed)
  | _, _ => none

abbrev RootThreads (n : Nat) := Lib.Threads n RootDir RootCall

/-- No call has begun. -/
def start (n : Nat) (d : RootDir) : RootThreads n := ⟨d, fun _ => .idle⟩

/-! ## 2. The law and the condition -/

/-- **The calls that have returned carry one root id.** -/
def SameRootId {n : Nat} (s : RootThreads n) : Prop :=
  ∀ i j a b, s.pc i = .returned a → s.pc j = .returned b → a = b

/-- **The condition**: a call tests for the file when no call is creating it. -/
def TestsAlone {n : Nat} (s : RootThreads n) (e : Fin n × RootAct) : Prop :=
  match e.2 with
  | .test _ => ∀ j, (s.pc j).creates = false
  | _ => True

instance {n : Nat} (s : RootThreads n) (e : Fin n × RootAct) : Decidable (TestsAlone s e) :=
  match h : e.2 with
  | .test _ => decidable_of_iff (∀ j, (s.pc j).creates = false) (by rw [TestsAlone, h])
  | .call _ | .mkdir | .read | .truncate | .write _ | .close | .fail =>
    isTrue (by rw [TestsAlone, h]; exact trivial)

/-- What the file holds for a call. -/
def AtPoint (d : RootDir) : RootCall → Prop
  | .reading => d.rootId ≠ none
  | .creating _ => d.rootId = none
  | .writing id offset left =>
    d.rootId = some (id.line.take offset) ∧ left = id.line.drop offset
  | .returned rootId => ∃ content, d.rootId = some content ∧ strip (String.ofList content) = rootId
  | .idle | .making _ | .raised _ | .failed => True

/-- **The outline**: one call creates the file, and until it is done no other has found it. -/
def outline : Lib.Outline RootDir RootCall where
  inv _ := True
  point := AtPoint
  apart p q := (p.creates = true → q.creates = false ∧ q.settled = false) ∧
    (q.creates = true → p.creates = false ∧ p.settled = false)
  symm _ _ h := ⟨h.2, h.1⟩

/-! ## 3. Every step keeps the outline -/

theorem strip_line (id : HexId) : strip (String.ofList id.line) = id.text := by
  have hspace : ∀ c ∈ hexDigits, isSpace c = false := by
    simp only [hexDigits, List.forall_mem_cons]
    exact ⟨rfl, rfl, rfl, rfl, rfl, rfl, rfl, rfl, rfl, rfl, rfl, rfl, rfl, rfl, rfl, rfl, nofun⟩
  have hkeep : ∀ l : List Char, (∀ c ∈ l, isSpace c = false) → l.dropWhile isSpace = l := by
    intro l hl
    cases l with
    | nil => rfl
    | cons c cs =>
      exact List.dropWhile_cons_of_neg (by simp [hl c List.mem_cons_self])
  have hne : id.text.toList ≠ [] := by
    intro hnil
    have hlen := id.length
    rw [hnil] at hlen
    cases hlen
  have hall : ∀ c ∈ id.text.toList, isSpace c = false := fun c hc => hspace c (id.hex c hc)
  have hfront : id.line.dropWhile isSpace = id.line := by
    obtain ⟨c, cs, hcs⟩ := List.exists_cons_of_ne_nil hne
    rw [HexId.line, hcs]
    exact List.dropWhile_cons_of_neg (by simp [hall c (hcs ▸ List.mem_cons_self)])
  have hnewline : isSpace '\n' = true := by decide
  rw [strip, String.toList_ofList, hfront, HexId.line, List.reverse_append,
    List.reverse_singleton, List.singleton_append, List.dropWhile_cons_of_pos hnewline,
    hkeep _ (fun c hc => hall c (List.mem_reverse.mp hc)), List.reverse_reverse,
    String.ofList_toList]

theorem HexId.text_ne (id : HexId) : id.text ≠ "" := by
  intro hempty
  have hlen := id.length
  rw [hempty] at hlen
  cases hlen

/-- A piece written where the last one ended. -/
theorem writeAt_next {line : List Char} {offset count : Nat} (hcount : 0 < count)
    (hle : count ≤ (line.drop offset).length) :
    writeAt (line.take offset) offset ((line.drop offset).take count) = line.take (offset + count) := by
  rw [List.length_drop] at hle
  have hoffset : offset ≤ line.length := by omega
  have hlen : (line.take offset).length = offset := List.length_take_of_le hoffset
  have hdrop : (line.take offset).drop (offset + ((line.drop offset).take count).length) = [] := by
    rw [List.drop_eq_nil_iff, hlen]
    omega
  rw [writeAt, hdrop, hlen, Nat.sub_self, List.replicate_zero, List.append_nil, List.append_nil,
    List.take_take, Nat.min_self, List.take_add]

section

variable {n : Nat} {s : RootThreads n} {i : Fin n} {p : RootCall}

/-- A step that leaves the file as it is. -/
theorem keeps_same {d : RootDir} (h : outline.Holds s) (hfile : d.rootId = s.shared.rootId)
    (hpoint : AtPoint d p) (hcreates : p.creates = true → (s.pc i).creates = true)
    (hsettled : p.settled = true →
      (s.pc i).settled = true ∨ ∀ j, j ≠ i → (s.pc j).creates = false) :
    outline.Keeps s i d p := by
  have hsame : ∀ q, AtPoint s.shared q → AtPoint d q := by
    intro q hq
    cases q with
    | reading => exact fun hnone => hq (hfile.symm.trans hnone)
    | creating id => exact hfile.trans hq
    | writing id offset left => exact ⟨hfile.trans hq.1, hq.2⟩
    | returned rootId =>
      obtain ⟨content, hcontent, hstrip⟩ := hq
      exact ⟨content, hfile.trans hcontent, hstrip⟩
    | idle => exact trivial
    | making left => exact trivial
    | raised message => exact trivial
    | failed => exact trivial
  refine ⟨trivial, hpoint, fun j _ => hsame _ (h.point j), fun j hj => ⟨fun hp => ?_, fun hq => ?_⟩⟩
  · exact (h.apart i j fun hij => hj hij.symm).1 (hcreates hp)
  · have hapart := (h.apart i j fun hij => hj hij.symm).2 hq
    constructor
    · rw [Bool.eq_false_iff]
      intro hp
      rw [hcreates hp] at hapart
      cases hapart.1
    · rw [Bool.eq_false_iff]
      intro hp
      rcases hsettled hp with hs | hs
      · rw [hs] at hapart
        cases hapart.2
      · rw [hs j hj] at hq
        cases hq

/-- A step of the call that creates the file: no other one depends on what it holds. -/
theorem keeps_creator {d : RootDir} (h : outline.Holds s) (hcreator : (s.pc i).creates = true)
    (hpoint : AtPoint d p) : outline.Keeps s i d p := by
  have hothers : ∀ j, j ≠ i → (s.pc j).creates = false ∧ (s.pc j).settled = false :=
    fun j hj => (h.apart i j fun hij => hj hij.symm).1 hcreator
  refine ⟨trivial, hpoint, fun j hj => ?_, fun j hj => ⟨fun _ => hothers j hj, fun hq => ?_⟩⟩
  · obtain ⟨hcreates, hsettled⟩ := hothers j hj
    show AtPoint d (s.pc j)
    cases hpc : s.pc j with
    | reading =>
      rw [hpc] at hsettled
      cases hsettled
    | creating id =>
      rw [hpc] at hcreates
      cases hcreates
    | writing id offset left =>
      rw [hpc] at hcreates
      cases hcreates
    | returned rootId =>
      rw [hpc] at hsettled
      cases hsettled
    | idle => exact trivial
    | making left => exact trivial
    | raised message => exact trivial
    | failed => exact trivial
  · rw [(hothers j hj).1] at hq
    cases hq

theorem answer_cases (rootId : String) :
    (answer rootId).creates = false ∧
      ((rootId ≠ "" ∧ answer rootId = .returned rootId) ∨ (answer rootId).settled = false) := by
  rw [answer]
  split
  · exact ⟨rfl, .inr rfl⟩
  · rename_i hne
    exact ⟨rfl, .inl ⟨hne, rfl⟩⟩

/-- **Every step keeps the outline**, a test under the condition. -/
theorem rootStep_keeps {e : Fin n × RootAct} {d : RootDir} (h : outline.Holds s)
    (hok : TestsAlone s e) (hstep : rootStep s.shared (s.pc e.1) e.2 = some (d, p)) :
    outline.Keeps s e.1 d p := by
  obtain ⟨i, act⟩ := e
  have hpoint := h.point i
  change AtPoint s.shared (s.pc i) at hpoint
  dsimp only at hstep
  unfold rootStep at hstep
  split at hstep
  · split at hstep
    · obtain ⟨rfl, rfl⟩ := Prod.mk.inj (Option.some.inj hstep)
      exact keeps_same h rfl trivial nofun nofun
    · obtain ⟨rfl, rfl⟩ := Prod.mk.inj (Option.some.inj hstep)
      exact keeps_same h rfl trivial nofun nofun
  · obtain ⟨rfl, rfl⟩ := Prod.mk.inj (Option.some.inj hstep)
    exact keeps_same h rfl trivial nofun nofun
  · -- the test: no other call is creating the file
    rename_i drawn _ hpc
    have halone : ∀ j, (s.pc j).creates = false := hok
    split at hstep
    · rename_i content hfile
      obtain ⟨rfl, rfl⟩ := Prod.mk.inj (Option.some.inj hstep)
      refine keeps_same h rfl ?_ nofun fun _ => .inr fun j _ => halone j
      show s.shared.rootId ≠ none
      rw [hfile]
      exact nofun
    · rename_i hfile
      obtain ⟨rfl, rfl⟩ := Prod.mk.inj (Option.some.inj hstep)
      -- nobody has found it either
      have hunsettled : ∀ j, (s.pc j).settled = false := by
        intro j
        have hj := h.point j
        change AtPoint s.shared (s.pc j) at hj
        cases hpc : s.pc j with
        | reading =>
          rw [hpc] at hj
          exact absurd hfile hj
        | returned rootId =>
          rw [hpc] at hj
          obtain ⟨content, hcontent, -⟩ := hj
          rw [hfile] at hcontent
          cases hcontent
        | creating id => rfl
        | writing id offset left => rfl
        | idle => rfl
        | making left => rfl
        | raised message => rfl
        | failed => rfl
      refine ⟨trivial, hfile, fun j _ => h.point j, fun j _ => ⟨fun _ => ?_, fun hq => ?_⟩⟩
      · exact ⟨halone j, hunsettled j⟩
      · rw [halone j] at hq
        cases hq
  · rename_i _ hpc
    split at hstep
    · obtain ⟨rfl, rfl⟩ := Prod.mk.inj (Option.some.inj hstep)
      exact keeps_same h rfl trivial nofun nofun
    · rename_i content hfile
      obtain ⟨rfl, rfl⟩ := Prod.mk.inj (Option.some.inj hstep)
      obtain ⟨hcreates, hanswer⟩ := answer_cases (strip (String.ofList content))
      have hread : (s.pc i).settled = true := by rw [hpc]; rfl
      refine keeps_same h rfl ?_ ?_ fun _ => .inl hread
      · rw [answer]
        split
        · exact trivial
        · exact ⟨content, hfile, rfl⟩
      · intro hp
        rw [hcreates] at hp
        cases hp
  · rename_i id _ hpc
    obtain ⟨rfl, rfl⟩ := Prod.mk.inj (Option.some.inj hstep)
    refine keeps_creator h (by rw [hpc]; rfl) ⟨?_, ?_⟩
    · rw [List.take_zero]
    · rw [List.drop_zero]
  · rename_i id offset left count _ hpc
    split at hstep
    · rename_i hcount
      obtain ⟨rfl, rfl⟩ := Prod.mk.inj (Option.some.inj hstep)
      rw [hpc] at hpoint
      obtain ⟨hfile, rfl⟩ := hpoint
      refine keeps_creator h (by rw [hpc]; rfl) ⟨?_, ?_⟩
      · dsimp only
        rw [hfile, Option.getD_some, writeAt_next hcount.1 hcount.2]
      · rw [List.drop_drop]
    · cases hstep
  · rename_i id offset hpc
    obtain ⟨rfl, rfl⟩ := Prod.mk.inj (Option.some.inj hstep)
    rw [hpc] at hpoint
    obtain ⟨hfile, hrest⟩ := hpoint
    refine keeps_creator h (by rw [hpc]; rfl) ?_
    rw [answer, if_neg id.text_ne]
    refine ⟨id.line, ?_, strip_line id⟩
    rw [hfile, List.take_of_length_le (List.drop_eq_nil_iff.mp hrest.symm)]
  · obtain ⟨rfl, rfl⟩ := Prod.mk.inj (Option.some.inj hstep)
    exact keeps_same h rfl trivial nofun nofun
  · obtain ⟨rfl, rfl⟩ := Prod.mk.inj (Option.some.inj hstep)
    exact keeps_same h rfl trivial nofun nofun
  · obtain ⟨rfl, rfl⟩ := Prod.mk.inj (Option.some.inj hstep)
    exact keeps_same h rfl trivial nofun nofun
  · obtain ⟨rfl, rfl⟩ := Prod.mk.inj (Option.some.inj hstep)
    exact keeps_same h rfl trivial nofun nofun
  · cases hstep

/-- In the outline every answer is what the file holds. -/
theorem sameRootId_of_holds (h : outline.Holds s) : SameRootId s := by
  intro i j a b ha hb
  have hi := h.point i
  have hj := h.point j
  change AtPoint s.shared (s.pc i) at hi
  change AtPoint s.shared (s.pc j) at hj
  rw [ha] at hi
  rw [hb] at hj
  obtain ⟨content, hcontent, rfl⟩ := hi
  obtain ⟨content', hcontent', rfl⟩ := hj
  rw [Option.some.inj (hcontent.symm.trans hcontent')]

/-- **All nodes agree on the root id**: in every run of any number of calls on one directory in which
    each tests for the file while no other creates it, all that have returned carry the same id,
    whatever the file held at first. -/
theorem rootIds_agree {t : RootThreads n} {d : RootDir}
    {tr : List (Lib.Trans (RootThreads n) (Fin n × RootAct))}
    (hrun : Lib.Interleaving rootStep (start n d) tr t) (hok : ∀ x ∈ tr, TestsAlone x.pre x.ev) :
    SameRootId t ∧ ∀ x ∈ tr, SameRootId x.post := by
  have hstart : outline.Holds (start n d) :=
    ⟨trivial, fun _ => trivial, fun _ _ _ => ⟨nofun, nofun⟩⟩
  have hinv := outline.run (G := TestsAlone) hrun hstart
    (fun a e u p ha hg hs => rootStep_keeps ha hg hs) hok
  exact ⟨sameRootId_of_holds hinv.1, fun x hx => sameRootId_of_holds (hinv.2 x hx).2⟩

end

/-! ## 4. Two calls -/

def hexOf (c : Char) (h : c ∈ hexDigits) : HexId where
  text := String.ofList (List.replicate 32 c)
  length := by rw [String.toList_ofList, List.length_replicate]
  hex d hd := by
    rw [String.toList_ofList] at hd
    rw [List.eq_of_mem_replicate hd]
    exact h

def hexA : HexId := hexOf 'a' (by decide +kernel)

def hexB : HexId := hexOf 'b' (by decide +kernel)

/-- Two calls on a new directory. -/
def rootTrace (es : List (Fin 2 × RootAct)) :
    List (Lib.Trans (RootThreads 2) (Fin 2 × RootAct)) :=
  Lib.trace (fun s e => s.next rootStep e) (start 2 ⟨[], none⟩) es

theorem rootTrace_run (es : List (Fin 2 × RootAct)) :
    ∃ s, Lib.Interleaving rootStep (start 2 ⟨[], none⟩) (rootTrace es) s :=
  Lib.Run.trace _ _ _

/-- Up to the test, and from there to the answer of a call that creates the file. -/
def untilTest (i : Fin 2) (drawn : HexId) : List (Fin 2 × RootAct) :=
  (i, .call ".ccc-storage") :: List.replicate 5 (i, .mkdir) ++ [(i, .test drawn)]

def create (i : Fin 2) : List (Fin 2 × RootAct) :=
  [(i, .truncate), (i, .write 10), (i, .write 23), (i, .close)]

/-- One call after the other: the second reads what the first wrote. -/
theorem rootIds_agree_inTurn :
    ∃ s, Lib.Interleaving rootStep (start 2 ⟨[], none⟩)
        (rootTrace (untilTest 0 hexA ++ create 0 ++ untilTest 1 hexB ++ [(1, .read)])) s ∧
      s.pc 1 = .returned hexA.text ∧ SameRootId s := by
  obtain ⟨s, hrun⟩ := rootTrace_run (untilTest 0 hexA ++ create 0 ++ untilTest 1 hexB ++ [(1, .read)])
  have hends : ∃ x ∈ (rootTrace (untilTest 0 hexA ++ create 0 ++ untilTest 1 hexB ++
      [(1, .read)])).getLast?, x.post.pc 1 = .returned hexA.text := by
    decide +kernel
  obtain ⟨x, hx, hreturned⟩ := hends
  rw [← hrun.eq_post hx] at hreturned
  exact ⟨s, hrun, hreturned, (rootIds_agree hrun (by decide +kernel)).1⟩

/-- **Both test before either writes**: each returns the id it drew, and the file keeps the last
    one. -/
theorem bothCreate_disagree :
    ∃ s, Lib.Interleaving rootStep (start 2 ⟨[], none⟩)
        (rootTrace (untilTest 0 hexA ++ untilTest 1 hexB ++ create 0 ++ create 1)) s ∧
      s.pc 0 = .returned hexA.text ∧ s.pc 1 = .returned hexB.text ∧ ¬ SameRootId s := by
  obtain ⟨s, hrun⟩ := rootTrace_run (untilTest 0 hexA ++ untilTest 1 hexB ++ create 0 ++ create 1)
  have hends : ∃ x ∈ (rootTrace (untilTest 0 hexA ++ untilTest 1 hexB ++ create 0 ++
      create 1)).getLast?, x.post.pc 0 = .returned hexA.text ∧
        x.post.pc 1 = .returned hexB.text := by
    decide +kernel
  obtain ⟨x, hx, hfirst, hsecond⟩ := hends
  rw [← hrun.eq_post hx] at hfirst hsecond
  have hne : hexA.text ≠ hexB.text := by decide +kernel
  exact ⟨s, hrun, hfirst, hsecond, fun hsame => hne (hsame 0 1 _ _ hfirst hsecond)⟩

end CccStorage.RootIds
