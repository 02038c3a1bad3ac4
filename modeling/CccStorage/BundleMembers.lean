/-
  File:      CccStorage/BundleMembers.lean
  Subject:   The names in a packset bundle, and the members that `build_packset_bundle` writes.

  * `BelowRoot` -- a name of a file below the directory it is unpacked in;
  * `BelowRoot.target`, `BelowRoot.normpath` -- where it is extracted, and how links find it;
  * `findLinkTarget_eq` -- the last member of a name;
  * `addMembers_spec` -- a pack is a member with its content, or a hard link to an earlier one.
-/
import CccStorage.Bundle

namespace CccStorage.Bundle

/-! ## 1. Names -/

/-- **A name below the root**: relative, without `..`, and not ending in a slash or in `.`. -/
structure BelowRoot (arcname : String) : Prop where
  relative : isAbsolute arcname = false
  noNul : '\x00' ∉ arcname.toList
  noDots : ".." ∉ slashParts arcname
  named : ∀ c ∈ (slashParts arcname).getLast?, c ≠ "" ∧ c ≠ "."

instance (arcname : String) : Decidable (BelowRoot arcname) :=
  decidable_of_iff (isAbsolute arcname = false ∧ '\x00' ∉ arcname.toList ∧
      ".." ∉ slashParts arcname ∧ ∀ c ∈ (slashParts arcname).getLast?, c ≠ "" ∧ c ≠ ".")
    ⟨fun h => ⟨h.1, h.2.1, h.2.2.1, h.2.2.2⟩, fun h => ⟨h.1, h.2, h.3, h.4⟩⟩

theorem textParts_eq (text : String) :
    textParts text = (slashParts text).filter fun c => c ≠ "" ∧ c ≠ "." := rfl

/-- The place of a name below the root: its directory and its last component. -/
structure Placed (arcname : String) (up : Path) (base : String) : Prop where
  parts : textParts arcname = up ++ [base]
  upDots : ".." ∉ up
  dot : base ≠ "."
  dotDot : base ≠ ".."
  target : ∀ dest, extractTarget dest arcname = some ⟨dest ++ up, base⟩

namespace BelowRoot

variable {arcname : String}

theorem split (h : BelowRoot arcname) :
    ∃ up base, slashParts arcname = up ++ [base] ∧ base ≠ "" ∧ base ≠ "." := by
  rcases List.eq_nil_or_concat (slashParts arcname) with hnil | ⟨up, base, hup⟩
  · unfold slashParts at hnil
    exact absurd (List.map_eq_nil_iff.mp hnil) (List.splitOn_ne_nil _ _)
  · rw [List.concat_eq_append] at hup
    have hlast := h.named base (by rw [hup, List.getLast?_concat]; rfl)
    exact ⟨up, base, hup, hlast.1, hlast.2⟩

theorem target (h : BelowRoot arcname) : ∃ up base, Placed arcname up base := by
  obtain ⟨up, base, hup, hne, hdot⟩ := h.split
  have hdots := h.noDots
  rw [hup, List.mem_append, not_or, List.mem_singleton] at hdots
  refine ⟨up.filter fun c => c ≠ "" ∧ c ≠ ".", base, ?_, ?_, hdot, fun hb => hdots.2 hb.symm, ?_⟩
  · rw [textParts_eq, hup, List.filter_append]
    refine congrArg _ (List.filter_cons_of_pos ?_)
    exact decide_eq_true ⟨hne, hdot⟩
  · exact fun hmem => hdots.1 (List.mem_filter.mp hmem).1
  · intro dest
    unfold extractTarget
    rw [hup, List.reverse_append, List.reverse_singleton, List.singleton_append,
      List.dropWhile_cons_of_neg (by simpa using hne)]
    simp only [h.relative, Bool.false_eq_true, if_false, List.reverse_reverse]

theorem join (h : BelowRoot arcname) (dest : Path) :
    pathJoinParts dest arcname = dest ++ textParts arcname := by
  unfold pathJoinParts
  rw [h.relative, if_neg Bool.false_ne_true]

theorem noDots_parts (h : BelowRoot arcname) : ".." ∉ textParts arcname :=
  fun hmem => h.noDots (List.mem_filter.mp hmem).1

theorem parts_ne_nil (h : BelowRoot arcname) : textParts arcname ≠ [] := by
  obtain ⟨up, base, hp⟩ := h.target
  rw [hp.parts]
  exact List.append_ne_nil_of_right_ne_nil up (List.cons_ne_nil base [])

theorem dirOnly (h : BelowRoot arcname) : dirOnly arcname = false := by
  obtain ⟨up, base, hup, hne, hdot⟩ := h.split
  unfold Bundle.dirOnly
  rw [hup, List.getLast?_concat, decide_eq_false_iff_not, not_or]
  exact ⟨fun h => hne (Option.some.inj h), fun h => hdot (Option.some.inj h)⟩

theorem head (h : BelowRoot arcname) : arcname.toList.head? ≠ some '/' := by
  have hrel := h.relative
  unfold isAbsolute at hrel
  exact of_decide_eq_false hrel

/-- No slash is taken from its start. -/
theorem lstrip (h : BelowRoot arcname) : lstripSlashes arcname = arcname := by
  have hhead := h.head
  unfold lstripSlashes
  cases hl : arcname.toList with
  | nil => rw [List.dropWhile_nil, ← hl, String.ofList_toList]
  | cons c cs =>
      rw [hl, List.head?_cons] at hhead
      rw [List.dropWhile_cons_of_neg (by simpa using hhead), ← hl, String.ofList_toList]

/-- `os.path.normpath` keeps its components. -/
theorem normpath (h : BelowRoot arcname) : normpath arcname = ⟨0, textParts arcname⟩ := by
  have hlead : arcname.toList.takeWhile (· = '/') = [] := by
    have hhead := h.head
    cases hl : arcname.toList with
    | nil => rfl
    | cons c cs =>
        rw [hl, List.head?_cons] at hhead
        exact List.takeWhile_cons_of_neg (by simpa using hhead)
  unfold Bundle.normpath
  rw [hlead, textParts_eq]
  have hfold : ∀ l acc : List String, ".." ∉ l →
      l.foldl (fun comps c =>
        if c = "" ∨ c = "." then comps
        else if c ≠ ".." ∨ (0 = 0 ∧ comps = []) ∨ comps.getLast? = some ".." then comps ++ [c]
        else comps.dropLast) acc = acc ++ l.filter fun c => c ≠ "" ∧ c ≠ "." := by
    intro l
    induction l with
    | nil =>
        intro acc _
        exact (List.append_nil acc).symm
    | cons c l ih =>
        intro acc hdots
        rw [List.mem_cons, not_or] at hdots
        rw [List.foldl_cons, ih _ hdots.2]
        by_cases hc : c = "" ∨ c = "."
        · rw [if_pos hc, List.filter_cons_of_neg]
          rw [decide_eq_true_eq, not_and_or, not_not, not_not]
          exact hc
        · rw [if_neg hc, if_pos (.inl fun h => hdots.1 h.symm), List.filter_cons_of_pos,
            List.append_assoc, List.singleton_append]
          rw [not_or] at hc
          exact decide_eq_true hc
  have hall := hfold (slashParts arcname) [] h.noDots
  rw [List.nil_append] at hall
  rw [← hall]
  rfl

end BelowRoot

/-! ## 2. Links to earlier members -/

/-- The last number below `n` with a property. -/
theorem find_last {p : Nat → Bool} {n j : Nat} (hj : j < n) (hp : p j = true)
    (hlast : ∀ k, j < k → k < n → p k = false) : (List.range n).reverse.find? p = some j := by
  induction n with
  | zero => exact absurd hj (Nat.not_lt_zero j)
  | succ n ih =>
      rw [List.range_succ, List.reverse_append, List.reverse_singleton, List.singleton_append]
      by_cases hjn : j = n
      · subst hjn
        exact List.find?_cons_of_pos hp
      · have hlt : j < n := by omega
        rw [List.find?_cons_of_neg
          (by rw [hlast n hlt (Nat.lt_succ_self n)]; exact Bool.false_ne_true)]
        exact ih hlt fun k hk hkn => hlast k hk (Nat.lt_succ_of_lt hkn)

/-- **A hard link refers to the last earlier member of that path.** -/
theorem findLinkTarget_eq {members : List Member} {i j : Nat} {m other : Member} {linkname : String}
    (hm : m.kind = .hardlink linkname) (hj : j < i) (hother : members[j]? = some other)
    (hname : normpath other.name = normpath linkname)
    (hlast : ∀ k, j < k → k < i → ∀ o, members[k]? = some o →
      normpath o.name ≠ normpath linkname) :
    findLinkTarget members i m = some j := by
  unfold findLinkTarget
  rw [hm]
  refine find_last hj ?_ fun k hk hki => ?_
  · rw [hother]
    exact decide_eq_true hname
  · cases ho : members[k]? with
    | none => rfl
    | some o => exact decide_eq_false (hlast k hk hki o ho)

/-! ## 3. The members of the packs -/

theorem getElem?_append_some {α : Type*} {l : List α} {i : Nat} {a : α} (h : l[i]? = some a)
    (l' : List α) : (l ++ l')[i]? = some a :=
  (List.getElem?_append_left (List.getElem?_eq_some_iff.mp h).1).trans h

/-- Files with one number are one file. -/
def SameFiles (packs : List (SourceFile × String)) : Prop :=
  ∀ p ∈ packs, ∀ q ∈ packs, p.1.ino = q.1.ino → p.1.content = q.1.content

/-- A pack's member holds its content, or is a hard link to an earlier pack's that does. -/
def MemberOf (packs : List (SourceFile × String)) (members : List Member) (i : Nat)
    (p : SourceFile × String) (m : Member) : Prop :=
  m.name = p.2 ∧
    (m.kind = .file p.1.content ∨
      ∃ k q, k < i ∧ packs[k]? = some q ∧ q.1.content = p.1.content ∧ m.kind = .hardlink q.2 ∧
        members[k]? = some ⟨q.2, .file p.1.content⟩)

theorem addMembers_length (inodes : List (Nat × String)) (packs : List (SourceFile × String)) :
    (addMembers inodes packs).length = packs.length := by
  induction packs generalizing inodes with
  | nil => rfl
  | cons p packs ih =>
      unfold addMembers
      rw [List.length_cons, List.length_cons, ih]

/-- The names that later packs may link to: `pre` has been added as `done`. -/
def Added (inodes : List (Nat × String)) (pre : List (SourceFile × String)) (done : List Member) :
    Prop :=
  ∀ n name, inodes.lookup n = some name → ∃ (k : Nat) (q : SourceFile × String),
    pre[k]? = some q ∧ q.2 = name ∧ q.1.ino = n ∧ done[k]? = some ⟨name, .file q.1.content⟩

theorem addMember_spec {inodes : List (Nat × String)} {pre : List (SourceFile × String)}
    {done : List Member} {p : SourceFile × String} (hadded : Added inodes pre done)
    (hlen : done.length = pre.length) (hname : lstripSlashes p.2 = p.2)
    (hsame : ∀ q ∈ pre, q.1.ino = p.1.ino → q.1.content = p.1.content) :
    MemberOf pre done pre.length p (addMember inodes p.1 p.2).2 ∧
      Added (addMember inodes p.1 p.2).1 (pre ++ [p])
        (done ++ [(addMember inodes p.1 p.2).2]) := by
  have hkeep : Added inodes (pre ++ [p]) (done ++ [(addMember inodes p.1 p.2).2]) := by
    intro n name hn
    obtain ⟨k, q, hq, hqname, hino, hk⟩ := hadded n name hn
    exact ⟨k, q, getElem?_append_some hq _, hqname, hino, getElem?_append_some hk _⟩
  have hfile : (addMember inodes p.1 p.2).2 = ⟨p.2, .file p.1.content⟩ →
      Added (Lib.dictSet inodes p.1.ino p.2) (pre ++ [p])
        (done ++ [(addMember inodes p.1 p.2).2]) := by
    intro hmember n name hn
    rw [Lib.lookup_dictSet] at hn
    split at hn
    · rename_i hnp
      cases hn
      refine ⟨pre.length, p, List.getElem?_concat_length, rfl, hnp.symm, ?_⟩
      rw [hmember, ← hlen]
      exact List.getElem?_concat_length
    · exact hkeep n name hn
  unfold addMember at hkeep hfile ⊢
  simp only [hname] at hkeep hfile ⊢
  cases hl : inodes.lookup p.1.ino with
  | none =>
      simp only [hl] at hfile ⊢
      exact ⟨⟨rfl, .inl rfl⟩, hfile trivial⟩
  | some linkname =>
      simp only [hl] at hkeep hfile ⊢
      by_cases hlink : 1 < p.1.links ∧ p.2 ≠ linkname
      · rw [if_pos hlink] at hkeep ⊢
        obtain ⟨k, q, hq, hqname, hino, hk⟩ := hadded _ _ hl
        have hcontent := hsame q (List.mem_of_getElem? hq) hino
        refine ⟨⟨rfl, .inr ⟨k, q, ?_, hq, hcontent, by rw [hqname], ?_⟩⟩, hkeep⟩
        · exact (List.getElem?_eq_some_iff.mp hq).1
        · rw [hk, hqname, hcontent]
      · rw [if_neg hlink] at hfile ⊢
        exact ⟨⟨rfl, .inl rfl⟩, hfile rfl⟩

theorem MemberOf.append {pre : List (SourceFile × String)} {done : List Member} {i : Nat}
    {p : SourceFile × String} {m : Member} (h : MemberOf pre done i p m)
    (rest : List (SourceFile × String)) (more : List Member) :
    MemberOf (pre ++ rest) (done ++ more) i p m := by
  refine ⟨h.1, ?_⟩
  rcases h.2 with h | ⟨k, q, hk, hq, hcontent, hm, hdone⟩
  · exact .inl h
  · exact .inr ⟨k, q, hk, getElem?_append_some hq rest, hcontent, hm,
      getElem?_append_some hdone more⟩

/-- **Every pack has its member**, in order. -/
theorem addMembers_spec {packs : List (SourceFile × String)}
    (hnames : ∀ p ∈ packs, lstripSlashes p.2 = p.2) (hsame : SameFiles packs) {i : Nat}
    {p : SourceFile × String} (hp : packs[i]? = some p) :
    ∃ m, (addMembers [] packs)[i]? = some m ∧ MemberOf packs (addMembers [] packs) i p m := by
  suffices hgen : ∀ rest pre done inodes, packs = pre ++ rest → done.length = pre.length →
      Added inodes pre done → ∀ (i : Nat) (p : SourceFile × String), rest[i]? = some p →
      ∃ m, (addMembers inodes rest)[i]? = some m ∧
        MemberOf packs (done ++ addMembers inodes rest) (pre.length + i) p m by
    obtain ⟨m, hm, hof⟩ := hgen packs [] [] [] rfl rfl (fun _ _ h => by cases h) i p hp
    rw [List.length_nil, Nat.zero_add, List.nil_append] at hof
    exact ⟨m, hm, hof⟩
  intro rest
  induction rest with
  | nil =>
      intro pre done inodes _ _ _ i p hp
      cases hp
  | cons head rest ih =>
      intro pre done inodes hpacks hlen hadded i p hp
      have hmem : head ∈ packs := hpacks ▸ List.mem_append_right _ List.mem_cons_self
      obtain ⟨hof, hnext⟩ := addMember_spec hadded hlen (hnames head hmem) fun q hq hino =>
        hsame q (hpacks ▸ List.mem_append_left _ hq) head hmem hino
      unfold addMembers
      cases i with
      | zero =>
          cases hp
          refine ⟨_, rfl, ?_⟩
          rw [hpacks]
          exact hof.append _ _
      | succ i =>
          obtain ⟨m, hm, hofm⟩ := ih (pre ++ [head]) (done ++ [(addMember inodes head.1 head.2).2])
            (addMember inodes head.1 head.2).1 (by rw [hpacks, List.append_assoc]; rfl)
            (by rw [List.length_append, List.length_append, hlen]; rfl) hnext i p hp
          refine ⟨m, hm, ?_⟩
          rw [List.append_assoc, List.length_append, List.length_singleton, Nat.add_assoc,
            Nat.add_comm 1 i] at hofm
          exact hofm

end CccStorage.Bundle
