/-
  File:      CccStorage/DirectoryListings.lean
  Subject:   A directory listed by several `readdir` calls of the dispatcher
             (`mountd/dispatcher_fuse.py`), while its entries change between them.

  An offset is a position in the list that the call has just sorted. An entry that comes or goes
  before it shifts what the next call starts at.

  * `offsetReplies` -- the loop of `readdir` with the offset each reply is tagged with;
  * `offsetReplies_scanned` -- which names a call gives, whatever its buffer takes;
  * `ReaddirCall`, `Continued`, `Ended` -- the calls of one listing, any operations between them;
  * `steady_listing` -- an entry that stays is given once, where none crosses the offset;
  * `removed_entry_skips` -- the next entry is left out after one before it was removed.
-/
import CccStorage.HiddenState
import CccStorage.Lib.Pages

namespace CccStorage.Observe

open Lib (exec exec_bind exec_tryCatch)

/-! ## 1. The offsets -/

section Replies

variable (d : Dispatcher) (env : Nat → HostView) (rel : Path)

/-- The loop of `readdir`: each reply with the offset it is tagged with. -/
def offsetReplies : Nat → Nat → List String → DispatchM (List (Nat × String × Attributes))
  | _, _, [] => pure []
  | idx, room, name :: rest => do
    let found ← tryCatch (listedAttrs d (env idx) (listedRel rel name)) skipMissing
    match found, room with
    | none, room => offsetReplies (idx + 1) room rest
    | some _, 0 => pure []
    | some a, room + 1 => do
      let more ← offsetReplies (idx + 1) room rest
      pure ((idx, name, a) :: more)

/-- They are the replies of the operation. -/
theorem readdirReplies_eq (idx room : Nat) (names : List String) :
    readdirReplies d env rel idx room names =
      (List.map Prod.snd) <$> offsetReplies d env rel idx room names := by
  induction names generalizing idx room with
  | nil => rfl
  | cons name rest ih =>
    unfold readdirReplies offsetReplies
    rw [map_bind]
    congr 1
    funext found
    split
    · exact ih _ _
    · rfl
    · rw [ih]
      simp only [map_eq_pure_bind, bind_assoc, pure_bind]
      rfl

end Replies

/-- The dispatcher finds an entry, whatever it has done before. -/
def Entry (d : Dispatcher) (w : HostView) (rel : Path) : Prop :=
  ∀ s, ∃ entry, (exec (entryFor d w rel) s).1 = .ok entry

/-- What a call gives of the names from an offset on: each at its position, all of those it finds
    as far as it comes. -/
structure Scanned (d : Dispatcher) (env : Nat → HostView) (rel : Path) (idx room : Nat)
    (names : List String) (replies : List (Nat × String × Attributes)) : Prop where
  placed : ∀ x ∈ replies, ∃ j, names[j]? = some x.2.1 ∧ x.1 = idx + j
  sorted : replies.Pairwise fun x y => x.1 < y.1
  reached : ∀ j n, names[j]? = some n → Entry d (env (idx + j)) (listedRel rel n) →
    (replies.length < room ∨ ∃ x ∈ replies, idx + j ≤ x.1) → ∃ x ∈ replies, x.1 = idx + j

section Scan

variable {d : Dispatcher} {env : Nat → HostView} {w : HostView} {rel : Path} {idx room : Nat}
variable {name : String} {names : List String} {replies : List (Nat × String × Attributes)}
variable {s t : FuseState}

/-- An entry that is found is replied. -/
theorem listedAttrs_found (h : Entry d w rel) :
    ∃ a, (exec (tryCatch (listedAttrs d w rel) skipMissing) s).1 = .ok (some a) := by
  obtain ⟨entry, hentry⟩ := h s
  rw [exec_tryCatch]
  unfold listedAttrs
  rw [exec_bind]
  rcases hrun : exec (entryFor d w rel) s with ⟨r, u⟩
  rw [hrun] at hentry
  obtain rfl : r = .ok entry := hentry
  exact ⟨_, rfl⟩

/-- **One call's loop** scans the names as far as its buffer takes them. -/
theorem offsetReplies_scanned
    (h : exec (offsetReplies d env rel idx room names) s = (.ok replies, t)) :
    Scanned d env rel idx room names replies := by
  induction names generalizing idx room s t replies with
  | nil =>
    obtain ⟨rfl, -⟩ : [] = replies ∧ s = t := by
      have hpair := Prod.mk.inj h
      exact ⟨Except.ok.inj hpair.1, hpair.2⟩
    exact ⟨nofun, .nil, fun j n hj => by cases hj⟩
  | cons name rest ih =>
    unfold offsetReplies at h
    rw [exec_bind] at h
    have hfound := fun (he : Entry d (env idx) (listedRel rel name)) =>
      listedAttrs_found (s := s) he
    rcases hrun : exec (tryCatch (listedAttrs d (env idx) (listedRel rel name)) skipMissing) s
      with ⟨r, u⟩
    rw [hrun] at h hfound
    cases r with
    | error e => cases (Prod.mk.inj h).1
    | ok found =>
      cases found with
      | none =>
        -- the name has gone: the rest of the names, one position on
        obtain ⟨hplaced, hsorted, hreached⟩ := ih h
        refine ⟨fun x hx => ?_, hsorted, fun j n hj hn hr => ?_⟩
        · obtain ⟨j, hj, hx⟩ := hplaced x hx
          exact ⟨j + 1, hj, by omega⟩
        · cases j with
          | zero =>
            obtain rfl : name = n := Option.some.inj hj
            obtain ⟨a, ha⟩ := hfound hn
            cases ha
          | succ j =>
            rw [show idx + (j + 1) = idx + 1 + j by omega] at hn hr ⊢
            exact hreached j n hj hn hr
      | some a =>
        cases room with
        | zero =>
          obtain ⟨hnil, -⟩ := Prod.mk.inj h
          obtain rfl : [] = replies := Except.ok.inj hnil
          refine ⟨nofun, .nil, fun j n hj hn hr => ?_⟩
          rcases hr with hr | ⟨x, hx, -⟩
          · exact absurd hr (lt_irrefl _)
          · cases hx
        | succ room =>
          change exec (offsetReplies d env rel (idx + 1) room rest >>= fun more =>
            pure ((idx, name, a) :: more)) u = _ at h
          rw [exec_bind] at h
          rcases hrest : exec (offsetReplies d env rel (idx + 1) room rest) u with ⟨r', u'⟩
          rw [hrest] at h
          cases r' with
          | error e => cases (Prod.mk.inj h).1
          | ok more =>
            obtain ⟨hcons, -⟩ := Prod.mk.inj h
            obtain rfl : (idx, name, a) :: more = replies := Except.ok.inj hcons
            obtain ⟨hplaced, hsorted, hreached⟩ := ih hrest
            refine ⟨fun x hx => ?_, List.pairwise_cons.mpr ⟨fun x hx => ?_, hsorted⟩,
              fun j n hj hn hr => ?_⟩
            · rcases List.mem_cons.mp hx with rfl | hx
              · exact ⟨0, rfl, rfl⟩
              · obtain ⟨j, hj, hx⟩ := hplaced x hx
                exact ⟨j + 1, hj, by omega⟩
            · obtain ⟨j, -, hx⟩ := hplaced x hx
              show idx < x.1
              omega
            · cases j with
              | zero => exact ⟨_, List.mem_cons_self, rfl⟩
              | succ j =>
                rw [show idx + (j + 1) = idx + 1 + j by omega] at hn hr ⊢
                have hr' : more.length < room ∨ ∃ x ∈ more, idx + 1 + j ≤ x.1 := by
                  refine hr.imp (fun hlt => ?_) ?_
                  · rw [List.length_cons] at hlt
                    omega
                  · rintro ⟨x, hx, hle⟩
                    rcases List.mem_cons.mp hx with rfl | hx
                    · exact absurd hle (by show ¬ idx + 1 + j ≤ idx; omega)
                    · exact ⟨x, hx, hle⟩
                obtain ⟨x, hx, heq⟩ := hreached j n hj hn hr'
                exact ⟨x, List.mem_cons_of_mem _ hx, heq⟩

end Scan

/-! ## 2. One call -/

/-- A directory has each name once, and neither dot. -/
def HostView.Plain (w : HostView) : Prop :=
  ∀ place names, w.node place = some (.dir names) → ("." :: ".." :: names).Nodup

/-- **A call of a listing** that succeeds, from any state that knows the directory. -/
structure ReaddirCall (d : Dispatcher) (inode : Nat) (rel : Path) where
  state : FuseState
  env : Nat → HostView
  off : Nat
  room : Nat
  /-- What `listdir` has given. -/
  names : List String
  replies : List (Nat × String × Attributes)
  known : state.inodeToPath inode = some rel
  plain : (env 0).Plain
  answered : ∃ t u, exec (listdir d (env 0) rel) state = (.ok names, t) ∧
    exec (offsetReplies d env rel (off + 1) room (("." :: ".." :: names).drop off)) t =
      (.ok replies, u)

namespace ReaddirCall

variable {d : Dispatcher} {inode : Nat} {rel : Path} (c : ReaddirCall d inode rel) {e : String}

/-- The list whose positions are the offsets. -/
def listing : List String := "." :: ".." :: c.names

/-- The offset of the last accepted entry. -/
def next : Nat := (c.replies.getLast?.map Prod.fst).getD c.off

def given : List String := c.replies.map fun x => x.2.1

def page : Lib.Page String := ⟨c.listing, c.off, c.next, c.given⟩

/-- The entry is there during the call. -/
def Has (e : String) : Prop :=
  e ∈ c.listing ∧ ∀ k, Entry d (c.env k) (listedRel rel e)

end ReaddirCall

section Call

variable {d : Dispatcher} {inode off room : Nat} {rel : Path} {c : ReaddirCall d inode rel}
variable {e : String} {env : Nat → HostView} {s : FuseState} {w : HostView}

theorem relForInode_known (h : s.inodeToPath inode = some rel) :
    exec (relForInode inode) s = (.ok rel, s) := by
  unfold relForInode
  simp only [exec_bind, Lib.exec_get, h]
  rfl

/-- What the operation does in a state that knows the directory. -/
theorem fuseStep_readdir (h : s.inodeToPath inode = some rel) :
    exec (fuseStep d env (.readdir inode off room)) s =
      exec (do
        let names ← listdir d (env 0) rel
        let replies ← offsetReplies d env rel (off + 1) room (("." :: ".." :: names).drop off)
        pure (Reply.entries (replies.map Prod.snd))) s := by
  have hstep : fuseStep d env (.readdir inode off room) = (do
      let rel ← relForInode inode
      let names ← listdir d (env 0) rel
      let replies ← readdirReplies d env rel (off + 1) room (("." :: ".." :: names).drop off)
      pure (.entries replies)) := rfl
  rw [hstep, exec_bind, relForInode_known h]
  simp only [readdirReplies_eq, map_eq_pure_bind, bind_assoc, pure_bind]

/-- **The reply of a call** is that of the operation. -/
theorem ReaddirCall.reply (c : ReaddirCall d inode rel) :
    (exec (fuseStep d c.env (.readdir inode c.off c.room)) c.state).1 =
      .ok (.entries (c.replies.map Prod.snd)) := by
  obtain ⟨t, u, hlist, hreplies⟩ := c.answered
  rw [fuseStep_readdir c.known, exec_bind, hlist]
  simp only []
  rw [exec_bind, hreplies]
  rfl

/-- Every `readdir` that succeeds is such a call. -/
theorem readdirCall_of_reply {reply : Reply} (hplain : (env 0).Plain)
    (hknown : s.inodeToPath inode = some rel)
    (h : (exec (fuseStep d env (.readdir inode off room)) s).1 = .ok reply) :
    ∃ c : ReaddirCall d inode rel, c.state = s ∧ c.env = env ∧ c.off = off ∧ c.room = room ∧
      reply = .entries (c.replies.map Prod.snd) := by
  rw [fuseStep_readdir hknown, exec_bind] at h
  rcases hlist : exec (listdir d (env 0) rel) s with ⟨r, t⟩
  rw [hlist] at h
  cases r with
  | error e => cases h
  | ok names =>
    simp only [] at h
    rw [exec_bind] at h
    rcases hreplies : exec (offsetReplies d env rel (off + 1) room
      (("." :: ".." :: names).drop off)) t with ⟨r', u⟩
    rw [hreplies] at h
    cases r' with
    | error e => cases h
    | ok replies =>
      exact ⟨⟨s, env, off, room, names, replies, hknown, hplain, t, u, hlist, hreplies⟩, rfl, rfl,
        rfl, rfl, (Except.ok.inj h).symm⟩

/-- What `listdir` gives has each name once, and neither dot. -/
theorem listdir_names (hw : w.Plain) :
    Lib.Keeps (fun _ => True) (listdir d w rel) fun names => ("." :: ".." :: names).Nodup := by
  unfold listdir
  refine .bind (Q := fun _ => True) (fun s _ => ⟨trivial, fun _ _ => trivial⟩) fun path _ => ?_
  split
  · rename_i names hnode
    refine .bind syscall_keeps fun _ _ => .bind (.update fun _ _ => trivial) fun _ _ => .pure ?_
    have hnodup := hw path names hnode
    have hsub : ("." :: ".." :: names.filter (· ≠ reservedName)).Nodup :=
      hnodup.sublist ((List.filter_sublist).cons_cons _ |>.cons_cons _)
    have hperm : (sortedNames (names.filter (· ≠ reservedName))).Perm
        (names.filter (· ≠ reservedName)) := List.mergeSort_perm _ _
    exact ((hperm.cons "..").cons ".").nodup_iff.mpr hsub
  · exact .throw

theorem ReaddirCall.nodup (c : ReaddirCall d inode rel) : c.listing.Nodup := by
  obtain ⟨t, u, hlist, -⟩ := c.answered
  exact (listdir_names c.plain c.state trivial).2 c.names (by rw [hlist])

theorem ReaddirCall.scanned (c : ReaddirCall d inode rel) :
    Scanned d c.env rel (c.off + 1) c.room (c.listing.drop c.off) c.replies := by
  obtain ⟨t, u, -, hreplies⟩ := c.answered
  exact offsetReplies_scanned hreplies

/-- A reply is tagged with the position after its own. -/
theorem ReaddirCall.placed (c : ReaddirCall d inode rel) {x : Nat × String × Attributes}
    (hx : x ∈ c.replies) :
    ∃ k, c.off ≤ k ∧ c.listing[k]? = some x.2.1 ∧ x.1 = k + 1 := by
  obtain ⟨j, hj, htag⟩ := c.scanned.placed x hx
  rw [List.getElem?_drop] at hj
  exact ⟨c.off + j, Nat.le_add_right _ _, hj, by omega⟩

/-- The last accepted entry has the greatest tag. -/
theorem ReaddirCall.tag_le_next (c : ReaddirCall d inode rel) {x : Nat × String × Attributes}
    (hx : x ∈ c.replies) : x.1 ≤ c.next := by
  obtain ⟨front, last, hreplies⟩ := List.eq_nil_or_concat c.replies |>.resolve_left
    (List.ne_nil_of_mem hx)
  rw [List.concat_eq_append] at hreplies
  have hnext : c.next = last.1 := by
    unfold ReaddirCall.next
    rw [hreplies, List.getLast?_concat]
    rfl
  have hsorted := c.scanned.sorted
  rw [hreplies] at hx hsorted
  rw [hnext]
  rcases List.mem_append.mp hx with hx | hx
  · exact ((List.pairwise_append.mp hsorted).2.2 x hx last (List.mem_singleton_self _)).le
  · rw [List.mem_singleton.mp hx]

/-- Where an item of a list without duplicates lies. -/
theorem mem_take_iff {l : List String} {k n : Nat} (hl : l.Nodup) (hk : l[k]? = some e) :
    e ∈ l.take n ↔ k < n := by
  rw [List.mem_take_iff_getElem]
  obtain ⟨hlt, hget⟩ := List.getElem?_eq_some_iff.mp hk
  constructor
  · rintro ⟨j, hj, hje⟩
    have hjl : j < l.length := by omega
    have heq : j = k := (hl.getElem_inj_iff).mp (hje.trans hget.symm)
    omega
  · intro hkn
    exact ⟨k, by omega, hget⟩

theorem ReaddirCall.position_eq (c : ReaddirCall d inode rel) {k l : Nat}
    (hk : c.listing[k]? = some e) (hl : c.listing[l]? = some e) : k = l := by
  obtain ⟨hlt, -⟩ := List.getElem?_eq_some_iff.mp hk
  exact (List.getElem?_inj hlt c.nodup).mp (hk.trans hl.symm)

/-- A call that moves on has a reply tagged with its last offset. -/
theorem ReaddirCall.exists_next (c : ReaddirCall d inode rel) (h : c.off < c.next) :
    ∃ x ∈ c.replies, x.1 = c.next := by
  unfold ReaddirCall.next at h ⊢
  cases hlast : c.replies.getLast? with
  | none =>
    rw [hlast] at h
    exact absurd h (lt_irrefl _)
  | some x => exact ⟨x, List.mem_of_getLast? hlast, rfl⟩

/-- Each name is replied at most once. -/
theorem ReaddirCall.given_nodup (c : ReaddirCall d inode rel) : c.given.Nodup := by
  unfold ReaddirCall.given
  rw [List.Nodup, List.pairwise_map]
  refine c.scanned.sorted.imp_of_mem fun {x y} hx hy hlt heq => ?_
  obtain ⟨k, -, hk, hxk⟩ := c.placed hx
  obtain ⟨l, -, hl, hyl⟩ := c.placed hy
  rw [← heq] at hl
  have hkl : k = l := c.position_eq hk hl
  omega

theorem ReaddirCall.off_le_next (c : ReaddirCall d inode rel) : c.off ≤ c.next := by
  by_cases hnil : c.replies = []
  · have hnext : c.next = c.off := by
      unfold ReaddirCall.next
      rw [hnil]
      rfl
    exact hnext.ge
  · obtain ⟨x, hx⟩ := List.exists_mem_of_ne_nil _ hnil
    obtain ⟨k, hoff, -, htag⟩ := c.placed hx
    have hle := c.tag_le_next hx
    omega

/-- **A call gives an entry** that is there exactly where it lies between its two offsets. -/
theorem ReaddirCall.gives (he : c.Has e) : c.page.Gives e := by
  obtain ⟨hmem, hfound⟩ := he
  obtain ⟨k, hk⟩ := List.getElem?_of_mem hmem
  refine ⟨c.off_le_next, ?_⟩
  show c.given.count e = if e ∈ c.listing.take c.next ∧ e ∉ c.listing.take c.off then 1 else 0
  rw [if_congr (and_congr (mem_take_iff c.nodup hk) (not_congr (mem_take_iff c.nodup hk))) rfl rfl]
  have hgiven : e ∈ c.given ↔ k < c.next ∧ ¬ k < c.off := by
    unfold ReaddirCall.given
    rw [List.mem_map]
    constructor
    · rintro ⟨x, hx, rfl⟩
      obtain ⟨l, hoff, hl, htag⟩ := c.placed hx
      obtain rfl : k = l := c.position_eq hk hl
      have hle := c.tag_le_next hx
      omega
    · rintro ⟨hnext, hoff⟩
      obtain ⟨j, rfl⟩ : ∃ j, k = c.off + j := ⟨k - c.off, by omega⟩
      have hj : (c.listing.drop c.off)[j]? = some e := by rw [List.getElem?_drop, hk]
      obtain ⟨last, hlast, htag⟩ := c.exists_next (by omega)
      obtain ⟨x, hx, hxj⟩ := c.scanned.reached j e hj (hfound _) (.inr ⟨last, hlast, by omega⟩)
      obtain ⟨l, -, hl, hxl⟩ := c.placed hx
      obtain rfl : l = c.off + j := by omega
      exact ⟨x, hx, Option.some.inj (hl.symm.trans hk)⟩
  by_cases h : e ∈ c.given
  · rw [if_pos (hgiven.mp h)]
    exact List.count_eq_one_of_mem c.given_nodup h
  · rw [if_neg fun hin => h (hgiven.mpr hin)]
    exact List.count_eq_zero.mpr h

/-- A call with room that gives nothing has come past every entry that is there. -/
theorem ReaddirCall.past_of_nil (h : c.replies = []) (hroom : c.room ≠ 0) (he : c.Has e) :
    e ∈ c.listing.take c.off := by
  obtain ⟨hmem, hfound⟩ := he
  obtain ⟨k, hk⟩ := List.getElem?_of_mem hmem
  rw [mem_take_iff c.nodup hk]
  by_contra hoff
  obtain ⟨j, rfl⟩ : ∃ j, k = c.off + j := ⟨k - c.off, by omega⟩
  have hj : (c.listing.drop c.off)[j]? = some e := by rw [List.getElem?_drop, hk]
  have hlt : c.replies.length < c.room := by
    rw [h]
    exact Nat.pos_of_ne_zero hroom
  obtain ⟨x, hx, -⟩ := c.scanned.reached j e hj (hfound _) (.inl hlt)
  rw [h] at hx
  cases hx

/-- A call that gives something moves on, within its list. -/
theorem ReaddirCall.moves (h : c.replies ≠ []) : c.off < c.next ∧ c.next ≤ c.names.length + 2 := by
  obtain ⟨x, hx⟩ := List.exists_mem_of_ne_nil _ h
  have hlt : c.off < c.next := by
    obtain ⟨k, hoff, -, htag⟩ := c.placed hx
    have hle := c.tag_le_next hx
    omega
  refine ⟨hlt, ?_⟩
  obtain ⟨y, hy, htag⟩ := c.exists_next hlt
  obtain ⟨k, -, hk, hyk⟩ := c.placed hy
  obtain ⟨hkl, -⟩ := List.getElem?_eq_some_iff.mp hk
  have hlength : c.listing.length = c.names.length + 2 := rfl
  omega

end Call

/-! ## 3. A whole listing -/

section Listing

variable {d : Dispatcher} {inode : Nat} {rel : Path} {cs : List (ReaddirCall d inode rel)}

/-- The calls of one listing: from the first position on, each from the last accepted entry. -/
structure Continued (cs : List (ReaddirCall d inode rel)) : Prop where
  first : ∀ c ∈ cs.head?, c.off = 0
  resumes : cs.IsChain fun c c' => c'.off = c.next

/-- The last call has room and gives nothing. -/
def Ended (cs : List (ReaddirCall d inode rel)) : Prop :=
  ∃ c ∈ cs.getLast?, c.replies = [] ∧ c.room ≠ 0

/-- **No entry that stays crosses** the offset the next call starts at. -/
def ReaddirCall.Steady (c c' : ReaddirCall d inode rel) : Prop :=
  ∀ e, e ∈ c.listing → e ∈ c'.listing →
    (e ∈ c.listing.take c'.off ↔ e ∈ c'.listing.take c'.off)

/-- **A directory listing is stable** where between two calls no entry that stays crosses the
    offset: an entry that is there during the whole listing is returned exactly once. And a listing
    ends: as many calls as the directory ever has entries, the dots included, can return some. -/
theorem steady_listing (hcont : Continued cs) (hsteady : cs.IsChain ReaddirCall.Steady) :
    (Ended cs → ∀ e, (∀ c ∈ cs, c.Has e) → (cs.flatMap ReaddirCall.given).count e = 1) ∧
      ∀ n, (∀ c ∈ cs, c.names.length ≤ n ∧ c.replies ≠ []) → cs.length ≤ n + 2 := by
  have hpages : (cs.map ReaddirCall.page).IsChain Lib.Resumes :=
    (List.isChain_map _).mpr hcont.resumes
  have hfirst : ∀ q ∈ (cs.map ReaddirCall.page).head?, q.off = 0 := by
    intro q hq
    rw [List.head?_map] at hq
    obtain ⟨c, hc, rfl⟩ := Option.mem_map.mp hq
    exact hcont.first c hc
  constructor
  · rintro ⟨last, hlast, hnil, hroom⟩ e he
    have hgives : ∀ q ∈ cs.map ReaddirCall.page, q.Gives e ∧ e ∈ q.items := by
      intro q hq
      obtain ⟨c, hc, rfl⟩ := List.mem_map.mp hq
      exact ⟨ReaddirCall.gives (he c hc), (he c hc).1⟩
    have hpast : ∀ q ∈ (cs.map ReaddirCall.page).getLast?, e ∈ q.items.take q.off := by
      intro q hq
      rw [List.getLast?_map] at hq
      obtain ⟨c, hc, rfl⟩ := Option.mem_map.mp hq
      obtain rfl : c = last := Option.mem_unique hc hlast
      exact c.past_of_nil hnil hroom (he c (List.mem_of_getLast? hc))
    have hne : cs.map ReaddirCall.page ≠ [] := by
      intro hempty
      rw [List.map_eq_nil_iff.mp hempty] at hlast
      cases hlast
    have honce := Lib.given_once hne hpages ((List.isChain_map _).mpr hsteady) hgives hfirst hpast
    rwa [List.flatMap_map] at honce
  · intro n hn
    have hlength := Lib.pages_length_le (n := n + 2) hpages hfirst fun q hq => by
      obtain ⟨c, hc, rfl⟩ := List.mem_map.mp hq
      obtain ⟨hmoves, hle⟩ := ReaddirCall.moves (hn c hc).2
      exact ⟨hmoves, hle.trans (Nat.add_le_add_right (hn c hc).1 2)⟩
    rwa [List.length_map] at hlength

end Listing

/-! ### A root with registered children -/

section Children

def listedRoot : ObservationStorage := ⟨["data"], ["source"], reservedName⟩

def listedDispatcher : Dispatcher where
  roots := [listedRoot]
  root := listedRoot
  served := List.mem_cons_self
  distinct := fun _ hr _ => List.mem_singleton.mp hr
  apart := fun _ hr hne => absurd (List.mem_singleton.mp hr) hne

/-- The children of the root, each with its mount. -/
def listedView (names : List String) : HostView where
  node := fun p =>
    if p = ["source"] then some (.dir names)
    else if p.tail ∈ names.map fun name => [name] then some (.dir [])
    else none
  leadsTo := id
  entryOf := id
  manifest := fun _ _ => some ⟨false, 0, false, false⟩
  mountRw := fun _ child => .ok (some ["mount", child])
  fails := fun _ _ => none

variable {names : List String} {name : String} {s : FuseState} {off room : Nat}

theorem listedView_plain (h : ("." :: ".." :: names).Nodup) : (listedView names).Plain := by
  intro place ns hns
  change (if place = ["source"] then some (HostNode.dir names)
    else if place.tail ∈ names.map fun name => [name] then some (HostNode.dir []) else none) =
      some (HostNode.dir ns) at hns
  split at hns
  · obtain rfl := HostNode.dir.inj (Option.some.inj hns)
    exact h
  · split at hns
    · obtain rfl := HostNode.dir.inj (Option.some.inj hns)
      decide
    · cases hns

/-- A sorted listing of the root is given as it stands. -/
theorem listdir_listedView (hsorted : names.Pairwise (· ≤ ·)) (hres : reservedName ∉ names) :
    exec (listdir listedDispatcher (listedView names) []) s =
      (.ok names, s.log (.listed ["source"] names)) := by
  have hplace : exec (sourcePath listedDispatcher (listedView names) []) s =
      (.ok ["source"], s) := by
    simp [sourcePath, normalizeRel, privateChildPath, listedDispatcher, listedRoot]
  have hnode : (listedView names).node ["source"] = some (.dir names) := by simp [listedView]
  have hnames : sortedNames (names.filter (· ≠ reservedName)) = names := by
    have hfilter : names.filter (· ≠ reservedName) = names :=
      List.filter_eq_self.mpr fun name hname =>
        decide_eq_true fun heq => hres (heq ▸ hname)
    rw [hfilter]
    exact List.mergeSort_eq_self (r := (· ≤ ·)) hsorted
  unfold listdir
  simp only [exec_bind, hplace, hnode, hnames]
  rfl

/-- The replies of a call on a sorted listing, in a state that knows the root. -/
def listedReplies (names : List String) (s : FuseState) (off room : Nat) :
    Except DispatchError (List (Nat × String × Attributes)) × FuseState :=
  exec (offsetReplies listedDispatcher (fun _ => listedView names) [] (off + 1) room
    (("." :: ".." :: names).drop off)) (s.log (.listed ["source"] names))

/-- A call on a sorted listing. -/
def listedCall (names : List String) (s : FuseState) (off room : Nat)
    (replies : List (Nat × String × Attributes)) (hknown : s.inodeToPath rootInode = some [])
    (hnames : names.Pairwise (· ≤ ·) ∧ ("." :: ".." :: names).Nodup ∧ reservedName ∉ names)
    (hreplies : (listedReplies names s off room).1 = .ok replies) :
    ReaddirCall listedDispatcher rootInode [] where
  state := s
  env := fun _ => listedView names
  off := off
  room := room
  names := names
  replies := replies
  known := hknown
  plain := listedView_plain hnames.2.1
  answered := ⟨_, _, listdir_listedView hnames.1 hnames.2.2, Prod.ext hreplies rfl⟩

end Children

/-- Three children, and a call that has come to the end. -/
def steadyCalls : List (ReaddirCall listedDispatcher rootInode []) :=
  [listedCall ["a", "b", "c"] .start 0 9
      [(1, ".", ⟨1, .dir, 0⟩), (2, "..", ⟨1, .dir, 0⟩), (3, "a", ⟨2, .dir, 0⟩),
        (4, "b", ⟨3, .dir, 0⟩), (5, "c", ⟨4, .dir, 0⟩)] rfl (by decide +kernel) (by decide +kernel),
    listedCall ["a", "b", "c"] (listedReplies ["a", "b", "c"] .start 0 9).2 5 9 []
      (by decide +kernel) (by decide +kernel) (by decide +kernel)]

/-- The entry `b` in a steady listing. -/
theorem steady_listing_calls :
    (steadyCalls.flatMap ReaddirCall.given).count "b" = 1 ∧ [steadyCalls[0]].length ≤ 3 + 2 := by
  have hcont : Continued steadyCalls := by
    refine ⟨?_, .cons_cons rfl (.singleton _)⟩
    rintro c ⟨⟩
    rfl
  have hsteady : steadyCalls.IsChain ReaddirCall.Steady :=
    .cons_cons (fun e _ _ => Iff.rfl) (.singleton _)
  refine ⟨(steady_listing hcont hsteady).1 ⟨_, rfl, rfl, by decide⟩ "b" fun c hc => ?_, ?_⟩
  · rcases List.mem_cons.mp hc with rfl | hc
    · exact ⟨by decide +kernel, fun _ s => ⟨_, rfl⟩⟩
    · obtain rfl := List.mem_singleton.mp hc
      exact ⟨by decide +kernel, fun _ s => ⟨_, rfl⟩⟩
  · have hfirst : Continued [steadyCalls[0]] := by
      refine ⟨?_, .singleton _⟩
      rintro c ⟨⟩
      rfl
    refine (steady_listing hfirst (.singleton _)).2 3 fun c hc => ?_
    obtain rfl := List.mem_singleton.mp hc
    exact ⟨le_rfl, List.cons_ne_nil _ _⟩

/-! ### An entry before the offset is removed -/

/-- After the first call on `a`, `b`, `c`, whose buffer takes three entries. -/
def firstListed : FuseState := (listedReplies ["a", "b", "c"] .start 0 3).2

/-- `a` is removed. -/
def removedFirst : FuseState :=
  fuseNext listedDispatcher firstListed
    ⟨.rmdir rootInode "a", fun _ => listedView ["a", "b", "c"]⟩

/-- After the second call, on `b` and `c`. -/
def secondListed : FuseState := (listedReplies ["b", "c"] removedFirst 3 9).2

theorem threeNames : ["a", "b", "c"].Pairwise (· ≤ ·) ∧ ("." :: ".." :: ["a", "b", "c"]).Nodup ∧
    reservedName ∉ ["a", "b", "c"] := by decide +kernel

theorem twoNames : ["b", "c"].Pairwise (· ≤ ·) ∧ ("." :: ".." :: ["b", "c"]).Nodup ∧
    reservedName ∉ ["b", "c"] := by decide +kernel

/-- The three calls of the listing. -/
def skippingCalls : List (ReaddirCall listedDispatcher rootInode []) :=
  [listedCall ["a", "b", "c"] .start 0 3
      [(1, ".", ⟨1, .dir, 0⟩), (2, "..", ⟨1, .dir, 0⟩), (3, "a", ⟨2, .dir, 0⟩)] rfl threeNames
      (by decide +kernel),
    listedCall ["b", "c"] removedFirst 3 9 [(4, "c", ⟨4, .dir, 0⟩)] (by decide +kernel) twoNames
      (by decide +kernel),
    listedCall ["b", "c"] secondListed 4 9 [] (by decide +kernel) twoNames (by decide +kernel)]

/-- **An entry is left out** of a listing during which another one is removed. -/
theorem removed_entry_skips :
    Continued skippingCalls ∧ Ended skippingCalls ∧ (∀ c ∈ skippingCalls, c.Has "b") ∧
      (skippingCalls.flatMap ReaddirCall.given).count "b" = 0 := by
  refine ⟨⟨?_, ?_⟩, ⟨_, rfl, rfl, by decide⟩, ?_, by decide +kernel⟩
  · rintro c ⟨⟩
    rfl
  · exact .cons_cons rfl (.cons_cons rfl (.singleton _))
  · intro c hc
    rcases List.mem_cons.mp hc with rfl | hc
    · exact ⟨by decide +kernel, fun _ s => ⟨_, rfl⟩⟩
    · rcases List.mem_cons.mp hc with rfl | hc
      · exact ⟨by decide +kernel, fun _ s => ⟨_, rfl⟩⟩
      · obtain rfl := List.mem_singleton.mp hc
        exact ⟨by decide +kernel, fun _ s => ⟨_, rfl⟩⟩

end CccStorage.Observe
