/-
  File:      CccStorage/ManifestLoads.lean
  Subject:   A manifest that is written and read again (`ccc_storage_core/manifest.py`).

  * `document`, `dumps_document` -- what `_dumps_toml_subset` writes is the text of a TOML document;
  * `fromDict_document` -- `from_dict` of that document's table;
  * `loads_dumps`, `loads_dumps_unclean` -- reading what was written;
  * `manifest_readBack_iff` -- exactly when it gives back the manifest.
-/
import CccStorage.ManifestText

namespace CccStorage.TomlManifest

open Lib.Toml (Scalar Statement Table Pairs Section Document pairsTable listsTable Keys BareKey
  CleanText pairStatements block listStatements)
open Mountd (TomlValue TomlTable PyNumbers)

/-! ## 1. Lines -/

theorem quote_eq (value : String) : quote value = Lib.Toml.quote value := by
  have hchars : ∀ l : List Char, replaceChar '"' ['\\', '"'] (replaceChar '\\' ['\\', '\\'] l) =
      l.flatMap Lib.Toml.escaped := by
    intro l
    induction l with
    | nil => rfl
    | cons c l ih =>
        have hcons : replaceChar '\\' ['\\', '\\'] (c :: l) =
            (if c = '\\' then ['\\', '\\'] else [c]) ++ replaceChar '\\' ['\\', '\\'] l :=
          List.flatMap_cons
        rw [hcons, List.flatMap_cons, ← ih]
        unfold replaceChar Lib.Toml.escaped
        rw [List.flatMap_append]
        congr 1
        by_cases hslash : c = '\\'
        · rw [if_pos hslash, if_pos (.inl hslash), hslash]
          rfl
        · by_cases hquote : c = '"'
          · rw [if_neg hslash, if_pos (.inr hquote), hquote]
            rfl
          · rw [if_neg hslash, if_neg (not_or.mpr ⟨hslash, hquote⟩), List.flatMap_cons,
              if_neg hquote]
            rfl
  unfold quote Lib.Toml.quote
  rw [hchars]

section Lines

variable (shown : Lib.Toml.Value → String)

theorem pairLine_scalar (key : String) (x : Scalar) :
    pairLine shown key (.scalar x) = (Statement.pair key x).line := by
  cases x with
  | text s =>
    unfold pairLine Statement.line
    rw [scalar, quote_eq]
    rfl
  | int n => rfl
  | bool b => rfl

theorem pairLines (ps : Pairs) : ((pairsTable ps).map fun x => pairLine shown x.1 x.2) =
    (pairStatements ps).map Statement.line := by
  unfold pairsTable pairStatements
  rw [List.map_map, List.map_map]
  exact List.map_congr_left fun x _ => pairLine_scalar shown x.1 x.2

theorem emit_block (name : String) (ps : Pairs) (rest : Table)
    (hrest : ∀ x ∈ rest, ∀ y, x.2 ≠ .scalar y) :
    emitScalarTable shown name (pairsTable ps ++ rest) =
      (block (.table [name]) ps).map Statement.line := by
  have hscalars : (pairsTable ps).filterMap (scalarLine shown) =
      (pairStatements ps).map Statement.line := by
    rw [← pairLines shown, ← List.filterMap_eq_map]
    refine List.filterMap_congr fun x hx => ?_
    obtain ⟨y, -, rfl⟩ := List.mem_map.mp hx
    rfl
  have hnone : rest.filterMap (scalarLine shown) = [] := by
    refine List.filterMap_eq_nil_iff.mpr fun x hx => ?_
    unfold scalarLine
    split
    · rename_i y hy
      exact absurd hy (hrest x hx y)
    · rfl
  have hheader : (Statement.table [name]).line = '[' :: (name.toList ++ [']']) := by
    rw [Statement.line, Lib.Toml.dotted, List.map_singleton, List.intercalate_singleton]
  unfold emitScalarTable block
  rw [List.filterMap_append, hscalars, hnone, List.append_nil, List.map_cons, List.map_append,
    hheader]
  rfl

theorem item_block (header : Statement) (ps : Pairs) {text : String}
    (h : text.toList = header.line) :
    itemLines shown text (pairsTable ps) = (block header ps).map Statement.line := by
  unfold itemLines block
  rw [pairLines, h, List.map_cons, List.map_append]
  rfl

/-- The lines of the keys that are there, in the order of the keys. -/
theorem rootLines {keys : List String} (hkeys : keys.Nodup) {ps : Pairs}
    (hsub : (Keys ps).Sublist keys) {rest : Table} (hrest : ∀ k ∈ keys, k ∉ Keys rest) :
    (keys.filterMap fun key =>
      ((pairsTable ps ++ rest).lookup key).map (pairLine shown key)) =
      (pairStatements ps).map Statement.line := by
  have hlookup : ∀ key ∈ keys, (pairsTable ps ++ rest).lookup key =
      (ps.lookup key).map Lib.Toml.Value.scalar := by
    intro key hkey
    rw [List.lookup_append, Lib.lookup_of_not_key (hrest key hkey), Option.or_none]
    induction ps with
    | nil => rfl
    | cons p ps ih =>
        have htail := ih ((List.sublist_cons_self _ _).trans hsub)
        rw [pairsTable, List.map_cons, List.lookup_cons, List.lookup_cons]
        by_cases heq : key = p.1
        · rw [heq, beq_self_eq_true]
          rfl
        · rw [beq_eq_false_iff_ne.mpr heq]
          exact htail
  have hcongr : (keys.filterMap fun key =>
      ((pairsTable ps ++ rest).lookup key).map (pairLine shown key)) =
      keys.filterMap fun key => (ps.lookup key).map fun x => (Statement.pair key x).line := by
    refine List.filterMap_congr fun key hkey => ?_
    rw [hlookup key hkey, Option.map_map]
    congr 1
    funext x
    exact pairLine_scalar shown key x
  rw [hcongr]
  clear hcongr hlookup hrest
  induction keys generalizing ps with
  | nil =>
      rw [List.map_eq_nil_iff.mp (List.sublist_nil.mp hsub)]
      rfl
  | cons key keys ih =>
      rw [List.nodup_cons] at hkeys
      rw [List.filterMap_cons]
      cases ps with
      | nil =>
        show (keys.filterMap fun key => none) = []
        exact List.filterMap_none _
      | cons p ps =>
        rw [Keys, List.map_cons] at hsub
        by_cases heq : key = p.1
        · have htail : (Keys ps).Sublist keys := by
            rw [heq] at hsub
            exact List.Sublist.of_cons_cons hsub
          rw [heq, List.lookup_cons_self]
          show (Statement.pair p.1 p.2).line :: _ = _
          rw [pairStatements, List.map_cons, List.map_cons]
          refine congrArg _ ((List.filterMap_congr fun k hk => ?_).trans (ih hkeys.2 htail))
          have hne : k ≠ p.1 := by
            rintro rfl
            exact hkeys.1 (heq ▸ hk)
          rw [List.lookup_cons, beq_eq_false_iff_ne.mpr hne]
        · have htail : (p.1 :: Keys ps).Sublist keys := by
            rcases List.sublist_cons_iff.mp hsub with htail | ⟨r, hr, -⟩
            · exact htail
            · exact absurd (List.cons.inj hr).1.symm heq
          have hnone : (p :: ps).lookup key = none := by
            refine Lib.lookup_of_not_key fun hmem => ?_
            exact hkeys.1 (htail.subset hmem)
          rw [hnone]
          exact ih hkeys.2 htail

end Lines

/-! ## 2. The document of a manifest -/

/-- What is written of a manifest, as statements. -/
def document (m : ChildManifest) : Document where
  pairs := m.scalars
  sections := [
    { key := "pack_stack"
      pairs := [("active_revision", .text m.packStack.activeRevision)]
      lists := opt (m.packStack.lowers ≠ []) "lowers" (m.packStack.lowers.map PackInfo.toDict) },
    { key := "overlay", pairs := m.overlay.toDict, lists := [] },
    { key := "cold_storage", pairs := m.coldStorage.toDict, lists := [] }]
  lists := opt (m.childBoundaries ≠ []) "child_boundary" (m.childBoundaries.map boundaryDict)

theorem keys_opt {α : Type} (c : Bool) (key : String) (value : α) :
    (Keys (opt c key value)).Sublist [key] := by
  unfold opt
  split
  · exact List.Sublist.refl _
  · exact List.nil_sublist _

theorem keys_scalars (m : ChildManifest) : (Keys m.scalars).Sublist rootKeys := by
  unfold ChildManifest.scalars Keys
  simp only [List.map_append]
  exact ((((((List.Sublist.refl _).append (keys_opt _ _ _)).append (keys_opt _ _ _)).append
    (keys_opt _ _ _)).append (keys_opt _ _ _)).append (keys_opt _ _ _)).append (keys_opt _ _ _)

def packKeys : List String :=
  ["path", "sha256", "size", "block", "comp", "file_count", "level", "generation_min",
    "generation_max", "kind"]

def coldKeys : List String :=
  ["backend", "pack_state", "snapshot_state", "pack_generation", "mirror_generation",
    "overlay_generation", "mode", "uri", "archived_at", "last_mirrored_at", "last_recalled_at",
    "last_accessed_at"]

theorem keys_pack (p : PackInfo) : (Keys p.toDict).Sublist packKeys := by
  unfold PackInfo.toDict Keys
  simp only [List.map_append]
  exact (((((List.Sublist.refl _).append (keys_opt _ _ _)).append (keys_opt _ _ _)).append
    (keys_opt _ _ _)).append (keys_opt _ _ _)).append (keys_opt _ _ _)

theorem keys_cold (c : ColdStorageInfo) : (Keys c.toDict).Sublist coldKeys := by
  unfold ColdStorageInfo.toDict Keys
  simp only [List.map_append]
  exact ((((((List.Sublist.refl _).append (keys_opt _ _ _)).append (keys_opt _ _ _)).append
    (keys_opt _ _ _)).append (keys_opt _ _ _)).append (keys_opt _ _ _)).append (keys_opt _ _ _)

theorem listsTable_opt (c : Bool) (key : String) (items : List Pairs) :
    listsTable (opt c key items) = opt c key (.tables (items.map pairsTable)) := by
  unfold opt listsTable
  split <;> rfl

/-- The keys of the whole table. -/
theorem keys_document (m : ChildManifest) : (Keys (document m).table).Sublist
    (rootKeys ++ (["pack_stack", "overlay", "cold_storage"] ++ ["child_boundary"])) := by
  unfold Document.table
  rw [Keys, List.map_append, List.map_append, List.append_assoc, ← Keys, Lib.Toml.keys_pairsTable]
  refine (keys_scalars m).append (List.Sublist.append (List.Sublist.refl _) ?_)
  show (Keys (listsTable (document m).lists)).Sublist ["child_boundary"]
  unfold document
  rw [listsTable_opt]
  exact keys_opt _ _ _

theorem forall_mem_opt {α : Type} {c : Bool} {key : String} {value : α}
    {p : String × α → Prop} : (∀ x ∈ opt c key value, p x) ↔ (c = true → p (key, value)) := by
  unfold opt
  split
  · rename_i hc
    rw [List.forall_mem_singleton]
    exact ⟨fun h _ => h, fun h => h hc⟩
  · rename_i hc
    exact ⟨fun _ h => absurd h hc, fun _ => nofun⟩

theorem document_distinct (m : ChildManifest) : (document m).Distinct := by
  have hpack : ∀ p : PackInfo, (Keys p.toDict).Nodup := fun p =>
    (show packKeys.Nodup by decide).sublist (keys_pack p)
  have hcold : (Keys m.coldStorage.toDict).Nodup :=
    (show coldKeys.Nodup by decide).sublist (keys_cold _)
  refine ⟨?_, ?_, ?_⟩
  · have hall : (rootKeys ++ (["pack_stack", "overlay", "cold_storage"] ++
        ["child_boundary"])).Nodup := by decide
    exact hall.sublist (keys_document m)
  · unfold document
    simp only [List.forall_mem_cons]
    refine ⟨⟨?_, ?_⟩, ⟨?_, nofun⟩, ⟨?_, nofun⟩, nofun⟩
    · have hall : ["active_revision", "lowers"].Nodup := by decide
      refine hall.sublist ?_
      show (Keys (pairsTable _ ++ listsTable (opt _ _ _))).Sublist
        (["active_revision"] ++ ["lowers"])
      rw [listsTable_opt, Keys, List.map_append]
      exact List.Sublist.append (List.Sublist.refl _) (keys_opt _ _ _)
    · refine forall_mem_opt.mpr fun hne => ⟨by simpa using hne, fun ps hps => ?_⟩
      obtain ⟨p, -, rfl⟩ := List.mem_map.mp hps
      exact hpack p
    · show (Keys (pairsTable m.overlay.toDict ++ [])).Nodup
      rw [List.append_nil, Lib.Toml.keys_pairsTable]
      exact show ["mode", "active_upper", "overlay_generation"].Nodup by decide
    · show (Keys (pairsTable m.coldStorage.toDict ++ [])).Nodup
      rw [List.append_nil, Lib.Toml.keys_pairsTable]
      exact hcold
  · refine forall_mem_opt.mpr fun hne => ⟨by simpa using hne, fun ps hps => ?_⟩
    obtain ⟨b, -, rfl⟩ := List.mem_map.mp hps
    exact show ["path", "child_id", "mount_policy", "export_policy"].Nodup by decide

/-! ## 3. Its keys and its strings -/

theorem document_wellFormed (m : ChildManifest) : (document m).WellFormed := by
  have hroot : ∀ key ∈ rootKeys, BareKey key := Lib.Toml.bareKeys_of rfl
  have hpack : ∀ key ∈ packKeys, BareKey key := Lib.Toml.bareKeys_of rfl
  have hcold : ∀ key ∈ coldKeys, BareKey key := Lib.Toml.bareKeys_of rfl
  have hrest : ∀ key ∈ ["active_revision", "pack_stack", "overlay", "cold_storage",
      "child_boundary", "lowers"], BareKey key := Lib.Toml.bareKeys_of rfl
  have hoverlay : ∀ key ∈ ["mode", "active_upper", "overlay_generation"], BareKey key :=
    Lib.Toml.bareKeys_of rfl
  have hboundary : ∀ key ∈ ["path", "child_id", "mount_policy", "export_policy"], BareKey key :=
    Lib.Toml.bareKeys_of rfl
  have hlowers : ["pack_stack", "lowers"] ⊆ ["active_revision", "pack_stack", "overlay",
      "cold_storage", "child_boundary", "lowers"] := by simp
  have hpairs : ∀ {ps : Pairs} {keys : List String}, (Keys ps).Sublist keys →
      (∀ key ∈ keys, BareKey key) → ∀ x ∈ ps, BareKey x.1 :=
    fun hsub hkeys x hx => hkeys _ (hsub.subset (List.mem_map_of_mem hx))
  refine (Lib.Toml.forall_statements trivial).mpr ⟨hpairs (keys_scalars m) hroot, ?_, ?_⟩
  · simp only [document, List.forall_mem_cons]
    refine ⟨⟨⟨?_, ?_⟩, ?_⟩, ⟨⟨?_, ?_⟩, nofun⟩, ⟨⟨?_, hpairs (keys_cold _) hcold⟩, nofun⟩, nofun⟩
    · exact ⟨nofun, fun key hkey => hrest key (List.mem_singleton.mp hkey ▸ by simp)⟩
    · exact ⟨hrest _ (by simp), nofun⟩
    · refine forall_mem_opt.mpr fun _ => List.forall_mem_map.mpr fun p _ => ⟨⟨nofun, ?_⟩, ?_⟩
      · exact fun key hkey => hrest key (hlowers hkey)
      · exact hpairs (keys_pack p) hpack
    · exact ⟨nofun, fun key hkey => hrest key (List.mem_singleton.mp hkey ▸ by simp)⟩
    · exact hpairs (List.Sublist.refl _) hoverlay
    · exact ⟨nofun, fun key hkey => hrest key (List.mem_singleton.mp hkey ▸ by simp)⟩
  · refine forall_mem_opt.mpr fun _ => List.forall_mem_map.mpr fun b _ => ⟨⟨nofun, ?_⟩, ?_⟩
    · exact fun key hkey => hrest key (List.mem_singleton.mp hkey ▸ by simp)
    · exact hpairs (List.Sublist.refl _) hboundary

/-- The string fields of a pack. -/
def PackInfo.texts (p : PackInfo) : List String := [p.path, p.sha256, p.block, p.comp, p.kind]

def ColdStorageInfo.texts (c : ColdStorageInfo) : List String :=
  [c.backend, c.packState, c.snapshotState, c.mode, c.uri, c.archivedAt, c.lastMirroredAt,
    c.lastRecalledAt, c.lastAccessedAt]

def boundaryTexts (b : ChildBoundary) : List String :=
  [b.path, b.childId, b.mountPolicy, b.exportPolicy]

/-- All string fields of a manifest. -/
def ChildManifest.texts (m : ChildManifest) : List String :=
  [m.id, m.name, m.type, m.state, m.parentId, m.parentPath, m.createdTs, m.commitMode] ++
  [m.packStack.activeRevision] ++ m.packStack.lowers.flatMap PackInfo.texts ++
  [m.overlay.mode, m.overlay.activeUpper] ++ m.coldStorage.texts ++
  m.childBoundaries.flatMap boundaryTexts

/-- No string field holds a control character other than a tab. -/
def ChildManifest.Clean (m : ChildManifest) : Prop := ∀ s ∈ m.texts, CleanText s

/-- As the service makes them: `id` and kinds are not empty, boundaries have no slashes around
    them, and the schema is a known one. -/
structure ChildManifest.Canonical (m : ChildManifest) : Prop where
  id : m.id ≠ ""
  kinds : ∀ p ∈ m.packStack.lowers, p.kind ≠ ""
  boundaries : ∀ b ∈ m.childBoundaries, stripSlashes b.path = b.path
  schema : m.schemaVersion ≤ 1

/-- Leaving out the empty string leaves out nothing that could be unclean. -/
theorem clean_unless {s : String} {c : Bool} (h : c = false → CleanText s) :
    (c = true → CleanText s) ↔ CleanText s := by
  cases c with
  | false => exact ⟨fun _ => h rfl, fun hs _ => hs⟩
  | true => exact ⟨fun hs => hs rfl, fun hs _ => hs⟩

theorem clean_empty {s : String} (h : decide (s ≠ "") = false) : CleanText s := by
  rw [decide_eq_false_iff_not, not_not] at h
  subst h
  exact nofun

theorem clean_default {s default : String} (hclean : CleanText default)
    (h : (decide (s ≠ "") && decide (s ≠ default)) = false) : CleanText s := by
  rw [Bool.and_eq_false_iff, decide_eq_false_iff_not, decide_eq_false_iff_not, not_not,
    not_not] at h
  rcases h with rfl | rfl
  · exact nofun
  · exact hclean

theorem pack_clean (p : PackInfo) :
    (∀ x ∈ p.toDict, x.2.Clean) ↔ ∀ s ∈ p.texts, CleanText s := by
  unfold PackInfo.toDict PackInfo.texts
  have hbase : CleanText "base" := Lib.Toml.cleanText_of rfl
  simp only [List.forall_mem_append, List.forall_mem_cons, forall_mem_opt, Scalar.Clean,
    clean_unless (clean_default hbase), implies_true, true_and, and_true]
  simp only [List.not_mem_nil, false_imp_iff, implies_true, and_true]
  simp only [and_assoc]

theorem cold_clean (c : ColdStorageInfo) :
    (∀ x ∈ c.toDict, x.2.Clean) ↔ ∀ s ∈ c.texts, CleanText s := by
  unfold ColdStorageInfo.toDict ColdStorageInfo.texts
  simp only [List.forall_mem_append, List.forall_mem_cons, forall_mem_opt, Scalar.Clean,
    clean_unless clean_empty, true_and]
  simp only [List.not_mem_nil, false_imp_iff, implies_true, and_true]
  tauto

theorem boundary_clean {b : ChildBoundary} (h : stripSlashes b.path = b.path) :
    (∀ x ∈ boundaryDict b, x.2.Clean) ↔ ∀ s ∈ boundaryTexts b, CleanText s := by
  unfold boundaryDict boundaryTexts
  rw [h]
  simp only [List.forall_mem_cons, Scalar.Clean]
  simp only [List.not_mem_nil, false_imp_iff, implies_true, and_true]

theorem policy_clean (policy : WritePolicy) : CleanText policy.toString := by
  cases policy <;> exact Lib.Toml.cleanText_of rfl

theorem scalars_clean (m : ChildManifest) :
    (∀ x ∈ m.scalars, x.2.Clean) ↔ ∀ s ∈ [m.id, m.name, m.type, m.state, m.parentId, m.parentPath,
      m.createdTs, m.commitMode], CleanText s := by
  unfold ChildManifest.scalars
  have hauto : CleanText "auto" := Lib.Toml.cleanText_of rfl
  simp only [List.forall_mem_append, List.forall_mem_cons, forall_mem_opt, Scalar.Clean,
    clean_unless clean_empty, clean_unless (clean_default hauto), policy_clean, true_and,
    implies_true, and_true]
  simp only [List.not_mem_nil, false_imp_iff, implies_true, and_true, and_assoc]

/-- **The document is clean exactly when the string fields are.** -/
theorem document_clean_iff {m : ChildManifest} (h : m.Canonical) :
    (document m).Clean ↔ m.Clean := by
  have hlowers : (∀ l ∈ opt (m.packStack.lowers ≠ []) "lowers"
      (m.packStack.lowers.map PackInfo.toDict), ∀ ps ∈ l.2, True ∧ ∀ x ∈ ps, x.2.Clean) ↔
      ∀ s ∈ m.packStack.lowers.flatMap PackInfo.texts, CleanText s := by
    rw [forall_mem_opt, List.forall_mem_flatMap, List.forall_mem_map]
    simp only [true_and, pack_clean]
    refine ⟨fun hall p hp => hall (decide_eq_true (List.ne_nil_of_mem hp)) p hp, fun hall _ => hall⟩
  have hbounds : (∀ l ∈ opt (m.childBoundaries ≠ []) "child_boundary"
      (m.childBoundaries.map boundaryDict), ∀ ps ∈ l.2, True ∧ ∀ x ∈ ps, x.2.Clean) ↔
      ∀ s ∈ m.childBoundaries.flatMap boundaryTexts, CleanText s := by
    rw [forall_mem_opt, List.forall_mem_flatMap, List.forall_mem_map]
    simp only [true_and]
    refine ⟨fun hall b hb => ?_, fun hall _ b hb => ?_⟩
    · exact (boundary_clean (h.boundaries b hb)).mp
        (hall (decide_eq_true (List.ne_nil_of_mem hb)) b hb)
    · exact (boundary_clean (h.boundaries b hb)).mpr (hall b hb)
  unfold Document.Clean ChildManifest.Clean ChildManifest.texts
  rw [Lib.Toml.forall_statements trivial, List.forall_mem_append, List.forall_mem_append,
    List.forall_mem_append, List.forall_mem_append, List.forall_mem_append, ← scalars_clean,
    ← hlowers, ← hbounds, ← cold_clean]
  simp only [document, List.forall_mem_cons, OverlayInfo.toDict, Statement.Clean, Scalar.Clean,
    true_and]
  simp only [List.not_mem_nil, false_imp_iff, implies_true, and_true, and_assoc]

/-! ## 4. The text of the document -/

/-- The statements end with a pair and a blank line. -/
def EndsInPair (ss : List Statement) : Prop :=
  ∃ body key value, ss = body ++ [.pair key value, .blank]

theorem EndsInPair.after {ss : List Statement} (h : EndsInPair ss) (before : List Statement) :
    EndsInPair (before ++ ss) := by
  obtain ⟨body, key, value, rfl⟩ := h
  exact ⟨before ++ body, key, value, (List.append_assoc _ _ _).symm⟩

theorem block_ends {header : Statement} {ps : Pairs} (h : ps ≠ []) :
    EndsInPair (block header ps) := by
  obtain ⟨init, last, rfl⟩ := (List.eq_nil_or_concat' ps).resolve_left h
  refine ⟨header :: pairStatements init, last.1, last.2, ?_⟩
  unfold block pairStatements
  rw [List.map_append, List.append_assoc]
  rfl

theorem document_ends (m : ChildManifest) : EndsInPair (document m).statements := by
  unfold Document.statements
  by_cases hb : m.childBoundaries = []
  · have hlists : (document m).lists = [] := if_neg (by simp [hb])
    have hcold : m.coldStorage.toDict ≠ [] := List.cons_ne_nil _ _
    rw [hlists, List.flatMap_nil, List.append_nil]
    refine EndsInPair.after ?_ _
    have hsections : (document m).sections.flatMap Section.statements =
        ((document m).sections.take 2).flatMap Section.statements ++
          block (.table ["cold_storage"]) m.coldStorage.toDict := by
      unfold document
      simp only [List.take, List.flatMap_cons, List.flatMap_nil, List.append_nil, List.append_assoc]
      rw [Section.statements, Section.statements, Section.statements, List.flatMap_nil,
        List.flatMap_nil, List.append_nil, List.append_nil]
    rw [hsections]
    exact (block_ends hcold).after _
  · obtain ⟨init, last, hlast⟩ := (List.eq_nil_or_concat' m.childBoundaries).resolve_left hb
    have hlists : (document m).lists =
        [("child_boundary", m.childBoundaries.map boundaryDict)] := if_pos (by simp [hb])
    have hpairs : boundaryDict last ≠ [] := List.cons_ne_nil _ _
    refine EndsInPair.after ?_ _
    rw [hlists, List.flatMap_cons, List.flatMap_nil, List.append_nil, listStatements, hlast,
      List.map_append, List.flatMap_append]
    refine EndsInPair.after ?_ _
    rw [List.map_singleton, List.flatMap_cons, List.flatMap_nil, List.append_nil]
    exact block_ends hpairs

/-- No value ends with white space. -/
theorem chars_last (x : Scalar) : ∃ init c, x.chars = init ++ [c] ∧ isSpace c = false := by
  cases x with
  | text s => exact ⟨_, '"', (List.cons_append ..).symm, rfl⟩
  | bool b =>
    cases b with
    | true => exact ⟨['t', 'r', 'u'], 'e', rfl, rfl⟩
    | false => exact ⟨['f', 'a', 'l', 's'], 'e', rfl, rfl⟩
  | int n =>
    obtain ⟨init, c, heq⟩ := (List.eq_nil_or_concat' (Lib.JsonText.intText n)).resolve_left
      (Lib.Toml.intText_ne_nil n)
    refine ⟨init, c, heq, ?_⟩
    have hmem : c ∈ Lib.JsonText.intText n := heq ▸ List.mem_append_right _ List.mem_cons_self
    rcases Lib.Toml.intText_chars hmem with rfl | hdigit
    · rfl
    · unfold Char.isDigit at hdigit
      simp only [Bool.and_eq_true, decide_eq_true_eq, ge_iff_le, UInt32.le_iff_toNat_le] at hdigit
      have hle : 48 ≤ c.toNat ∧ c.toNat ≤ 57 := hdigit
      unfold isSpace
      simp only [Bool.or_eq_false_iff, Bool.and_eq_false_iff, decide_eq_false_iff_not,
        beq_eq_false_iff_ne]
      omega

/-- The line feeds at the end are all that is stripped. -/
theorem rstrip_lines {init : List Char} {c : Char} (h : isSpace c = false) :
    rstrip (init ++ [c] ++ ['\n']) = init ++ [c] := by
  have hlf : isSpace '\n' = true := rfl
  unfold rstrip
  rw [List.reverse_append, List.reverse_append, List.reverse_singleton, List.reverse_singleton,
    List.singleton_append, List.singleton_append, List.dropWhile_cons_of_pos hlf,
    List.dropWhile_cons_of_neg (by rw [h]; decide), List.reverse_cons, List.reverse_reverse]

section Text

variable (shown : Lib.Toml.Value → String) (m : ChildManifest)

/-- Which keys of the dictionary are not written first. -/
def rest : Table :=
  [("pack_stack", .table m.packStack.toDict), ("overlay", .table (pairsTable m.overlay.toDict)),
    ("cold_storage", .table (pairsTable m.coldStorage.toDict))] ++
  opt (m.childBoundaries ≠ []) "child_boundary"
    (.tables (m.childBoundaries.map fun b => pairsTable (boundaryDict b)))

theorem toDict_eq : m.toDict = pairsTable m.scalars ++ rest m := by
  unfold ChildManifest.toDict rest
  rw [List.append_assoc]

theorem keys_rest : (Keys (rest m)).Sublist
    (["pack_stack", "overlay", "cold_storage"] ++ ["child_boundary"]) := by
  unfold rest Keys
  rw [List.map_append]
  exact List.Sublist.append (List.Sublist.refl _) (keys_opt _ _ _)

theorem lookup_opt {α : Type} (c : Bool) (key key' : String) (value : α) :
    (opt c key value).lookup key' = if key' = key ∧ c then some value else none := by
  unfold opt
  cases c with
  | false => simp
  | true => by_cases h : key' = key <;> simp [h]

/-- What is looked up among the tables. -/
theorem lookup_rest {key : String} (h : key ∉ rootKeys) :
    m.toDict.lookup key = (rest m).lookup key := by
  have hkey : key ∉ Keys (pairsTable m.scalars) := by
    rw [Lib.Toml.keys_pairsTable]
    exact fun hmem => h ((keys_scalars m).subset hmem)
  rw [toDict_eq, List.lookup_append, Lib.lookup_of_not_key hkey, Option.none_or]

/-- The lines of an array that is written if it is not empty. -/
theorem items_lines {α : Type} (header key : String) (path : List String) (items : List α)
    (dict : α → Pairs) (h : header.toList = (Statement.element (path ++ [key])).line) :
    (items.map fun x => pairsTable (dict x)).flatMap (itemLines shown header) =
      ((opt (items ≠ []) key (items.map dict)).flatMap (listStatements path)).map
        Statement.line := by
  have hlines : (items.map fun x => pairsTable (dict x)).flatMap (itemLines shown header) =
      ((items.map dict).flatMap (block (.element (path ++ [key])))).map Statement.line := by
    rw [List.flatMap_map, List.flatMap_map, List.map_flatMap]
    exact List.flatMap_congr fun x _ => item_block shown _ (dict x) h
  rw [hlines]
  by_cases hnil : items = []
  · subst hnil
    rfl
  · unfold opt
    rw [if_pos (by simpa using hnil), List.flatMap_cons, List.flatMap_nil, List.append_nil]
    rfl

/-- **The lines are those of the document's statements.** -/
theorem tomlLines_eq : tomlLines shown m.toDict =
    (document m).statements.map Statement.line := by
  have hroot : (rootKeys.filterMap fun key =>
      (m.toDict.lookup key).map (pairLine shown key)) =
      (pairStatements m.scalars).map Statement.line := by
    rw [toDict_eq]
    refine rootLines shown (by decide) (keys_scalars m) fun key hkey hmem => ?_
    have hapart : ∀ key ∈ rootKeys, key ∉ ["pack_stack", "overlay", "cold_storage"] ++
        ["child_boundary"] := by decide
    exact hapart key hkey ((keys_rest m).subset hmem)
  have hpack : m.toDict.lookup "pack_stack" = some (.table m.packStack.toDict) := by
    rw [lookup_rest m (by decide)]
    rfl
  have hoverlay : m.toDict.lookup "overlay" = some (.table (pairsTable m.overlay.toDict)) := by
    rw [lookup_rest m (by decide)]
    rfl
  have hcold : m.toDict.lookup "cold_storage" =
      some (.table (pairsTable m.coldStorage.toDict)) := by
    rw [lookup_rest m (by decide)]
    rfl
  have hbounds : itemsOf m.toDict "child_boundary" =
      m.childBoundaries.map fun b => pairsTable (boundaryDict b) := by
    have hthree : [("pack_stack", Lib.Toml.Value.table m.packStack.toDict),
        ("overlay", .table (pairsTable m.overlay.toDict)),
        ("cold_storage", .table (pairsTable m.coldStorage.toDict))].lookup "child_boundary" =
        none := rfl
    unfold itemsOf
    rw [lookup_rest m (by decide), rest, List.lookup_append, lookup_opt, hthree]
    by_cases hnil : m.childBoundaries = []
    · simp [hnil]
    · simp [hnil]
  have hlowers : itemsOf m.packStack.toDict "lowers" =
      m.packStack.lowers.map fun pack => pairsTable pack.toDict := rfl
  have hemitPack : tableLines shown m.toDict "pack_stack" = (Section.statements
      { key := "pack_stack"
        pairs := [("active_revision", .text m.packStack.activeRevision)]
        lists := opt (m.packStack.lowers ≠ []) "lowers"
          (m.packStack.lowers.map PackInfo.toDict) }).map Statement.line := by
    have hblock := emit_block shown "pack_stack"
      [("active_revision", Scalar.text m.packStack.activeRevision)]
      [("lowers", .tables (m.packStack.lowers.map fun pack => pairsTable pack.toDict))]
      (by simp)
    unfold tableLines Section.statements
    rw [hpack, List.map_append, ← hblock,
      ← items_lines shown "[[pack_stack.lowers]]" "lowers" ["pack_stack"] m.packStack.lowers
        PackInfo.toDict (by decide), ← hlowers]
    rfl
  have hemit : ∀ (name : String) (ps : Pairs), name ≠ "pack_stack" →
      m.toDict.lookup name = some (.table (pairsTable ps)) →
      tableLines shown m.toDict name = (Section.statements
        { key := name, pairs := ps, lists := [] }).map Statement.line := by
    intro name ps hname hlookup
    have hblock := emit_block shown name ps [] nofun
    rw [List.append_nil] at hblock
    unfold tableLines Section.statements
    rw [hlookup, List.flatMap_nil, List.append_nil, ← hblock]
    show _ ++ (if name = "pack_stack" then _ else []) = _
    rw [if_neg hname, List.append_nil]
  unfold tomlLines Document.statements
  rw [hroot, hbounds, items_lines shown "[[child_boundary]]" "child_boundary" [] m.childBoundaries
    boundaryDict (by decide)]
  simp only [List.flatMap_cons, List.flatMap_nil, List.append_nil, document, List.map_append,
    hemitPack, hemit "overlay" _ (by decide) hoverlay, hemit "cold_storage" _ (by decide) hcold]
  rfl

/-- **What is written is the text of the document**, but for the blank line at its end. -/
theorem dumps_document : ∃ body : List Statement,
    (document m).statements = body ++ [.blank] ∧ body ≠ [] ∧
    dumpsTomlSubset shown m.toDict = Lib.Toml.textOf (body.map Statement.line) := by
  obtain ⟨body, key, value, hbody⟩ := document_ends m
  refine ⟨body ++ [.pair key value], by rw [hbody, List.append_assoc]; rfl, by simp, ?_⟩
  obtain ⟨init, c, hchars, hc⟩ := chars_last value
  obtain ⟨front, hfront⟩ : ∃ front,
      Lib.joined '\n' ((body ++ [Statement.pair key value]).map Statement.line) = front ++ [c] := by
    have hline : (Statement.pair key value).line =
        (key.toList ++ ' ' :: '=' :: ' ' :: init) ++ [c] := by
      rw [Statement.line, hchars]
      simp
    rw [List.map_append, List.map_singleton, hline]
    by_cases hnil : body.map Statement.line = []
    · rw [hnil, List.nil_append, Lib.joined_singleton]
      exact ⟨_, rfl⟩
    · rw [Lib.joined_append hnil (List.cons_ne_nil _ _), Lib.joined_singleton]
      refine ⟨Lib.joined '\n' (body.map Statement.line) ++
        '\n' :: (key.toList ++ ' ' :: '=' :: ' ' :: init), ?_⟩
      simp
  have hlines : Lib.joined '\n' (tomlLines shown m.toDict) = front ++ [c] ++ ['\n'] := by
    have hsplit : (document m).statements.map Statement.line =
        (body ++ [Statement.pair key value]).map Statement.line ++ [[]] := by
      rw [hbody, ← List.singleton_append, ← List.append_assoc, List.map_append]
      rfl
    rw [tomlLines_eq, hsplit, Lib.joined_append (by simp) (List.cons_ne_nil _ _), hfront,
      Lib.joined_singleton]
  unfold dumpsTomlSubset Lib.Toml.textOf
  rw [hlines, rstrip_lines hc, hfront]

end Text

/-! ## 5. The table that is read -/

section Reader

variable {F : Type} (py : PyReads F)

theorem lookup_ofTable (t : Table) (key : String) :
    (ofTable (F := F) t).lookup key = (t.lookup key).map ofValue := by
  induction t with
  | nil => rw [ofTable]; rfl
  | cons x t ih =>
      obtain ⟨k, v⟩ := x
      rw [ofTable, List.lookup_cons, List.lookup_cons]
      cases key == k
      · exact ih
      · rfl

theorem lookup_pairsTable (ps : Pairs) (key : String) :
    (pairsTable ps).lookup key = (ps.lookup key).map .scalar := by
  induction ps with
  | nil => rfl
  | cons x ps ih =>
      rw [pairsTable, List.map_cons, List.lookup_cons, List.lookup_cons]
      cases key == x.1
      · exact ih
      · rfl

/-- A table in which the key is looked up as in the pairs. -/
def SeenAs (t : Table) (ps : Pairs) (key : String) : Prop :=
  t.lookup key = (ps.lookup key).map .scalar

variable {py} {t : Table} {ps : Pairs} {key : String}

theorem SeenAs.lookup (h : SeenAs t ps key) : (ofTable (F := F) t).lookup key =
    (ps.lookup key).map fun x => ofValue (.scalar x) := by
  rw [lookup_ofTable, h, Option.map_map]
  rfl

theorem SeenAs.needStr_eq {s : String} (h : SeenAs t ps key)
    (hkey : ps.lookup key = some (.text s)) :
    needStr py (ofTable t) key = .ok s := by
  unfold needStr
  rw [h.lookup, hkey]
  rfl

theorem SeenAs.needInt_eq {n : Int} (h : SeenAs t ps key) (hkey : ps.lookup key = some (.int n)) :
    needInt py (ofTable t) key = .ok n := by
  unfold needInt
  rw [h.lookup, hkey]
  rfl

/-- A string that is written unless it is the default. -/
theorem SeenAs.getStr_eq {s default : String} {c : Bool} (h : SeenAs t ps key)
    (hc : c = false → s = default)
    (hkey : ps.lookup key = if c then some (.text s) else none) :
    getStr py (ofTable t) key default = s := by
  unfold getStr
  rw [h.lookup, hkey]
  cases c with
  | true => rfl
  | false => exact (hc rfl).symm

/-- A number that is written unless it is the default. -/
theorem SeenAs.getInt_eq {n default : Int} {c : Bool} (h : SeenAs t ps key)
    (hc : c = false → n = default)
    (hkey : ps.lookup key = if c then some (.int n) else none) :
    getInt py (ofTable t) key default = .ok n := by
  unfold getInt
  rw [h.lookup, hkey]
  cases c with
  | true => rfl
  | false => exact congrArg Except.ok (hc rfl).symm

variable (py)

/-- **A pack is read back**, if its kind is not empty. -/
theorem packFromDict_toDict {p : PackInfo} (h : p.kind ≠ "") :
    packFromDict py (ofTable (pairsTable p.toDict)) = .ok p := by
  have seen : ∀ key, SeenAs (pairsTable p.toDict) p.toDict key := lookup_pairsTable p.toDict
  have hcount : ((ofTable (F := F) (pairsTable p.toDict)).lookup "file_count").elim (.ok none)
      (fun v => (pyInt py v).map some) = .ok p.fileCount := by
    have hkey : p.toDict.lookup "file_count" =
        if p.fileCount.isSome then some (.int (p.fileCount.getD 0)) else none := by
      simp [PackInfo.toDict, List.lookup_append, lookup_opt, List.lookup_cons]
    rw [(seen "file_count").lookup, hkey]
    cases p.fileCount with
    | none => rfl
    | some n => rfl
  have hlevel : getInt py (ofTable (pairsTable p.toDict)) "level" 0 = .ok p.level :=
    (seen "level").getInt_eq (c := p.level ≠ 0) (by simp)
      (by simp [PackInfo.toDict, List.lookup_append, lookup_opt, List.lookup_cons])
  have hmin : getInt py (ofTable (pairsTable p.toDict)) "generation_min" 0 =
      .ok p.generationMin :=
    (seen "generation_min").getInt_eq (c := p.generationMin ≠ 0) (by simp)
      (by simp [PackInfo.toDict, List.lookup_append, lookup_opt, List.lookup_cons])
  have hmax : getInt py (ofTable (pairsTable p.toDict)) "generation_max" 0 =
      .ok p.generationMax :=
    (seen "generation_max").getInt_eq (c := p.generationMax ≠ 0) (by simp)
      (by simp [PackInfo.toDict, List.lookup_append, lookup_opt, List.lookup_cons])
  have hkind : getStr py (ofTable (pairsTable p.toDict)) "kind" "base" = p.kind :=
    (seen "kind").getStr_eq (c := p.kind ≠ "base") (by simp)
      (by simp [PackInfo.toDict, List.lookup_append, lookup_opt, List.lookup_cons, h])
  have hblock : getStr py (ofTable (pairsTable p.toDict)) "block" "1M" = p.block :=
    (seen "block").getStr_eq (c := true) nofun rfl
  have hcomp : getStr py (ofTable (pairsTable p.toDict)) "comp" "zstd" = p.comp :=
    (seen "comp").getStr_eq (c := true) nofun rfl
  unfold packFromDict
  rw [(seen "path").needStr_eq (s := p.path) rfl, (seen "sha256").needStr_eq (s := p.sha256) rfl,
    (seen "size").needInt_eq (n := p.size) rfl, hcount, hlevel, hmin, hmax, hkind, hblock, hcomp]
  rfl

/-- **The overlay is read back.** -/
theorem overlayFromDict_toDict (o : OverlayInfo) :
    overlayFromDict py (some (.table (ofTable (pairsTable o.toDict)))) = .ok o := by
  have seen : ∀ key, SeenAs (pairsTable o.toDict) o.toDict key := lookup_pairsTable o.toDict
  have hgeneration : getInt py (ofTable (pairsTable o.toDict)) "overlay_generation" 0 =
      .ok o.overlayGeneration := (seen "overlay_generation").getInt_eq (c := true) nofun rfl
  have hmode : getStr py (ofTable (pairsTable o.toDict)) "mode" "none" = o.mode :=
    (seen "mode").getStr_eq (c := true) nofun rfl
  have hupper : getStr py (ofTable (pairsTable o.toDict)) "active_upper" "" = o.activeUpper :=
    (seen "active_upper").getStr_eq (c := true) nofun rfl
  have htable : tableOf py (some (.table (ofTable (pairsTable o.toDict)))) =
      .ok (some (ofTable (pairsTable o.toDict))) := rfl
  unfold overlayFromDict
  simp only [htable, hgeneration, hmode, hupper, bind, Except.bind]
  rfl

/-- **A boundary is read back**, if there are no slashes around its path. -/
theorem boundaryFromDict_toDict {b : ChildBoundary} (h : stripSlashes b.path = b.path) :
    boundaryFromDict py (ofTable (pairsTable (boundaryDict b))) = .ok b := by
  have seen : ∀ key, SeenAs (pairsTable (boundaryDict b)) (boundaryDict b) key :=
    lookup_pairsTable (boundaryDict b)
  have hmount : getStr py (ofTable (pairsTable (boundaryDict b))) "mount_policy" "lazy" =
      b.mountPolicy := (seen "mount_policy").getStr_eq (c := true) nofun rfl
  have hexport : getStr py (ofTable (pairsTable (boundaryDict b))) "export_policy" "explicit" =
      b.exportPolicy := (seen "export_policy").getStr_eq (c := true) nofun rfl
  unfold boundaryFromDict
  rw [(seen "path").needStr_eq (s := stripSlashes b.path) rfl,
    (seen "child_id").needStr_eq (s := b.childId) rfl, hmount, hexport]
  show Except.ok (ChildBoundary.mk (stripSlashes (stripSlashes b.path)) _ _ _) = _
  rw [h, h]

/-- **The cold-storage state is read back.** -/
theorem coldStorageFromDict_toDict (c : ColdStorageInfo) :
    coldStorageFromDict py (some (.table (ofTable (pairsTable c.toDict)))) = .ok c := by
  have seen : ∀ key, SeenAs (pairsTable c.toDict) c.toDict key := lookup_pairsTable c.toDict
  -- the strings that are left out when they are empty
  have hopt : ∀ (key s : String), (c.toDict.lookup key =
      if decide (s ≠ "") then some (.text s) else none) →
      getStr py (ofTable (pairsTable c.toDict)) key "" = s := fun key s hkey =>
    (seen key).getStr_eq (c := s ≠ "") (by simp) hkey
  have hmode := hopt "mode" c.mode
    (by simp [ColdStorageInfo.toDict, List.lookup_append, lookup_opt, List.lookup_cons])
  have huri := hopt "uri" c.uri
    (by simp [ColdStorageInfo.toDict, List.lookup_append, lookup_opt, List.lookup_cons])
  have harchived := hopt "archived_at" c.archivedAt
    (by simp [ColdStorageInfo.toDict, List.lookup_append, lookup_opt, List.lookup_cons])
  have hmirrored := hopt "last_mirrored_at" c.lastMirroredAt
    (by simp [ColdStorageInfo.toDict, List.lookup_append, lookup_opt, List.lookup_cons])
  have hrecalled := hopt "last_recalled_at" c.lastRecalledAt
    (by simp [ColdStorageInfo.toDict, List.lookup_append, lookup_opt, List.lookup_cons])
  have haccessed := hopt "last_accessed_at" c.lastAccessedAt
    (by simp [ColdStorageInfo.toDict, List.lookup_append, lookup_opt, List.lookup_cons])
  have hbackend : getStr py (ofTable (pairsTable c.toDict)) "backend" "s3" = c.backend :=
    (seen "backend").getStr_eq (c := true) nofun rfl
  have hpack : getStr py (ofTable (pairsTable c.toDict)) "pack_state" "missing" = c.packState :=
    (seen "pack_state").getStr_eq (c := true) nofun rfl
  have hsnapshot : getStr py (ofTable (pairsTable c.toDict)) "snapshot_state" "unavailable" =
      c.snapshotState := (seen "snapshot_state").getStr_eq (c := true) nofun rfl
  have hpackGen : getInt py (ofTable (pairsTable c.toDict)) "pack_generation" 0 =
      .ok c.packGeneration := (seen "pack_generation").getInt_eq (c := true) nofun rfl
  have hmirror : (ofTable (F := F) (pairsTable c.toDict)).lookup "mirror_generation" =
      some (.int c.mirrorGeneration) := by
    rw [(seen "mirror_generation").lookup]
    rfl
  have hoverlay : getInt py (ofTable (pairsTable c.toDict)) "overlay_generation" 0 =
      .ok c.overlayGeneration := (seen "overlay_generation").getInt_eq (c := true) nofun rfl
  have htable : tableOf py (some (.table (ofTable (pairsTable c.toDict)))) =
      .ok (some (ofTable (pairsTable c.toDict))) := rfl
  unfold coldStorageFromDict
  simp only [htable, hmode, huri, harchived, hmirrored, hrecalled, haccessed, hbackend, hpack,
    hsnapshot, hpackGen, hmirror, hoverlay, bind, Except.bind]
  rfl

/-- The items of an array are read one by one. -/
theorem mapM_ofTables {α : Type} {dict : α → Pairs} {read : TomlTable F → Except LoadError α}
    {items : List α} (h : ∀ a ∈ items, read (ofTable (pairsTable (dict a))) = .ok a) :
    (ofTables (F := F) (items.map fun a => pairsTable (dict a))).mapM
      (fun item => do read (← asTable item)) = .ok items := by
  induction items with
  | nil =>
      rw [List.map_nil, ofTables]
      rfl
  | cons a items ih =>
      rw [List.forall_mem_cons] at h
      rw [List.map_cons, ofTables, List.mapM_cons, ih h.2]
      show (read (ofTable (pairsTable (dict a))) >>= fun b => _) = _
      rw [h.1]
      rfl

/-- An array that is written if it is not empty, as it is iterated over. -/
theorem iterated_items {α : Type} {dict : α → Pairs} {items : List α}
    {value : Option Lib.Toml.Value}
    (h : value = if items ≠ [] then some (.tables ((items.map dict).map pairsTable)) else none) :
    boundaryItems (value.map ofValue) =
        .ok (ofTables (F := F) (items.map fun a => pairsTable (dict a))) ∧
      iterated (value.map ofValue) =
        .ok (ofTables (F := F) (items.map fun a => pairsTable (dict a))) := by
  subst h
  by_cases hnil : items = []
  · rw [if_neg (not_not.mpr hnil), hnil, List.map_nil, ofTables]
    exact ⟨rfl, rfl⟩
  · rw [if_pos hnil, List.map_map]
    exact ⟨rfl, rfl⟩

/-- The table of the pack stack, as it is read. -/
def stackTable (s : PackStack) : Table :=
  pairsTable [("active_revision", .text s.activeRevision)] ++
    listsTable (opt (s.lowers ≠ []) "lowers" (s.lowers.map PackInfo.toDict))

/-- **The pack stack is read back**, if no kind is empty. -/
theorem packStackFromDict_toDict {s : PackStack} (h : ∀ p ∈ s.lowers, p.kind ≠ "") :
    packStackFromDict py (some (.table (ofTable (stackTable s)))) = .ok s := by
  have hrevision : getStr py (ofTable (stackTable s)) "active_revision" "" = s.activeRevision := by
    unfold getStr
    rw [lookup_ofTable]
    rfl
  have hitems : iterated ((ofTable (F := F) (stackTable s)).lookup "lowers") =
      .ok (ofTables (s.lowers.map fun p => pairsTable p.toDict)) := by
    rw [lookup_ofTable]
    refine (iterated_items ?_).2
    unfold stackTable
    rw [listsTable_opt, List.lookup_append, lookup_opt]
    show Option.or none (if "lowers" = "lowers" ∧ decide (s.lowers ≠ []) then _ else _) = _
    simp only [true_and, decide_eq_true_eq, Option.none_or]
  have htable : tableOf py (some (.table (ofTable (stackTable s)))) =
      .ok (some (ofTable (stackTable s))) := rfl
  unfold packStackFromDict
  simp only [htable, hitems, hrevision, bind, Except.bind]
  have hlowers := mapM_ofTables fun p hp => packFromDict_toDict py (h p hp)
  simp only [bind, Except.bind] at hlowers
  rw [hlowers]
  rfl

/-! ## 6. The whole manifest -/

theorem seen_root (m : ChildManifest) {key : String} (h : key ∈ rootKeys) :
    SeenAs (document m).table m.scalars key := by
  have hsections : key ∉ Keys ((document m).sections.map fun s =>
      (s.key, Lib.Toml.Value.table s.table)) := by
    have hapart : ∀ key ∈ rootKeys, key ∉ ["pack_stack", "overlay", "cold_storage"] := by decide
    exact hapart key h
  have hlists : key ∉ Keys (listsTable (document m).lists) := by
    have hapart : ∀ key ∈ rootKeys, key ∉ ["child_boundary"] := by decide
    intro hmem
    refine hapart key h (List.Sublist.subset ?_ hmem)
    show (Keys (listsTable (opt _ _ _))).Sublist ["child_boundary"]
    rw [listsTable_opt]
    exact keys_opt _ _ _
  unfold SeenAs Document.table
  rw [List.lookup_append, List.lookup_append, Lib.lookup_of_not_key hsections,
    Lib.lookup_of_not_key hlists, Option.or_none, Option.or_none]
  exact lookup_pairsTable _ _

/-- The tables of the manifest, looked up. -/
theorem lookup_section (m : ChildManifest) {key : String} (h : key ∉ rootKeys) :
    (document m).table.lookup key =
      (((document m).sections.map fun s => (s.key, Lib.Toml.Value.table s.table)) ++
        listsTable (document m).lists).lookup key := by
  have hkey : key ∉ Keys (pairsTable m.scalars) := by
    rw [Lib.Toml.keys_pairsTable]
    exact fun hmem => h ((keys_scalars m).subset hmem)
  have hnone : (pairsTable (document m).pairs).lookup key = none := Lib.lookup_of_not_key hkey
  unfold Document.table
  rw [List.append_assoc, List.lookup_append, hnone, Option.none_or]

/-- What reading makes of a manifest: an empty commit mode is the default again. -/
def readBack (m : ChildManifest) : ChildManifest :=
  { m with commitMode := if m.commitMode = "" then "auto" else m.commitMode }

/-- An empty commit mode is not written, and the default is read. -/
theorem commitMode_document (m : ChildManifest) :
    getStr py (ofTable (document m).table) "commit_mode" "auto" = (readBack m).commitMode := by
  refine (seen_root m (show "commit_mode" ∈ rootKeys by decide)).getStr_eq
    (c := m.commitMode ≠ "" && m.commitMode ≠ "auto") (fun hc => ?_) ?_
  · rw [Bool.and_eq_false_iff, decide_eq_false_iff_not, decide_eq_false_iff_not, not_not,
      not_not] at hc
    rcases hc with hc | hc
    · exact if_pos hc
    · show (if m.commitMode = "" then "auto" else m.commitMode) = "auto"
      rw [hc]
      rfl
  · by_cases hempty : m.commitMode = ""
    · simp [ChildManifest.scalars, List.lookup_append, lookup_opt, List.lookup_cons, hempty]
    · simp [ChildManifest.scalars, List.lookup_append, lookup_opt, List.lookup_cons, hempty,
        readBack]

/-- A normalised write policy is its own normal form. -/
theorem policyFromDict_document (m : ChildManifest) :
    policyFromDict py (ofTable (document m).table) = .ok m.writePolicy := by
  have hstr : getStr py (ofTable (document m).table) "write_policy" "shared-nfs" =
      m.writePolicy.toString := by
    refine (seen_root m (show "write_policy" ∈ rootKeys by decide)).getStr_eq
      (c := m.writePolicy ≠ .sharedNfs) (fun hc => ?_)
      (by simp [ChildManifest.scalars, List.lookup_append, lookup_opt, List.lookup_cons])
    rw [decide_eq_false_iff_not, not_not] at hc
    rw [hc]
    rfl
  have hnamed : ∀ policy : WritePolicy,
      Mountd.writePolicyNamed (Mountd.lower (strip policy.toString)) = some policy := by
    intro policy
    cases policy <;> decide +kernel
  unfold policyFromDict
  rw [hstr]
  dsimp only
  rw [hnamed]
  rfl

/-- The table `cold_storage` is not empty, so that `s3` is not asked for. -/
theorem coldStorage_document (m : ChildManifest) :
    (((ofTable (F := F) (document m).table).lookup "cold_storage").filter (truthy py)).or
        ((ofTable (F := F) (document m).table).lookup "s3") =
      some (.table (ofTable (pairsTable m.coldStorage.toDict))) := by
  have hlookup : (ofTable (F := F) (document m).table).lookup "cold_storage" =
      some (.table (ofTable (pairsTable m.coldStorage.toDict))) := by
    rw [lookup_ofTable, lookup_section m (by decide)]
    show some (TomlValue.table (ofTable (pairsTable m.coldStorage.toDict ++ []))) = _
    rw [List.append_nil]
  rw [hlookup]
  rfl

/-- The boundaries are iterated over one by one. -/
theorem boundaryItems_document (m : ChildManifest) :
    boundaryItems ((ofTable (F := F) (document m).table).lookup "child_boundary") =
      .ok (ofTables (m.childBoundaries.map fun b => pairsTable (boundaryDict b))) := by
  rw [lookup_ofTable]
  refine (iterated_items ?_).1
  rw [lookup_section m (by decide), List.lookup_append]
  show Option.or none ((listsTable (opt _ _ _)).lookup _) = _
  rw [listsTable_opt, lookup_opt]
  simp only [true_and, decide_eq_true_eq, Option.none_or]

/-- **The table of the document is read as the manifest.** -/
theorem fromDict_document {m : ChildManifest} (h : m.Canonical) :
    fromDict py (ofTable (document m).table) = .ok (readBack m) := by
  have seen : ∀ key ∈ rootKeys, SeenAs (document m).table m.scalars key :=
    fun key hkey => seen_root m hkey
  have hversion : getInt py (ofTable (document m).table) "schema_version" 1 =
      .ok m.schemaVersion := (seen "schema_version" (by decide)).getInt_eq (c := true) nofun rfl
  have hname : needStr py (ofTable (document m).table) "name" = .ok m.name :=
    (seen "name" (by decide)).needStr_eq rfl
  have htype : needStr py (ofTable (document m).table) "type" = .ok m.type :=
    (seen "type" (by decide)).needStr_eq rfl
  have hgeneration : getInt py (ofTable (document m).table) "generation" 0 = .ok m.generation :=
    (seen "generation" (by decide)).getInt_eq (c := true) nofun rfl
  have hstate : getStr py (ofTable (document m).table) "state" "clean" = m.state :=
    (seen "state" (by decide)).getStr_eq (c := true) nofun rfl
  have hparentId : getStr py (ofTable (document m).table) "parent_id" "" = m.parentId :=
    (seen "parent_id" (by decide)).getStr_eq (c := m.parentId ≠ "") (by simp)
      (by simp [ChildManifest.scalars, List.lookup_append, lookup_opt, List.lookup_cons])
  have hparentPath : getStr py (ofTable (document m).table) "parent_path" "" = m.parentPath :=
    (seen "parent_path" (by decide)).getStr_eq (c := m.parentPath ≠ "") (by simp)
      (by simp [ChildManifest.scalars, List.lookup_append, lookup_opt, List.lookup_cons])
  have hcreated : getStr py (ofTable (document m).table) "created_ts" "" = m.createdTs :=
    (seen "created_ts" (by decide)).getStr_eq (c := m.createdTs ≠ "") (by simp)
      (by simp [ChildManifest.scalars, List.lookup_append, lookup_opt, List.lookup_cons])
  have hid : idFromDict py (ofTable (document m).table) = m.id := by
    have hlookup : (ofTable (F := F) (document m).table).lookup "id" = some (.text m.id) := by
      rw [(seen "id" (by decide)).lookup]
      rfl
    have htruthy : truthy py (.text m.id) = true := decide_eq_true h.id
    unfold idFromDict
    rw [hlookup, Option.filter_some, if_pos htruthy]
    rfl
  have hpinned : (((ofTable (F := F) (document m).table).lookup "pinned").map
      (truthy py)).getD false = m.pinned := by
    have hkey : m.scalars.lookup "pinned" = if m.pinned then some (.bool m.pinned) else none := by
      simp [ChildManifest.scalars, List.lookup_append, lookup_opt, List.lookup_cons]
    rw [(seen "pinned" (by decide)).lookup, hkey]
    cases m.pinned <;> rfl
  have hstack : (ofTable (F := F) (document m).table).lookup "pack_stack" =
      some (.table (ofTable (stackTable m.packStack))) := by
    rw [lookup_ofTable, lookup_section m (by decide)]
    rfl
  have hoverlay : (ofTable (F := F) (document m).table).lookup "overlay" =
      some (.table (ofTable (pairsTable m.overlay.toDict))) := by
    rw [lookup_ofTable, lookup_section m (by decide)]
    rfl
  have hitems := mapM_ofTables fun b hb => boundaryFromDict_toDict py (h.boundaries b hb)
  have hschema : ¬1 < m.schemaVersion := not_lt.mpr h.schema
  unfold fromDict
  simp only [bind, Except.bind] at hitems ⊢
  simp only [hversion, hschema, if_false, hname, htype, hgeneration,
    policyFromDict_document, hstack, hoverlay, coldStorage_document, boundaryItems_document,
    hstate, hparentId, hparentPath, hcreated, hid, hpinned, commitMode_document,
    packStackFromDict_toDict py h.kinds, overlayFromDict_toDict, coldStorageFromDict_toDict,
    hitems]
  rfl

/-! ## 7. Written and read -/

variable (shown : Lib.Toml.Value → String)

/-- **A clean manifest is read back**, an empty commit mode as the default. -/
theorem loads_dumps {m : ChildManifest} (h : m.Canonical) (hclean : m.Clean) :
    loadManifest py (dumpsTomlSubset shown m.toDict) = .ok (readBack m) := by
  obtain ⟨body, hbody, hne, htext⟩ := dumps_document shown m
  unfold loadManifest
  rw [htext, Lib.Toml.loads_document hbody hne (document_wellFormed m) (document_distinct m)
    ((document_clean_iff h).mpr hclean)]
  exact fromDict_document py h

/-- **A manifest that is not clean is not read.** -/
theorem loads_dumps_unclean {m : ChildManifest} (h : m.Canonical) (hclean : ¬m.Clean) :
    loadManifest py (dumpsTomlSubset shown m.toDict) = .error .decode := by
  obtain ⟨body, hbody, -, htext⟩ := dumps_document shown m
  unfold loadManifest
  rw [htext, Lib.Toml.loads_unclean hbody (document_wellFormed m)
    fun hdocument => hclean ((document_clean_iff h).mp hdocument)]

/-- A manifest comes back as it was written. -/
def ReadBack (m : ChildManifest) : Prop :=
  loadManifest py (dumpsTomlSubset shown m.toDict) = .ok m

/-- The registry scan does not skip what was written. -/
def Loadable (m : ChildManifest) : Prop :=
  ∃ m', loadManifest py (dumpsTomlSubset shown m.toDict) = .ok m'

theorem loadable_iff {m : ChildManifest} (h : m.Canonical) : Loadable py shown m ↔ m.Clean := by
  refine ⟨fun ⟨m', hm'⟩ => ?_, fun hclean => ⟨_, loads_dumps py shown h hclean⟩⟩
  by_contra hclean
  rw [loads_dumps_unclean py shown h hclean] at hm'
  cases hm'

theorem readBack_iff {m : ChildManifest} (h : m.Canonical) :
    ReadBack py shown m ↔ m.Clean ∧ m.commitMode ≠ "" := by
  refine ⟨fun hread => ?_, fun ⟨hclean, hmode⟩ => ?_⟩
  · have hclean : m.Clean := (loadable_iff py shown h).mp ⟨m, hread⟩
    refine ⟨hclean, fun hempty => ?_⟩
    have hback : readBack m = m := by
      have hdumps := loads_dumps py shown h hclean
      rw [hread] at hdumps
      exact (Except.ok.inj hdumps).symm
    have hauto := congrArg ChildManifest.commitMode hback
    unfold readBack at hauto
    rw [if_pos hempty, hempty] at hauto
    have hwords : "auto" = "" := hauto
    exact absurd hwords (by decide)
  · have hback : readBack m = m := by
      unfold readBack
      rw [if_neg hmode]
    unfold ReadBack
    rw [loads_dumps py shown h hclean, hback]

end Reader

/-! ## 8. The manifests of new children -/

theorem cleanText_append (s t : String) : CleanText (s ++ t) ↔ CleanText s ∧ CleanText t := by
  unfold CleanText
  rw [String.toList_append, List.forall_mem_append]

/-- A percent-encoded name is clean. -/
theorem safeNamespaceName_clean (value : String) : CleanText (safeNamespaceName value) := by
  have hquote : CleanText (CccStorage.quote value) := by
    intro c hc
    unfold CccStorage.quote at hc
    rw [String.toList_ofList] at hc
    obtain ⟨b, -, hc⟩ := List.mem_flatMap.mp hc
    have hhex : ∀ n < 16, Lib.Toml.isControl (hexDigit n) = false := by decide
    have hlt := UInt8.toNat_lt b
    unfold quoteByte at hc
    split at hc
    · rename_i hsafe
      rw [List.mem_singleton.mp hc]
      unfold isQuoteSafe at hsafe
      simp only [Bool.or_eq_true, decide_eq_true_eq] at hsafe
      rcases hsafe with (((halnum | hc) | hc) | hc) | hc
      · exact (Lib.Toml.isBare_apart (by unfold Lib.Toml.isBare; rw [halnum]; rfl)).2.1
      all_goals
        rw [hc]
        rfl
    · simp only [List.mem_cons, List.not_mem_nil, or_false] at hc
      rcases hc with rfl | rfl | rfl
      · rfl
      · exact hhex _ (by omega)
      · exact hhex _ (by omega)
  have hchild : CleanText "child" := Lib.Toml.cleanText_of rfl
  unfold safeNamespaceName
  split
  · exact hchild
  · split
    · exact hchild
    · exact hquote

/-- What `create_child` writes under the parent. -/
def createdManifest (cfg : ParentConfig) (name : String) : ChildManifest :=
  ofManifest (newManifest cfg name)

/-- What `mkdir_child` writes at the boundary. -/
def registeredManifest (b : ObservedMkdir.ObservedBoundary) (default : WritePolicy) :
    ChildManifest :=
  ofManifest (ObservedMkdir.newManifest b default)

theorem created_canonical (cfg : ParentConfig) (name : String) :
    (createdManifest cfg name).Canonical where
  id := by
    intro hnil
    have hlist := congrArg String.toList hnil
    unfold createdManifest ofManifest newManifest childId at hlist
    rw [String.toList_append, String.toList_append] at hlist
    exact absurd hlist (by simp)
  kinds := nofun
  boundaries := nofun
  schema := le_refl 1

theorem registered_canonical (b : ObservedMkdir.ObservedBoundary) (default : WritePolicy) :
    (registeredManifest b default).Canonical where
  id := by
    intro hnil
    have hlist := congrArg String.toList hnil
    unfold registeredManifest ofManifest ObservedMkdir.newManifest ObservedMkdir.childId at hlist
    rw [String.toList_append, String.toList_append] at hlist
    exact absurd hlist (by simp)
  kinds := nofun
  boundaries := nofun
  schema := le_refl 1

/-- **A created child's manifest is clean** exactly when its name and the parent's settings are. -/
theorem created_clean_iff (cfg : ParentConfig) (name : String) :
    (createdManifest cfg name).Clean ↔ CleanText name ∧ CleanText cfg.parentId ∧
      CleanText cfg.parentPath ∧ CleanText cfg.overlaysRoot := by
  have hconst : ∀ s ∈ ["dataset", "clean", "", "auto", "shared-overlay", "s3", "missing",
      "unavailable", ":", "/", "/active"], CleanText s := by
    simp only [List.forall_mem_cons]
    refine ⟨?_, ?_, ?_, ?_, ?_, ?_, ?_, ?_, ?_, ?_, ?_, nofun⟩
    all_goals exact Lib.Toml.cleanText_of rfl
  simp only [List.forall_mem_cons] at hconst
  obtain ⟨h₁, h₂, h₃, h₄, h₅, h₆, h₇, h₈, h₉, h₁₀, h₁₁, -⟩ := hconst
  unfold ChildManifest.Clean ChildManifest.texts ColdStorageInfo.texts createdManifest ofManifest
    newManifest childId activeUpperPath
  simp only [List.forall_mem_append, List.forall_mem_cons, List.map_nil, List.flatMap_nil,
    cleanText_append, safeNamespaceName_clean, h₁, h₂, h₃, h₄, h₅, h₆, h₇, h₈, h₉, h₁₀, h₁₁,
    true_and, and_true]
  simp only [List.not_mem_nil, false_imp_iff, implies_true, and_true]
  exact ⟨fun ⟨⟨⟨_, _⟩, hname, hid, hpath⟩, hroot⟩ => ⟨hname, hid, hpath, hroot⟩,
    fun ⟨hname, hid, hpath, hroot⟩ => ⟨⟨⟨hid, hname⟩, hname, hid, hpath⟩, hroot⟩⟩

theorem stripSlashes_clean {s : String} (h : CleanText s) : CleanText (stripSlashes s) := by
  intro c hc
  unfold stripSlashes at hc
  rw [String.toList_ofList, List.mem_reverse] at hc
  have hmem := (List.dropWhile_suffix _).subset hc
  exact h c ((List.dropWhile_suffix _).subset (List.mem_reverse.mp hmem))

/-- **A registered child's manifest is clean** exactly when its boundary's texts are. -/
theorem registered_clean_iff (b : ObservedMkdir.ObservedBoundary) (default : WritePolicy) :
    (registeredManifest b default).Clean ↔ CleanText b.childName ∧ CleanText b.boundaryPath ∧
      CleanText b.childIdPrefix ∧ CleanText b.observationRel ∧ CleanText b.activeUpper := by
  have hconst : ∀ s ∈ ["observed-child", "clean", "", "auto", "shared-overlay", "s3", "missing",
      "unavailable", ":", "observe-root:"], CleanText s := by
    simp only [List.forall_mem_cons]
    refine ⟨?_, ?_, ?_, ?_, ?_, ?_, ?_, ?_, ?_, ?_, nofun⟩
    all_goals exact Lib.Toml.cleanText_of rfl
  simp only [List.forall_mem_cons] at hconst
  obtain ⟨h₁, h₂, h₃, h₄, h₅, h₆, h₇, h₈, h₉, h₁₀, -⟩ := hconst
  have hstrip : CleanText b.boundaryPath → CleanText (stripSlashes b.boundaryPath) :=
    stripSlashes_clean
  unfold ChildManifest.Clean ChildManifest.texts ColdStorageInfo.texts registeredManifest
    ofManifest ObservedMkdir.newManifest ObservedMkdir.childId
  simp only [List.forall_mem_append, List.forall_mem_cons, List.map_nil, List.flatMap_nil,
    cleanText_append, h₁, h₂, h₃, h₄, h₅, h₆, h₇, h₈, h₉, h₁₀, true_and, and_true]
  simp only [List.not_mem_nil, false_imp_iff, implies_true, and_true]
  exact ⟨fun ⟨⟨⟨hpre, _⟩, hname, hrel, hpath⟩, hupper⟩ => ⟨hname, hpath, hpre, hrel, hupper⟩,
    fun ⟨hname, hpath, hpre, hrel, hupper⟩ =>
      ⟨⟨⟨hpre, hstrip hpath⟩, hname, hrel, hpath⟩, hupper⟩⟩

/-! ## 9. Main results -/

/-- **A manifest survives being written and read** exactly when none of its strings holds a control
    character other than a tab and its commit mode is not empty; the manifest of a new child can
    be loaded exactly when its name and the configured texts hold none. -/
theorem manifest_readBack_iff {F : Type} (py : PyReads F) (shown : Lib.Toml.Value → String) :
    (∀ m : ChildManifest, m.Canonical → (ReadBack py shown m ↔ m.Clean ∧ m.commitMode ≠ "")) ∧
    (∀ (cfg : ParentConfig) (name : ChildName),
      Loadable py shown (createdManifest cfg name.text) ↔ CleanText name.text ∧
        CleanText cfg.parentId ∧ CleanText cfg.parentPath ∧ CleanText cfg.overlaysRoot) ∧
    ∀ (b : ObservedMkdir.ObservedBoundary) (default : WritePolicy),
      Loadable py shown (registeredManifest b default) ↔ CleanText b.childName ∧
        CleanText b.boundaryPath ∧ CleanText b.childIdPrefix ∧ CleanText b.observationRel ∧
        CleanText b.activeUpper := by
  refine ⟨fun m h => readBack_iff py shown h, fun cfg name => ?_, fun b default => ?_⟩
  · rw [loadable_iff py shown (created_canonical cfg name.text), created_clean_iff]
  · rw [loadable_iff py shown (registered_canonical b default), registered_clean_iff]

/-- Floats without fractions. -/
def wholeReads : PyReads Int where
  toPyNumbers := Mountd.wholeNumbers
  nonzero n := n ≠ 0
  shownNested _ := "[]"

/-- The manifest of the child `alpha` comes back. -/
theorem manifest_readBack_alpha :
    ReadBack wholeReads (fun _ => "{}") (createdManifest datasetParent "alpha") := by
  have hclean : (createdManifest datasetParent "alpha").Clean := by
    rw [created_clean_iff]
    exact ⟨Lib.Toml.cleanText_of rfl, Lib.Toml.cleanText_of rfl, Lib.Toml.cleanText_of rfl,
      Lib.Toml.cleanText_of rfl⟩
  exact ((manifest_readBack_iff wholeReads fun _ => "{}").1 _
    (created_canonical datasetParent "alpha")).mpr ⟨hclean, by decide⟩

/-- **A name with a line feed** is accepted, and its manifest is not loaded. -/
theorem lineFeedName_notLoaded : validateName "a\nb" = none ∧
    (createdManifest datasetParent "a\nb").Canonical ∧
    ¬Loadable wholeReads (fun _ => "{}") (createdManifest datasetParent "a\nb") ∧
    ¬ReadBack wholeReads (fun _ => "{}") (createdManifest datasetParent "a\nb") := by
  have hunclean : ¬Loadable wholeReads (fun _ => "{}") (createdManifest datasetParent "a\nb") := by
    rw [loadable_iff _ _ (created_canonical datasetParent "a\nb"), created_clean_iff]
    intro hclean
    exact absurd (hclean.1 '\n' (by decide)) (by decide)
  exact ⟨by decide, created_canonical datasetParent "a\nb", hunclean,
    fun hread => hunclean ⟨_, hread⟩⟩

end CccStorage.TomlManifest
