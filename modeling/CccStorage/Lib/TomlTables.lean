/-
  File:      CccStorage/Lib/TomlTables.lean
  Subject:   The tables that the statements of a TOML text make, as `tomllib` builds them. Names
             nothing of the storage service.

  * `Value`, `Table`, `nest`, `Reading.take`, `loads` -- the reader;
  * `Document`, `Document.statements`, `Document.table` -- pairs, then tables with pairs and arrays
    of tables, then arrays of tables;
  * `take_document` -- the statements of a document make its table;
  * `loads_document`, `loads_unclean` -- the text of a document is read back if its strings are
    clean, and is not read otherwise.
-/
import CccStorage.Lib.Dict
import CccStorage.Lib.TomlText

namespace Lib.Toml

/-! ## 1. The reader -/

inductive Value where
  | scalar (x : Scalar)
  | table (entries : List (String × Value))
  | tables (items : List (List (String × Value)))

abbrev Table := List (String × Value)

/-- `get_or_create_nest(path)`, and `f` done to what is found; of an array its last table. -/
def nest : List String → (Table → Option Table) → Table → Option Table
  | [], f, t => f t
  | key :: path, f, t =>
    match t.lookup key with
    | none => (nest path f []).map fun sub => dictSet t key (.table sub)
    | some (.table sub) => (nest path f sub).map fun sub => dictSet t key (.table sub)
    | some (.tables items) =>
      match items.getLast? with
      | none => none
      | some last =>
        (nest path f last).map fun last => dictSet t key (.tables (items.dropLast ++ [last]))
    | some (.scalar _) => none

/-- `append_nest_to_list`, in the table that is to hold the array. -/
def appendNest (key : String) (t : Table) : Option Table :=
  match t.lookup key with
  | none => some (dictSet t key (.tables [[]]))
  | some (.tables items) => some (dictSet t key (.tables (items ++ [[]])))
  | some _ => none

/-- `key = value` in the table of its header. -/
def putScalar (key : String) (value : Scalar) (t : Table) : Option Table :=
  match t.lookup key with
  | none => some (dictSet t key (.scalar value))
  | some _ => none

/-- What has been read: the tables, the last header, and the headers that may not come again. -/
structure Reading where
  data : Table := []
  header : List String := []
  declared : List (List String) := []

def Reading.take (r : Reading) : Statement → Option Reading
  | .blank => some r
  | .pair key value => (nest r.header (putScalar key value) r.data).map fun data => { r with data }
  | .table path =>
    if r.declared.contains path then none
    else
      (nest path some r.data).map fun data =>
        { data, header := path, declared := path :: r.declared }
  | .element path =>
    match path.getLast? with
    | none => none
    | some key =>
      (nest path.dropLast (appendNest key) r.data).map fun data =>
        { data
          header := path
          declared := path :: r.declared.filter fun p => !path.isPrefixOf p }

def loads (src : List Char) : Option Table :=
  (statements src).bind fun ss => (ss.foldlM Reading.take {}).map Reading.data

/-! ## 2. Documents -/

abbrev Pairs := List (String × Scalar)

/-- `[key]`, and the arrays of tables in it. -/
structure Section where
  key : String
  pairs : Pairs
  lists : List (String × List Pairs)

structure Document where
  pairs : Pairs
  sections : List Section
  lists : List (String × List Pairs)

def pairStatements (ps : Pairs) : List Statement := ps.map fun x => .pair x.1 x.2

/-- A header, its pairs and a blank line. -/
def block (header : Statement) (ps : Pairs) : List Statement :=
  header :: (pairStatements ps ++ [.blank])

def listStatements (path : List String) (list : String × List Pairs) : List Statement :=
  list.2.flatMap (block (.element (path ++ [list.1])))

def Section.statements (s : Section) : List Statement :=
  block (.table [s.key]) s.pairs ++ s.lists.flatMap (listStatements [s.key])

def Document.statements (d : Document) : List Statement :=
  pairStatements d.pairs ++ [.blank] ++ d.sections.flatMap Section.statements ++
    d.lists.flatMap (listStatements [])

def pairsTable (ps : Pairs) : Table := ps.map fun x => (x.1, .scalar x.2)

def listsTable (lists : List (String × List Pairs)) : Table :=
  lists.map fun l => (l.1, .tables (l.2.map pairsTable))

def Section.table (s : Section) : Table := pairsTable s.pairs ++ listsTable s.lists

def Document.table (d : Document) : Table :=
  pairsTable d.pairs ++ d.sections.map (fun s => (s.key, .table s.table)) ++ listsTable d.lists

/-- The keys of a table, each but once. -/
abbrev Keys {α : Type} (t : List (String × α)) : List String := t.map (·.1)

/-- No array is empty, and the keys of its tables are distinct. -/
def DistinctLists (lists : List (String × List Pairs)) : Prop :=
  ∀ l ∈ lists, l.2 ≠ [] ∧ ∀ ps ∈ l.2, (Keys ps).Nodup

structure Section.Distinct (s : Section) : Prop where
  keys : (Keys s.table).Nodup
  lists : DistinctLists s.lists

structure Document.Distinct (d : Document) : Prop where
  keys : (Keys d.table).Nodup
  sections : ∀ s ∈ d.sections, s.Distinct
  lists : DistinctLists d.lists

theorem keys_pairsTable (ps : Pairs) : Keys (pairsTable ps) = Keys ps := by
  rw [Keys, pairsTable, List.map_map]
  rfl

theorem keys_listsTable (lists : List (String × List Pairs)) :
    Keys (listsTable lists) = Keys lists := by
  rw [Keys, listsTable, List.map_map]
  rfl

theorem forall_pairStatements {P : Statement → Prop} {ps : Pairs} :
    (∀ s ∈ pairStatements ps, P s) ↔ ∀ x ∈ ps, P (.pair x.1 x.2) := List.forall_mem_map

theorem forall_block {P : Statement → Prop} (hblank : P .blank) {header : Statement}
    {ps : Pairs} :
    (∀ s ∈ block header ps, P s) ↔ P header ∧ ∀ x ∈ ps, P (.pair x.1 x.2) := by
  unfold block
  rw [List.forall_mem_cons, List.forall_mem_append, List.forall_mem_singleton,
    forall_pairStatements]
  exact ⟨fun h => ⟨h.1, h.2.1⟩, fun h => ⟨h.1, h.2, hblank⟩⟩

theorem forall_listStatements {P : Statement → Prop} (hblank : P .blank) {path : List String}
    {list : String × List Pairs} :
    (∀ s ∈ listStatements path list, P s) ↔
      ∀ ps ∈ list.2, P (.element (path ++ [list.1])) ∧ ∀ x ∈ ps, P (.pair x.1 x.2) := by
  unfold listStatements
  rw [List.forall_mem_flatMap]
  exact forall₂_congr fun ps _ => forall_block hblank

/-- **What holds of every statement of a document**, by its pairs and its headers. -/
theorem forall_statements {P : Statement → Prop} (hblank : P .blank) {d : Document} :
    (∀ s ∈ d.statements, P s) ↔
      (∀ x ∈ d.pairs, P (.pair x.1 x.2)) ∧
      (∀ s ∈ d.sections, (P (.table [s.key]) ∧ ∀ x ∈ s.pairs, P (.pair x.1 x.2)) ∧
        ∀ l ∈ s.lists, ∀ ps ∈ l.2, P (.element [s.key, l.1]) ∧ ∀ x ∈ ps, P (.pair x.1 x.2)) ∧
      ∀ l ∈ d.lists, ∀ ps ∈ l.2, P (.element [l.1]) ∧ ∀ x ∈ ps, P (.pair x.1 x.2) := by
  have hsection : ∀ s : Section, (∀ st ∈ s.statements, P st) ↔
      (P (.table [s.key]) ∧ ∀ x ∈ s.pairs, P (.pair x.1 x.2)) ∧
        ∀ l ∈ s.lists, ∀ ps ∈ l.2, P (.element [s.key, l.1]) ∧ ∀ x ∈ ps, P (.pair x.1 x.2) := by
    intro s
    unfold Section.statements
    rw [List.forall_mem_append, forall_block hblank, List.forall_mem_flatMap]
    exact and_congr_right fun _ => forall₂_congr fun l _ => forall_listStatements hblank
  unfold Document.statements
  rw [List.forall_mem_append, List.forall_mem_append, List.forall_mem_append,
    List.forall_mem_singleton, forall_pairStatements, List.forall_mem_flatMap,
    List.forall_mem_flatMap, and_iff_left hblank, and_assoc]
  refine and_congr_right fun _ => and_congr (forall₂_congr fun s _ => hsection s) ?_
  exact forall₂_congr fun l _ => forall_listStatements hblank

/-! ## 3. The tables of a document -/

section

variable {path : List String} {put : Table → Table} {t : Table} {r : Reading} {key : String}

theorem dictSet_new {v : Value} (h : key ∉ Keys t) : dictSet t key v = t ++ [(key, v)] := if_neg h

/-- The entry that was put last is put anew. -/
theorem dictSet_last {v v' : Value} (h : key ∉ Keys t) :
    dictSet (t ++ [(key, v)]) key v' = t ++ [(key, v')] := by
  have hmem : key ∈ Keys (t ++ [(key, v)]) := by simp
  unfold dictSet
  rw [if_pos hmem, List.map_append]
  congr 1
  · refine (List.map_congr_left fun x hx => ?_).trans (List.map_id t)
    exact if_neg fun heq => h (List.mem_map.mpr ⟨x, hx, heq⟩)
  · simp

theorem lookup_last {v : Value} (h : key ∉ Keys t) : (t ++ [(key, v)]).lookup key = some v := by
  rw [List.lookup_append, lookup_of_not_key h]
  simp

theorem nest_append (p q : List String) (f : Table → Option Table) (t : Table) :
    nest (p ++ q) f t = nest p (nest q f) t := by
  induction p generalizing t with
  | nil => rfl
  | cons key p ih =>
      rw [List.cons_append, nest, nest]
      simp only [ih]

/-- The table under a path, with what is around it. -/
def Focus (path : List String) (put : Table → Table) : Prop :=
  ∀ (f : Table → Option Table) (t : Table), nest path f (put t) = (f t).map put

theorem focus_root : Focus [] id := fun f t => by
  rw [nest, Option.map_id]
  rfl

/-- The last table of an array that was put last. -/
theorem Focus.tables (h : Focus path put) (hkey : key ∉ Keys t) (done : List Table) :
    Focus (path ++ [key]) fun u => put (t ++ [(key, .tables (done ++ [u]))]) := by
  intro f u
  rw [nest_append, h, nest, lookup_last hkey]
  simp only [List.getLast?_concat, List.dropLast_concat, nest, Option.map_map]
  congr 1
  funext u'
  exact congrArg put (dictSet_last hkey)

/-- A table that was put last. -/
theorem Focus.table (h : Focus path put) (hkey : key ∉ Keys t) :
    Focus (path ++ [key]) fun u => put (t ++ [(key, .table u)]) := by
  intro f u
  rw [nest_append, h, nest, lookup_last hkey]
  simp only [nest, Option.map_map]
  congr 1
  funext u'
  exact congrArg put (dictSet_last hkey)

/-- **Pairs are added to the table of their header.** -/
theorem take_pairs {ps : Pairs} (h : Focus r.header put) (hdata : r.data = put t)
    (hkeys : (Keys t ++ Keys ps).Nodup) :
    (pairStatements ps).foldlM Reading.take r =
      some { r with data := put (t ++ pairsTable ps) } := by
  induction ps generalizing t r with
  | nil =>
      rw [pairsTable, List.map_nil, List.append_nil, ← hdata]
      rfl
  | cons p ps ih =>
      have hfresh : p.1 ∉ Keys t := by
        intro hmem
        exact (List.nodup_append.mp hkeys).2.2 _ hmem _ List.mem_cons_self rfl
      have hput : putScalar p.1 p.2 t = some (t ++ [(p.1, .scalar p.2)]) := by
        unfold putScalar
        rw [lookup_of_not_key hfresh, dictSet_new hfresh]
      have hstep : r.take (.pair p.1 p.2) =
          some { r with data := put (t ++ [(p.1, .scalar p.2)]) } := by
        rw [Reading.take, hdata, h, hput]
        rfl
      have hrest : (Keys (t ++ [(p.1, .scalar p.2)]) ++ Keys ps).Nodup := by
        rw [Keys, List.map_append, List.append_assoc]
        exact hkeys
      rw [pairStatements, List.map_cons, List.foldlM_cons, hstep]
      refine (ih (r := { r with data := put (t ++ [(p.1, .scalar p.2)]) }) h rfl hrest).trans ?_
      rw [pairsTable, pairsTable, List.map_cons, List.append_assoc]
      rfl

/-- A table's header is not among those that were declared. -/
def Fresh (key : String) (r : Reading) : Prop := ∀ p ∈ r.declared, p.head? ≠ some key

/-- What is declared between two readings stands under one of the keys. -/
def KeepsFresh (keys : List String) (r r' : Reading) : Prop :=
  ∀ other ∉ keys, Fresh other r → Fresh other r'

theorem KeepsFresh.trans {keys : List String} {r' r'' : Reading} (h : KeepsFresh keys r r')
    (h' : KeepsFresh keys r' r'') : KeepsFresh keys r r'' :=
  fun other hother hfresh => h' other hother (h other hother hfresh)

theorem KeepsFresh.mono {keys keys' : List String} {r' : Reading} (h : KeepsFresh keys r r')
    (hsub : keys ⊆ keys') : KeepsFresh keys' r r' :=
  fun other hother => h other fun hmem => hother (hsub hmem)

/-- **An array of tables is appended to** the table that holds it. -/
theorem take_items {items done : List Pairs} (h : Focus path put) (hkey : key ∉ Keys t)
    (hdata : r.data = put (if done = [] then t else t ++ [(key, .tables (done.map pairsTable))]))
    (hitems : ∀ ps ∈ items, (Keys ps).Nodup) :
    ∃ r', (items.flatMap (block (.element (path ++ [key])))).foldlM Reading.take r = some r' ∧
      r'.data = put (if done ++ items = [] then t
        else t ++ [(key, .tables ((done ++ items).map pairsTable))]) ∧
      KeepsFresh [(path ++ [key]).headD ""] r r' := by
  induction items generalizing done r with
  | nil =>
      refine ⟨r, rfl, ?_, fun _ _ hfresh => hfresh⟩
      rw [List.append_nil]
      exact hdata
  | cons ps items ih =>
      rw [List.forall_mem_cons] at hitems
      obtain ⟨r₁, hstep, hheader, hdata₁, hfresh₁⟩ : ∃ r₁,
          r.take (.element (path ++ [key])) = some r₁ ∧ r₁.header = path ++ [key] ∧
          r₁.data = put (t ++ [(key, .tables (done.map pairsTable ++ [[]]))]) ∧
          KeepsFresh [(path ++ [key]).headD ""] r r₁ := by
        have happend : appendNest key
            (if done = [] then t else t ++ [(key, .tables (done.map pairsTable))]) =
            some (t ++ [(key, .tables (done.map pairsTable ++ [[]]))]) := by
          unfold appendNest
          by_cases hdone : done = []
          · rw [if_pos hdone, lookup_of_not_key hkey, dictSet_new hkey, hdone]
            rfl
          · rw [if_neg hdone, lookup_last hkey]
            exact congrArg some (dictSet_last hkey)
        refine ⟨⟨put (t ++ [(key, .tables (done.map pairsTable ++ [[]]))]), path ++ [key],
          (path ++ [key]) :: r.declared.filter fun p => !(path ++ [key]).isPrefixOf p⟩,
          ?_, rfl, rfl, ?_⟩
        · rw [Reading.take, List.getLast?_concat, List.dropLast_concat]
          dsimp only
          rw [hdata, h, happend]
          rfl
        · intro other hother hfresh p hp
          rcases List.mem_cons.mp hp with rfl | hp
          · intro hhead
            refine hother (List.mem_singleton.mpr ?_)
            rw [List.headD_eq_head?_getD, hhead]
            rfl
          · exact hfresh p (List.mem_of_mem_filter hp)
      have hfocus : Focus r₁.header
          fun u => put (t ++ [(key, .tables (done.map pairsTable ++ [u]))]) :=
        hheader ▸ h.tables hkey _
      have hpairs := take_pairs (t := []) hfocus hdata₁ (by simpa using hitems.1)
      have hdata₂ : put (t ++ [(key, .tables (done.map pairsTable ++ [pairsTable ps]))]) =
          put (if done ++ [ps] = [] then t
            else t ++ [(key, .tables ((done ++ [ps]).map pairsTable))]) := by
        rw [if_neg (by simp), List.map_append]
        rfl
      obtain ⟨r', hrun, hdata', hfresh'⟩ := ih (r := { r₁ with data := _ }) hdata₂ hitems.2
      refine ⟨r', ?_, ?_, hfresh₁.trans hfresh'⟩
      · rw [List.flatMap_cons, List.foldlM_append, block, List.foldlM_cons, hstep]
        show ((pairStatements ps ++ [Statement.blank]).foldlM Reading.take r₁ >>= _) = _
        rw [List.foldlM_append, hpairs]
        exact hrun
      · rw [hdata', List.append_assoc, List.singleton_append]

/-- **The arrays of tables of a table.** -/
theorem take_lists {lists : List (String × List Pairs)} (h : Focus path put)
    (hdata : r.data = put t) (hkeys : (Keys t ++ Keys lists).Nodup) (hlists : DistinctLists lists) :
    ∃ r', (lists.flatMap (listStatements path)).foldlM Reading.take r = some r' ∧
      r'.data = put (t ++ listsTable lists) ∧
      KeepsFresh (lists.map fun l => (path ++ [l.1]).headD "") r r' := by
  induction lists generalizing t r with
  | nil => exact ⟨r, rfl, hdata.trans (by rw [listsTable, List.map_nil, List.append_nil]),
      fun _ _ hfresh => hfresh⟩
  | cons l lists ih =>
      obtain ⟨⟨hne, hdistinct⟩, hrest⟩ := List.forall_mem_cons.mp hlists
      have hfresh : l.1 ∉ Keys t := by
        intro hmem
        exact (List.nodup_append.mp hkeys).2.2 _ hmem _ List.mem_cons_self rfl
      have hnone : r.data = put (if ([] : List Pairs) = [] then t
          else t ++ [(l.1, .tables (([] : List Pairs).map pairsTable))]) := by
        rw [if_pos rfl]
        exact hdata
      obtain ⟨r₁, hrun₁, hdata₁, hkeeps₁⟩ := take_items h hfresh hnone hdistinct
      rw [List.nil_append, if_neg hne] at hdata₁
      have hkeys₁ : (Keys (t ++ [(l.1, Value.tables (l.2.map pairsTable))]) ++
          Keys lists).Nodup := by
        rw [Keys, List.map_append, List.append_assoc]
        exact hkeys
      obtain ⟨r', hrun, hdata', hkeeps⟩ := ih hdata₁ hkeys₁ hrest
      refine ⟨r', ?_, ?_, ?_⟩
      · rw [List.flatMap_cons, List.foldlM_append, listStatements, hrun₁]
        exact hrun
      · rw [hdata', List.append_assoc, List.singleton_append]
        rfl
      · rw [List.map_cons]
        refine (hkeeps₁.mono ?_).trans (hkeeps.mono (List.subset_cons_self _ _))
        exact List.cons_subset_cons _ (List.nil_subset _)

/-- **A table with its arrays.** -/
theorem take_section {s : Section} (h : s.Distinct) (hkey : s.key ∉ Keys r.data)
    (hfresh : Fresh s.key r) :
    ∃ r', s.statements.foldlM Reading.take r = some r' ∧
      r'.data = r.data ++ [(s.key, .table s.table)] ∧ KeepsFresh [s.key] r r' := by
  have hstep : r.take (.table [s.key]) = some
      ⟨r.data ++ [(s.key, .table [])], [s.key], [s.key] :: r.declared⟩ := by
    have hnew : ¬r.declared.contains [s.key] = true := fun hmem =>
      hfresh _ (List.contains_iff_mem.mp hmem) rfl
    rw [Reading.take, if_neg hnew, nest, lookup_of_not_key hkey, ← dictSet_new hkey]
    rfl
  have hkeeps₁ : KeepsFresh [s.key] r
      ⟨r.data ++ [(s.key, .table [])], [s.key], [s.key] :: r.declared⟩ := by
    intro other hother hfresh p hp
    rcases List.mem_cons.mp hp with rfl | hp
    · rintro ⟨⟩
      exact hother List.mem_cons_self
    · exact hfresh p hp
  have hfocus : Focus [s.key] fun u => r.data ++ [(s.key, .table u)] := focus_root.table hkey
  have hnodup : (Keys (pairsTable s.pairs) ++ Keys (listsTable s.lists)).Nodup := by
    rw [← List.map_append]
    exact h.keys
  have hpairNodup : (Keys ([] : Table) ++ Keys s.pairs).Nodup := by
    rw [← keys_pairsTable]
    exact (List.nodup_append.mp hnodup).1
  have hlistNodup : (Keys (pairsTable s.pairs) ++ Keys s.lists).Nodup := by
    rw [← keys_listsTable]
    exact hnodup
  have hpairs := take_pairs
    (r := ⟨r.data ++ [(s.key, .table [])], [s.key], [s.key] :: r.declared⟩) hfocus rfl hpairNodup
  obtain ⟨r', hrun, hdata', hkeeps⟩ := take_lists
    (r := ⟨r.data ++ [(s.key, .table (pairsTable s.pairs))], [s.key], [s.key] :: r.declared⟩)
    hfocus rfl hlistNodup h.lists
  refine ⟨r', ?_, hdata', hkeeps₁.trans (hkeeps.mono ?_)⟩
  · rw [Section.statements, block, List.cons_append, List.foldlM_cons, hstep]
    show ((pairStatements s.pairs ++ [Statement.blank] ++
      s.lists.flatMap (listStatements [s.key])).foldlM Reading.take _) = _
    rw [List.foldlM_append, List.foldlM_append, hpairs]
    exact hrun
  · intro key hmem
    obtain ⟨l, -, rfl⟩ := List.mem_map.mp hmem
    exact List.mem_cons_self

theorem take_sections {sections : List Section} (h : ∀ s ∈ sections, s.Distinct)
    (hkeys : (Keys r.data ++ sections.map Section.key).Nodup)
    (hfresh : ∀ s ∈ sections, Fresh s.key r) :
    ∃ r', (sections.flatMap Section.statements).foldlM Reading.take r = some r' ∧
      r'.data = r.data ++ sections.map fun s => (s.key, .table s.table) := by
  induction sections generalizing r with
  | nil => exact ⟨r, rfl, (List.append_nil _).symm⟩
  | cons s sections ih =>
      rw [List.forall_mem_cons] at h hfresh
      have hkey : s.key ∉ Keys r.data := by
        intro hmem
        exact (List.nodup_append.mp hkeys).2.2 _ hmem _ List.mem_cons_self rfl
      obtain ⟨r₁, hrun₁, hdata₁, hkeeps⟩ := take_section h.1 hkey hfresh.1
      have hkeys₁ : (Keys r₁.data ++ sections.map Section.key).Nodup := by
        rw [hdata₁, Keys, List.map_append, List.append_assoc]
        exact hkeys
      have hfresh₁ : ∀ s' ∈ sections, Fresh s'.key r₁ := by
        intro s' hs'
        refine hkeeps _ (fun hmem => ?_) (hfresh.2 s' hs')
        have hcons := (List.nodup_append.mp hkeys).2.1
        rw [List.map_cons, List.nodup_cons] at hcons
        exact hcons.1 (List.mem_singleton.mp hmem ▸ List.mem_map_of_mem hs')
      obtain ⟨r', hrun, hdata'⟩ := ih h.2 hkeys₁ hfresh₁
      refine ⟨r', ?_, ?_⟩
      · rw [List.flatMap_cons, List.foldlM_append, hrun₁]
        exact hrun
      · rw [hdata', hdata₁, List.append_assoc]
        rfl

/-- **The statements of a document make its table.** -/
theorem take_document {d : Document} (h : d.Distinct) :
    ∃ r, d.statements.foldlM Reading.take {} = some r ∧ r.data = d.table := by
  have hkeys : (Keys d.pairs ++ (d.sections.map Section.key ++ Keys d.lists)).Nodup := by
    have hall := h.keys
    unfold Document.table pairsTable listsTable at hall
    simpa [Keys, Function.comp_def] using hall
  obtain ⟨hpairNodup, hrestNodup, happart⟩ := List.nodup_append.mp hkeys
  have hrootNodup : (Keys ([] : Table) ++ Keys d.pairs).Nodup := hpairNodup
  have hpairs := take_pairs (r := {}) focus_root rfl hrootNodup
  have hsectionKeys : (Keys (pairsTable d.pairs) ++ d.sections.map Section.key).Nodup := by
    rw [keys_pairsTable]
    rw [← List.append_assoc] at hkeys
    exact (List.nodup_append.mp hkeys).1
  obtain ⟨r₁, hrun₁, hdata₁⟩ := take_sections (r := { data := pairsTable d.pairs })
    h.sections hsectionKeys fun _ _ _ => nofun
  have hlistKeys : (Keys r₁.data ++ Keys d.lists).Nodup := by
    rw [hdata₁, Keys, List.map_append, List.map_map, List.append_assoc, ← Keys, keys_pairsTable]
    exact hkeys
  obtain ⟨r', hrun, hdata', -⟩ := take_lists focus_root rfl hlistKeys h.lists
  refine ⟨r', ?_, ?_⟩
  · unfold Document.statements
    rw [List.foldlM_append, List.foldlM_append, List.foldlM_append, hpairs]
    show ((d.sections.flatMap Section.statements).foldlM Reading.take
      { data := pairsTable d.pairs } >>= _) = _
    rw [hrun₁]
    exact hrun
  · rw [hdata', hdata₁]
    rfl

end

/-! ## 4. The text of a document -/

/-- The keys of a document can be written, and its strings are allowed between quotes. -/
def Document.WellFormed (d : Document) : Prop := ∀ s ∈ d.statements, s.WellFormed

def Document.Clean (d : Document) : Prop := ∀ s ∈ d.statements, s.Clean

section

variable {d : Document} {body : List Statement}

/-- **The text of a document is read back**: all its statements but the blank line at the end. -/
theorem loads_document (hbody : d.statements = body ++ [.blank]) (hne : body ≠ [])
    (hform : d.WellFormed) (hdistinct : d.Distinct) (h : d.Clean) :
    loads (textOf (body.map Statement.line)) = some d.table := by
  have hmem : ∀ s ∈ body, s ∈ d.statements := fun s hs => hbody ▸ List.mem_append_left _ hs
  obtain ⟨r, hrun, hdata⟩ := take_document hdistinct
  unfold loads
  rw [statements_lines hne (fun s hs => hform s (hmem s hs)) fun s hs => h s (hmem s hs),
    Option.bind_some, ← hbody, hrun, Option.map_some, hdata]

/-- **The text of a document that is not clean is not read.** -/
theorem loads_unclean (hbody : d.statements = body ++ [.blank]) (hform : d.WellFormed)
    (h : ¬d.Clean) : loads (textOf (body.map Statement.line)) = none := by
  have hunclean : ∃ s ∈ body, ¬s.Clean := by
    by_contra hall
    refine h fun s hs => ?_
    rw [hbody, List.mem_append, List.mem_singleton] at hs
    rcases hs with hs | rfl
    · exact not_not.mp fun hnot => hall ⟨s, hs, hnot⟩
    · exact trivial
  have hbodyForm : ∀ s ∈ body, s.WellFormed := fun s hs =>
    hform s (hbody ▸ List.mem_append_left _ hs)
  unfold loads
  rw [statements_lines_unclean hbodyForm hunclean]
  rfl

end

end Lib.Toml
