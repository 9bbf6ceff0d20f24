import PluginConsole.Proofs.Toml.Lines
import PluginConsole.Proofs.Toml.Table

/-!
# Documents of sections

A document whose members are tables, and the members of these values, tables and lists of tables, is
read again as it was written, but for the order of the keys.
-/

namespace PluginConsole.Toml

open Grammar Table

/-! ## Shapes -/

structure Flat (members : List (String × Toml)) : Prop where
  nodup : (Dict.keys members).Nodup
  simple : ∀ e ∈ members, Simple e.2

inductive Headed : Toml → Prop where
  | table {members : List (String × Toml)} (h : Flat members) : Headed (.table members)
  | tables {items : List (List (String × Toml))} (hne : items ≠ [])
    (h : ∀ members ∈ items, Flat members) : Headed (.list (items.map .table))

structure Shallow (members : List (String × Toml)) : Prop where
  nodup : (Dict.keys members).Nodup
  shape : ∀ e ∈ members, Simple e.2 ∨ Headed e.2

structure Regular (sections : List (String × Toml)) : Prop where
  nodup : (Dict.keys sections).Nodup
  shape : ∀ e ∈ sections, ∃ members, e.2 = .table members ∧ Shallow members

/-- Whether a value stands behind its key. -/
def isLined (v : Toml) : Bool :=
  !(isTable v || isTableList v)

variable {members done : List (String × Toml)} {v : Toml} {k key : String} {d d' d'' : Document}
  {root root' root'' child child' child'' : Table}

theorem Simple.isLined (h : Simple v) : isLined v = true := by
  cases h with
  | text | int => rfl
  | texts ss =>
    cases ss with
    | nil => rfl
    | cons s ss => rfl

theorem Headed.not_isLined (h : Headed v) : Toml.isLined v = false := by
  cases h with
  | table => rfl
  | @tables items hne h =>
    have hall : (items.map Toml.table).all isTable = true := by simp [isTable]
    simp [Toml.isLined, isTableList, hall, hne]

theorem Simple.ordered (h : Simple v) : ordered v = v := by
  cases h with
  | text | int => rfl
  | texts ss =>
    rw [Toml.ordered, orderedItems_eq, List.map_map]
    rfl

/-- Lined and headed members are written apart from each other. -/
theorem plainLines_filter (members : List (String × Toml)) :
    plainLines (members.filter fun e => isLined e.2) = plainLines members := by
  induction members with
  | nil => rfl
  | cons e rest ih =>
    obtain ⟨k, v⟩ := e
    cases hv : isTable v || isTableList v with
    | true =>
      have hlined : isLined v = false := congrArg not hv
      simp [hlined, hv, plainLines, ih]
    | false =>
      have hlined : isLined v = true := congrArg not hv
      simp [hlined, hv, plainLines, ih]

theorem subBlocks_filter (path : List String) (members : List (String × Toml)) :
    subBlocks path (members.filter fun e => !isLined e.2) = subBlocks path members := by
  induction members with
  | nil => rfl
  | cons e rest ih =>
    obtain ⟨k, v⟩ := e
    have hlined : isLined v = !(isTable v || isTableList v) := rfl
    cases v with
    | table members => simp [hlined, isTable, subBlocks, ih]
    | list items =>
      cases hitems : isTableList (.list items) with
      | true => simp [hlined, hitems, subBlocks, ih]
      | false => simp [hlined, isTable, hitems, subBlocks, ih]
    | bool | int | float | text | date => simp [hlined, isTable, isTableList, subBlocks, ih]

theorem Flat.subBlocks (h : Flat members) (path : List String) : subBlocks path members = [] := by
  have hnone : members.filter (fun e => !isLined e.2) = [] := by
    rw [List.filter_eq_nil_iff]
    intro e he
    simp [(h.simple e he).isLined]
  rw [← subBlocks_filter, hnone, Toml.subBlocks]

theorem subBlocks_cons (path : List String) (e : String × Toml) (rest : List (String × Toml)) :
    subBlocks path (e :: rest) = subBlocks path [e] ++ subBlocks path rest := by
  obtain ⟨k, v⟩ := e
  cases v <;> simp [subBlocks]

theorem plainLines_cons (h : Simple v) :
    plainLines ((k, v) :: members) = definitionLine k v ++ plainLines members := by
  have hlined : (isTable v || isTableList v) = false := by simpa [isLined] using h.isLined
  rw [plainLines, hlined]
  rfl

theorem plainLines_eq_empty (hsimple : ∀ e ∈ members, Simple e.2) (h : plainLines members = "") :
    members = [] := by
  cases members with
  | nil => rfl
  | cons e rest =>
    rw [plainLines_cons (hsimple e List.mem_cons_self), ← String.toList_eq_nil_iff] at h
    simp [definitionLine] at h

theorem Flat.tableBlocks (h : Flat members) (path : List String) :
    tableBlocks path members = ["[" ++ pathForm path ++ "]\n" ++ plainLines members] := by
  have hheader : (plainLines members = "" && !members.isEmpty) = false := by
    rw [Bool.and_eq_false_iff, decide_eq_false_iff_not, Bool.not_eq_false']
    rw [← imp_iff_not_or]
    exact fun hempty => by rw [plainLines_eq_empty h.simple hempty]; rfl
  rw [Toml.tableBlocks, h.subBlocks]
  simp [hheader]

/-! ## Members of one table -/

theorem define_fresh (hdotted : d.current.dotted = false)
    (hfresh : d.current.entries.lookup k = none) :
    d.define [] k v = some { d with current := d.current.put k (.value v) } := by
  have hhas : Dict.has k d.current.entries = false := by
    unfold Dict.has
    rw [hfresh]
    rfl
  unfold Document.define Table.define
  rw [Table.within, hdotted, hhas]
  rfl

theorem reads_plainLines (hsimple : ∀ e ∈ members, Simple e.2) (hholds : d.current.Holds done)
    (hdotted : d.current.dotted = false) (hnodup : (Dict.keys (done ++ members)).Nodup) :
    ∃ t, Reads (plainLines members).toList d { d with current := t } ∧
      t.Holds (done ++ members) := by
  induction members generalizing d done with
  | nil =>
    rw [List.append_nil]
    exact ⟨d.current, .nil d, hholds⟩
  | cons e rest ih =>
    obtain ⟨k, v⟩ := e
    have hv := hsimple (k, v) List.mem_cons_self
    have hfresh : k ∉ Dict.keys done := by
      rw [Dict.keys, List.map_append, List.nodup_append] at hnodup
      exact fun hk => hnodup.2.2 k hk k List.mem_cons_self rfl
    rw [List.append_cons] at hnodup ⊢
    obtain ⟨t, hreads, ht⟩ := ih (d := { d with current := d.current.put k (.value v) })
      (fun e he => hsimple e (List.mem_cons_of_mem _ he)) (hholds.put hfresh hv.ordered.symm)
      (by rw [dotted_put]; exact hdotted) hnodup
    rw [plainLines_cons hv, String.toList_append]
    exact ⟨t, (reads_definition hv (define_fresh hdotted (hholds.fresh hfresh))).append hreads, ht⟩

theorem reads_block {header : String} (hheader : Reads header.toList d d')
    (hempty : d'.current = .empty) (hflat : Flat members) :
    ∃ t, Reads ('\n' :: (header ++ plainLines members).toList) d { d' with current := t } ∧
      t.Holds members := by
  have hholds : d'.current.Holds [] := .nil (by rw [hempty]; rfl)
  obtain ⟨t, hreads, ht⟩ := reads_plainLines hflat.simple hholds (by rw [hempty]; rfl) hflat.nodup
  refine ⟨t, ?_, ht⟩
  rw [String.toList_append]
  exact (reads_blank d).append (hheader.append hreads)

/-! ## Blocks of one section -/

def spaced (blocks : List String) : List Char :=
  blocks.flatMap fun b => '\n' :: b.toList

/-- Lines that change nothing but the section of this name. -/
structure Extends (text : List Char) (k : String) (d : Document) (root : Table) (d' : Document)
    (root' child' : Table) : Prop where
  reads : Reads text d d'
  finish : d'.finish = some root'
  aside : Aside k root root'
  under : Under k child' root'

theorem Extends.trans {text text' : List Char} (h : Extends text k d root d' root' child')
    (h' : Extends text' k d' root' d'' root'' child'') :
    Extends (text ++ text') k d root d'' root'' child'' :=
  ⟨h.reads.append h'.reads, h'.finish, h.aside.trans h'.aside, h'.under⟩

theorem splitLast_one (k : String) : splitLast [k] = some ([], k) := rfl

theorem splitLast_two (k key : String) : splitLast [k, key] = some ([k], key) := rfl

theorem length_one (k : String) : [k].length < depthLimit := by
  show 1 < 80
  decide

theorem length_two (k key : String) : [k, key].length < depthLimit := by
  show 2 < 80
  decide

theorem reads_heading (hd : d.finish = some root) (hfresh : root.entries.lookup k = none)
    (hflat : Flat members) :
    ∃ d' root' t, Extends ('\n' :: ("[" ++ pathForm [k] ++ "]\n" ++ plainLines members).toList)
      k d root d' root' t ∧ root'.entries.lookup k = some (.table t) ∧ t.Holds members := by
  have hopen : d.openTable [k] = some ⟨root, .empty, [k], false⟩ := by
    unfold Document.openTable
    simp only [hd, splitLast_one, Option.bind_eq_bind, Option.bind_some, within, hfresh]
  obtain ⟨t, hreads, ht⟩ := reads_block
    (reads_header (List.cons_ne_nil _ _) (length_one k) hopen) rfl hflat
  have hfinish : Document.finish ⟨root, t, [k], false⟩ = some (root.put k (.table t)) := by
    unfold Document.finish
    simp only [splitLast_one, within, hfresh, Option.map_some]
  exact ⟨_, _, t, ⟨hreads, hfinish, .put k _ root, .put k t root⟩, lookup_put k _ root, ht⟩

theorem reads_subTable (hd : d.finish = some root) (hunder : Under k child root)
    (hfresh : child.entries.lookup key = none) (hflat : Flat members) :
    ∃ d' root' child' t,
      Extends ('\n' :: ("[" ++ pathForm [k, key] ++ "]\n" ++ plainLines members).toList)
        k d root d' root' child' ∧
      Aside key child child' ∧ child'.entries.lookup key = some (.table t) ∧ t.Holds members := by
  have hopen : d.openTable [k, key] =
      some ⟨root.put k (.table child), .empty, [k, key], false⟩ := by
    unfold Document.openTable
    simp only [hd, splitLast_two, Option.bind_eq_bind, Option.bind_some, hunder.within, hfresh]
    rfl
  obtain ⟨t, hreads, ht⟩ := reads_block
    (reads_header (List.cons_ne_nil _ _) (length_two k key) hopen) rfl hflat
  have hput := Under.put k child root
  have hfinish : Document.finish ⟨root.put k (.table child), t, [k, key], false⟩ =
      some ((root.put k (.table child)).put k (.table (child.put key (.table t)))) := by
    unfold Document.finish
    simp only [splitLast_two, hput.within, hfresh]
    rfl
  exact ⟨_, _, _, t, ⟨hreads, hfinish, (Aside.put k _ root).trans (.put k _ _), .put k _ _⟩,
    .put key _ child, lookup_put key _ child, ht⟩

def Repeats (key : String) (ts : List Table) (t : Table) : Prop :=
  t.entries.lookup key = some (.tables ts) ∨ t.entries.lookup key = none ∧ ts = []

theorem reads_repetition {ts : List Table} (hd : d.finish = some root) (hunder : Under k child root)
    (hts : Repeats key ts child) (hflat : Flat members) :
    ∃ d' root' child' t,
      Extends ('\n' :: ("[[" ++ pathForm [k, key] ++ "]]\n" ++ plainLines members).toList)
        k d root d' root' child' ∧
      Aside key child child' ∧ child'.entries.lookup key = some (.tables (ts ++ [t])) ∧
        t.Holds members := by
  obtain ⟨ready, hready, haside, hlookup⟩ : ∃ ready : Table,
      d.openRepeated [k, key] = some ⟨root.put k (.table ready), .empty, [k, key], true⟩ ∧
        Aside key child ready ∧ ready.entries.lookup key = some (.tables ts) := by
    unfold Document.openRepeated
    simp only [hd, splitLast_two, Option.bind_eq_bind, Option.bind_some, hunder.within]
    rcases hts with hts | ⟨hts, rfl⟩
    · refine ⟨child, ?_, .refl key child, hts⟩
      simp only [hts]
      rfl
    · refine ⟨child.put key (.tables []), ?_, .put key _ child, lookup_put key _ child⟩
      simp only [hts]
      rfl
  obtain ⟨t, hreads, ht⟩ := reads_block
    (reads_repeated (List.cons_ne_nil _ _) (length_two k key) hready) rfl hflat
  have hput := Under.put k ready root
  have hfinish : Document.finish ⟨root.put k (.table ready), t, [k, key], true⟩ =
      some ((root.put k (.table ready)).put k (.table (ready.put key (.tables (ts ++ [t]))))) := by
    unfold Document.finish
    simp only [splitLast_two, hput.within, hlookup]
    rfl
  exact ⟨_, _, _, t, ⟨hreads, hfinish, (Aside.put k _ root).trans (.put k _ _), .put k _ _⟩,
    haside.trans (.put key _ ready), lookup_put key _ ready, ht⟩

theorem reads_repetitions {items : List (List (String × Toml))} {ts : List Table}
    (hflat : ∀ members ∈ items, Flat members) (hd : d.finish = some root)
    (hunder : Under k child root) (hts : Repeats key ts child) :
    ∃ d' root' child' ts',
      Extends (spaced (repeatedBlocks [k, key] (items.map .table))) k d root d' root' child' ∧
      Aside key child child' ∧ Repeats key (ts ++ ts') child' ∧
        ts'.map Table.toToml = (items.map .table).map ordered := by
  induction items generalizing d root child ts with
  | nil =>
    rw [List.map_nil, repeatedBlocks]
    refine ⟨d, root, child, [], ⟨.nil d, hd, .refl k root, hunder⟩, .refl key child, ?_, rfl⟩
    rwa [List.append_nil]
  | cons members rest ih =>
    have hfirst := hflat members List.mem_cons_self
    obtain ⟨d₁, root₁, child₁, t, hextends, haside, hlookup, ht⟩ :=
      reads_repetition hd hunder hts hfirst
    obtain ⟨d', root', child', ts', hextends', haside', hts', hvalues⟩ :=
      ih (fun ms hms => hflat ms (List.mem_cons_of_mem _ hms)) hextends.finish hextends.under
        (Or.inl hlookup)
    refine ⟨d', root', child', t :: ts', ?_, haside.trans haside', ?_, ?_⟩
    · rw [List.map_cons, repeatedBlocks, hfirst.subBlocks, List.nil_append, spaced,
        List.flatMap_cons, ← spaced]
      exact hextends.trans hextends'
    · rwa [List.append_cons]
    · rw [List.map_cons, List.map_cons, List.map_cons, hvalues, ht.toToml hfirst.nodup, ordered]

theorem reads_subBlocks (hheaded : ∀ e ∈ members, Headed e.2) (hd : d.finish = some root)
    (hunder : Under k child root) (hholds : child.Holds done)
    (hnodup : (Dict.keys (done ++ members)).Nodup) :
    ∃ d' root' child', Extends (spaced (subBlocks [k] members)) k d root d' root' child' ∧
      child'.Holds (done ++ members) := by
  induction members generalizing d root child done with
  | nil =>
    rw [List.append_nil, subBlocks]
    exact ⟨d, root, child, ⟨.nil d, hd, .refl k root, hunder⟩, hholds⟩
  | cons e rest ih =>
    obtain ⟨key, v⟩ := e
    have hv := hheaded (key, v) List.mem_cons_self
    have hfresh : key ∉ Dict.keys done := by
      rw [Dict.keys, List.map_append, List.nodup_append] at hnodup
      exact fun hk => hnodup.2.2 key hk key List.mem_cons_self rfl
    rw [List.append_cons] at hnodup ⊢
    obtain ⟨d₁, root₁, child₁, hfirst, hchild⟩ : ∃ d₁ root₁ child₁,
        Extends (spaced (subBlocks [k] [(key, v)])) k d root d₁ root₁ child₁ ∧
          child₁.Holds (done ++ [(key, v)]) := by
      cases hv with
      | @table members hflat =>
        obtain ⟨d₁, root₁, child₁, t, hextends, haside, hlookup, ht⟩ :=
          reads_subTable hd hunder (hholds.fresh hfresh) hflat
        refine ⟨d₁, root₁, child₁, ?_, hholds.snoc hfresh haside hlookup ?_⟩
        · have hblock : subBlocks [k] [(key, .table members)] = tableBlocks [k, key] members := by
            simp [subBlocks]
          rw [hblock, hflat.tableBlocks, spaced, List.flatMap_singleton]
          exact hextends
        · rw [Item.toToml, ht.toToml hflat.nodup, ordered]
      | @tables items hne hflat =>
        obtain ⟨d₁, root₁, child₁, ts, hextends, haside, hts, hvalues⟩ :=
          reads_repetitions hflat hd hunder (Or.inr ⟨hholds.fresh hfresh, rfl⟩)
        have hsome : child₁.entries.lookup key = some (.tables ts) := by
          refine hts.resolve_right fun hnone => hne ?_
          have hempty := hnone.2
          rw [List.nil_append] at hempty
          rw [hempty] at hvalues
          simpa using hvalues.symm
        refine ⟨d₁, root₁, child₁, ?_, hholds.snoc hfresh haside hsome ?_⟩
        · have hlist : isTableList (.list (items.map .table)) = true := by
            simpa [isLined, isTable] using (Headed.tables hne hflat).not_isLined
          have hblock : subBlocks [k] [(key, .list (items.map .table))] =
              repeatedBlocks [k, key] (items.map .table) := by
            simp [subBlocks, hlist]
          rw [hblock]
          exact hextends
        · rw [Item.toToml, tablesToml_eq, hvalues, ordered, orderedItems_eq]
    obtain ⟨d', root', child', hrest, hchild'⟩ :=
      ih (fun e he => hheaded e (List.mem_cons_of_mem _ he)) hfirst.finish hfirst.under hchild
        hnodup
    refine ⟨d', root', child', ?_, hchild'⟩
    rw [subBlocks_cons, spaced, List.flatMap_append]
    exact hfirst.trans hrest

/-! ## Sections and documents -/

theorem Shallow.lined (h : Shallow members) : Flat (members.filter fun e => isLined e.2) where
  nodup := h.nodup.sublist (List.filter_sublist.map _)
  simple e he := by
    obtain ⟨hmem, hlined⟩ := List.mem_filter.mp he
    refine (h.shape e hmem).resolve_right fun hheaded => ?_
    rw [hheaded.not_isLined] at hlined
    cases hlined

theorem Shallow.headed (h : Shallow members) :
    ∀ e ∈ members.filter fun e => !isLined e.2, Headed e.2 := by
  intro e he
  obtain ⟨hmem, hlined⟩ := List.mem_filter.mp he
  refine (h.shape e hmem).resolve_left fun hsimple => ?_
  rw [hsimple.isLined] at hlined
  cases hlined

theorem reads_section (hd : d.finish = some root) (hfresh : root.entries.lookup k = none)
    (h : Shallow members) :
    ∃ d' root' t, Extends (spaced (tableBlocks [k] members)) k d root d' root' t ∧
      root'.entries.lookup k = some (.table t) ∧ t.Holds members := by
  have hperm := List.filter_append_perm (fun e : String × Toml => isLined e.2) members
  have hnodup := (hperm.map Prod.fst).nodup_iff.mpr h.nodup
  rw [tableBlocks, ← plainLines_filter members, ← subBlocks_filter [k] members]
  split
  · rename_i hbare
    rw [Bool.and_eq_true, decide_eq_true_eq, Bool.not_eq_true', List.isEmpty_eq_false_iff] at hbare
    obtain ⟨hlines, hne⟩ := hbare
    have hlined := plainLines_eq_empty h.lined.simple hlines
    rw [hlined, List.nil_append] at hperm
    have hempty : (Table.onTheWay false).Holds [] := .nil rfl
    obtain ⟨d', root', t, hextends, ht⟩ := reads_subBlocks h.headed hd (Or.inr ⟨hfresh, rfl⟩) hempty
      (by rwa [hlined] at hnodup)
    have hholds := ht.of_mem fun _ => hperm.mem_iff
    exact ⟨d', root', t, hextends, hextends.under.here (hholds.entries_ne_nil hne), hholds⟩
  · obtain ⟨d₁, root₁, t₁, hheading, hlookup, ht₁⟩ := reads_heading hd hfresh h.lined
    by_cases hne : members = []
    · subst hne
      exact ⟨d₁, root₁, t₁, by simpa [spaced, subBlocks] using hheading, hlookup, ht₁⟩
    obtain ⟨d', root', t, hextends, ht⟩ :=
      reads_subBlocks h.headed hheading.finish (Or.inl hlookup) ht₁ hnodup
    have hholds := ht.of_mem fun _ => hperm.mem_iff
    refine ⟨d', root', t, ?_, hextends.under.here (hholds.entries_ne_nil hne), hholds⟩
    rw [spaced, List.flatMap_cons]
    exact hheading.trans hextends

theorem reads_sections {sections : List (String × Toml)} (hd : d.finish = some root)
    (hholds : root.Holds done) (hnodup : (Dict.keys (done ++ sections)).Nodup)
    (hshape : ∀ e ∈ sections, ∃ members, e.2 = .table members ∧ Shallow members) :
    ∃ d' root', Reads (spaced (subBlocks [] sections)) d d' ∧ d'.finish = some root' ∧
      root'.Holds (done ++ sections) := by
  induction sections generalizing d root done with
  | nil =>
    rw [List.append_nil, subBlocks]
    exact ⟨d, root, .nil d, hd, hholds⟩
  | cons e rest ih =>
    obtain ⟨k, v⟩ := e
    obtain ⟨members, rfl, hmembers⟩ := hshape (k, v) List.mem_cons_self
    have hfresh : k ∉ Dict.keys done := by
      rw [Dict.keys, List.map_append, List.nodup_append] at hnodup
      exact fun hk => hnodup.2.2 k hk k List.mem_cons_self rfl
    rw [List.append_cons] at hnodup ⊢
    obtain ⟨d₁, root₁, t, hextends, hlookup, ht⟩ := reads_section hd (hholds.fresh hfresh) hmembers
    have hvalue : (Item.table t).toToml = ordered (.table members) := by
      rw [Item.toToml, ht.toToml hmembers.nodup, ordered]
    obtain ⟨d', root', hreads, hfinish, hroot'⟩ :=
      ih hextends.finish (hholds.snoc hfresh hextends.aside hlookup hvalue) hnodup
        fun e he => hshape e (List.mem_cons_of_mem _ he)
    refine ⟨d', root', ?_, hfinish, hroot'⟩
    rw [subBlocks, spaced, List.flatMap_append]
    exact hextends.reads.append hreads

theorem spaced_join {blocks : List String} (h : blocks ≠ []) :
    spaced blocks = '\n' :: (Text.join "\n" blocks).toList := by
  induction blocks with
  | nil => exact absurd rfl h
  | cons b rest ih =>
    rw [spaced, List.flatMap_cons, ← spaced]
    cases rest with
    | nil => simp [spaced, Text.join]
    | cons c rest =>
      have hjoin : Text.join "\n" (b :: c :: rest) = b ++ "\n" ++ Text.join "\n" (c :: rest) := rfl
      rw [ih (List.cons_ne_nil _ _), hjoin]
      simp

theorem tableBlocks_head {path : List String}
    (h : ∀ b ∈ subBlocks path members, b.toList.head? = some '[') :
    ∀ b ∈ tableBlocks path members, b.toList.head? = some '[' := by
  intro b hb
  rw [tableBlocks] at hb
  split at hb
  · exact h b hb
  · rcases List.mem_cons.mp hb with rfl | hb
    · simp
    · exact h b hb

theorem repeatedBlocks_head {path : List String} {items : List Toml}
    (h : ∀ members, .table members ∈ items →
      ∀ b ∈ subBlocks path members, b.toList.head? = some '[') :
    ∀ b ∈ repeatedBlocks path items, b.toList.head? = some '[' := by
  induction items with
  | nil => simp [repeatedBlocks]
  | cons v rest ih =>
    have hrest := ih fun members hmem => h members (List.mem_cons_of_mem _ hmem)
    cases v with
    | table members =>
      intro b hb
      rw [repeatedBlocks, List.mem_cons, List.mem_append] at hb
      rcases hb with rfl | hb | hb
      · simp
      · exact h members List.mem_cons_self b hb
      · exact hrest b hb
    | bool | int | float | text | date | list =>
      rw [repeatedBlocks]
      · exact hrest
      · rintro _ ⟨⟩

theorem subBlocks_head (path : List String) (members : List (String × Toml)) :
    ∀ b ∈ subBlocks path members, b.toList.head? = some '[' := by
  match members with
  | [] => simp [subBlocks]
  | (k, v) :: rest =>
    have hrest := subBlocks_head path rest
    rw [subBlocks_cons]
    refine List.forall_mem_append.mpr ⟨?_, hrest⟩
    cases v with
    | table members =>
      have hmembers := tableBlocks_head (subBlocks_head (path ++ [k]) members)
      simpa [subBlocks] using hmembers
    | list items =>
      have hitems : ∀ b ∈ repeatedBlocks (path ++ [k]) items, b.toList.head? = some '[' := by
        refine repeatedBlocks_head fun members hmem => ?_
        have hsmaller : sizeOf members < sizeOf items := by
          have htable := List.sizeOf_lt_of_mem hmem
          rw [Toml.table.sizeOf_spec] at htable
          omega
        exact subBlocks_head (path ++ [k]) members
      cases htables : isTableList (.list items) with
      | true => simpa [subBlocks, htables] using hitems
      | false => simp [subBlocks, htables]
    | bool | int | float | text | date => simp [subBlocks]
termination_by sizeOf members

theorem head_join {blocks : List String} (hne : blocks ≠ [])
    (h : ∀ b ∈ blocks, b.toList.head? = some '[') :
    (Text.join "\n" blocks).toList.head? = some '[' := by
  match blocks, hne with
  | [b], _ => exact h b List.mem_cons_self
  | b :: c :: rest, _ =>
    have hjoin : Text.join "\n" (b :: c :: rest) = b ++ "\n" ++ Text.join "\n" (c :: rest) := rfl
    have hb := h b List.mem_cons_self
    rw [hjoin, String.toList_append, String.toList_append, List.append_assoc, List.head?_append, hb]
    rfl

theorem document_of_lines {s : String} {d : Document} {t : Table} {members : Dict Toml}
    (hmark : s.toList.head? ≠ some '\ufeff')
    (hlines : lines (s.toList.length + 1) s.toList {} = some d)
    (hfinish : d.finish = some t) (ht : t.toToml = .table members) :
    document s = some members := by
  unfold document
  dsimp only
  split
  · rename_i rest h
    rw [h] at hmark
    exact absurd rfl hmark
  · simp only [hlines, Option.bind_eq_bind, Option.bind_some, hfinish, ht]

/-- A document is read as it was written, but for the order of its keys. -/
theorem read_pretty {sections : List (String × Toml)} (h : Regular sections) :
    read (pretty sections) = some (orderedMembers sections) := by
  have hown : plainLines sections = "" := by
    have hnone : sections.filter (fun e => isLined e.2) = [] := by
      rw [List.filter_eq_nil_iff]
      rintro ⟨k, v⟩ he
      obtain ⟨members, rfl, -⟩ := h.shape _ he
      simp [isLined, isTable]
    rw [← plainLines_filter, hnone, plainLines]
  have hpretty : pretty sections = Text.join "\n" (subBlocks [] sections) := by
    simp [pretty, hown]
  have hstart : Document.finish {} = some .empty := rfl
  have hempty : Table.empty.Holds [] := .nil rfl
  obtain ⟨d, t, hreads, hfinish, ht⟩ := reads_sections hstart hempty h.nodup h.shape
  rw [hpretty]
  by_cases hblocks : subBlocks [] sections = []
  · rw [hblocks] at hreads ⊢
    exact document_of_lines nofun (hreads.lines 1 (Nat.zero_le _)) hfinish (ht.toToml h.nodup)
  · have hhead := head_join hblocks (subBlocks_head [] sections)
    refine document_of_lines (by rw [hhead]; decide) ?_ hfinish (ht.toToml h.nodup)
    rw [spaced_join hblocks] at hreads
    exact hreads.lines (_ + 2) (Nat.le_succ _)

end PluginConsole.Toml
