import PluginConsole.Proofs.Dict
import PluginConsole.Toml.Document

/-!
# What a table holds

A table under construction holds its members in the order of their keys, whatever the order in which
they came. Changes under one key leave the other keys alone.
-/

namespace PluginConsole.Toml

/-! ## Members in order -/

mutual

def ordered : Toml → Toml
  | .list items => .list (orderedItems items)
  | .table members => .table (orderedMembers members)
  | v => v

def orderedItems : List Toml → List Toml
  | [] => []
  | v :: rest => ordered v :: orderedItems rest

def orderedMembers : List (String × Toml) → Dict Toml
  | [] => []
  | (k, v) :: rest => Dict.insert k (ordered v) (orderedMembers rest)

end

theorem orderedItems_eq (items : List Toml) : orderedItems items = items.map ordered := by
  induction items with
  | nil => rfl
  | cons v rest ih => rw [orderedItems, ih, List.map_cons]

theorem sorted_orderedMembers (members : List (String × Toml)) :
    Dict.Sorted (orderedMembers members) := by
  induction members with
  | nil => exact Dict.sorted_nil
  | cons entry rest ih => exact Dict.sorted_insert _ _ ih

theorem mem_orderedMembers {members : List (String × Toml)} (h : (Dict.keys members).Nodup)
    (k : String) (v : Toml) :
    (k, v) ∈ orderedMembers members ↔ ∃ w, (k, w) ∈ members ∧ v = ordered w := by
  induction members with
  | nil => simp [orderedMembers]
  | cons entry rest ih =>
    obtain ⟨key, w⟩ := entry
    obtain ⟨hfresh, hrest⟩ := List.nodup_cons.mp h
    have hother {w : Toml} (hw : (k, w) ∈ rest) : k ≠ key := by
      rintro rfl
      exact hfresh (Dict.mem_keys hw)
    rw [orderedMembers, Dict.mem_insert (sorted_orderedMembers rest), ih hrest]
    constructor
    · rintro (⟨rfl, rfl⟩ | ⟨-, w', hw', rfl⟩)
      · exact ⟨w, List.mem_cons_self, rfl⟩
      · exact ⟨w', List.mem_cons_of_mem _ hw', rfl⟩
    · rintro ⟨w', hw', rfl⟩
      rcases List.mem_cons.mp hw' with heq | hw'
      · cases heq
        exact Or.inl ⟨rfl, rfl⟩
      · exact Or.inr ⟨hother hw', w', hw', rfl⟩

theorem orderedMembers_of_sorted {members : List (String × Toml)} (h : Dict.Sorted members) :
    orderedMembers members = Dict.mapValues ordered members := by
  refine Dict.eq_of_mem (sorted_orderedMembers members) (Dict.sorted_mapValues ordered h)
    fun ⟨k, v⟩ => ?_
  rw [mem_orderedMembers (Dict.nodup_keys h), Dict.mapValues, List.mem_map]
  constructor
  · rintro ⟨w, hw, rfl⟩
    exact ⟨(k, w), hw, rfl⟩
  · rintro ⟨⟨k', w⟩, hw, heq⟩
    cases heq
    exact ⟨w, hw, rfl⟩

theorem tablesToml_eq (ts : List Table) : tablesToml ts = ts.map Table.toToml := by
  induction ts with
  | nil => rfl
  | cons t rest ih => rw [tablesToml, ih, List.map_cons]

theorem entriesToml_eq (es : List (String × Item)) :
    entriesToml es = Dict.mapValues Item.toToml es := by
  induction es with
  | nil => rfl
  | cons entry rest ih =>
    rw [entriesToml, ih]
    rfl

namespace Table

variable {t t' t'' root root' child child' : Table} {key k : String} {item : Item} {w : Toml}
  {done members : List (String × Toml)}

@[simp] theorem entries_put (key : String) (item : Item) (t : Table) :
    (t.put key item).entries = Dict.insert key item t.entries := by
  cases t
  rfl

@[simp] theorem dotted_put (key : String) (item : Item) (t : Table) :
    (t.put key item).dotted = t.dotted := by
  cases t
  rfl

/-! ## What a table holds -/

/-- The members of the table are these, as far as values go, and they are in order. -/
structure Holds (t : Table) (members : List (String × Toml)) : Prop where
  sorted : Dict.Sorted t.entries
  lookup (k : String) (v : Toml) : (∃ item, t.entries.lookup k = some item ∧ item.toToml = v) ↔
    ∃ w, (k, w) ∈ members ∧ v = ordered w

theorem Holds.nil (h : t.entries = []) : t.Holds [] where
  sorted := by
    rw [h]
    exact Dict.sorted_nil
  lookup k v := by simp [h]

theorem Holds.of_mem (h : t.Holds members) {others : List (String × Toml)}
    (heq : ∀ e, e ∈ members ↔ e ∈ others) : t.Holds others where
  sorted := h.sorted
  lookup k v := by
    rw [h.lookup]
    simp only [heq]

theorem Holds.fresh (h : t.Holds members) (hk : k ∉ Dict.keys members) :
    t.entries.lookup k = none := by
  cases hlookup : t.entries.lookup k with
  | none => rfl
  | some item =>
    obtain ⟨w, hw, -⟩ := (h.lookup k item.toToml).mp ⟨item, hlookup, rfl⟩
    exact absurd (Dict.mem_keys hw) hk

theorem Holds.entries_ne_nil (h : t.Holds members) (hne : members ≠ []) : t.entries ≠ [] := by
  obtain ⟨⟨k, w⟩, hmem⟩ := List.exists_mem_of_ne_nil members hne
  obtain ⟨item, hitem, -⟩ := (h.lookup k _).mpr ⟨w, hmem, rfl⟩
  intro hempty
  rw [hempty] at hitem
  cases hitem

theorem Holds.toToml (h : t.Holds members) (hnodup : (Dict.keys members).Nodup) :
    t.toToml = .table (orderedMembers members) := by
  have hentries : entriesToml t.entries = orderedMembers members := by
    have hsorted : Dict.Sorted (entriesToml t.entries) := by
      rw [entriesToml_eq]
      exact Dict.sorted_mapValues Item.toToml h.sorted
    refine Dict.eq_of_mem hsorted (sorted_orderedMembers members) fun ⟨k, v⟩ => ?_
    rw [mem_orderedMembers hnodup, ← h.lookup, entriesToml_eq, Dict.mapValues, List.mem_map]
    constructor
    · rintro ⟨⟨k', item⟩, hitem, heq⟩
      cases heq
      exact ⟨item, (Dict.mem_iff_lookup h.sorted).mp hitem, rfl⟩
    · rintro ⟨item, hlookup, rfl⟩
      exact ⟨(k, item), Dict.mem_of_lookup hlookup, rfl⟩
  cases t with
  | mk i d es => exact congrArg Toml.table hentries

/-! ## Changes under one key -/

structure Aside (key : String) (t t' : Table) : Prop where
  sorted : Dict.Sorted t.entries → Dict.Sorted t'.entries
  others : ∀ other ≠ key, t'.entries.lookup other = t.entries.lookup other

theorem Aside.refl (key : String) (t : Table) : Aside key t t :=
  ⟨fun h => h, fun _ _ => rfl⟩

theorem Aside.trans (h : Aside key t t') (h' : Aside key t' t'') : Aside key t t'' :=
  ⟨fun hsorted => h'.sorted (h.sorted hsorted),
    fun other ho => (h'.others other ho).trans (h.others other ho)⟩

theorem Aside.put (key : String) (item : Item) (t : Table) : Aside key t (t.put key item) where
  sorted h := by
    rw [entries_put]
    exact Dict.sorted_insert key item h
  others other ho := by
    rw [entries_put]
    exact Dict.lookup_insert_of_ne ho item t.entries

theorem lookup_put (key : String) (item : Item) (t : Table) :
    (t.put key item).entries.lookup key = some item := by
  rw [entries_put]
  exact Dict.lookup_insert_self key item t.entries

theorem Holds.snoc (h : t.Holds done) (hfresh : key ∉ Dict.keys done) (haside : Aside key t t')
    (hitem : t'.entries.lookup key = some item) (hvalue : item.toToml = ordered w) :
    t'.Holds (done ++ [(key, w)]) where
  sorted := haside.sorted h.sorted
  lookup k v := by
    by_cases hk : k = key
    · subst hk
      have hnew (w' : Toml) : (k, w') ∈ done ++ [(k, w)] ↔ w' = w := by
        have hnot : (k, w') ∉ done := fun hmem => hfresh (Dict.mem_keys hmem)
        simp [hnot]
      simp [hitem, hnew, hvalue, eq_comm]
    · have hold (w' : Toml) : (k, w') ∈ done ++ [(key, w)] ↔ (k, w') ∈ done := by simp [hk]
      rw [haside.others k hk, h.lookup]
      simp only [hold]

theorem Holds.put (h : t.Holds done) (hfresh : key ∉ Dict.keys done)
    (hvalue : item.toToml = ordered w) : (t.put key item).Holds (done ++ [(key, w)]) :=
  h.snoc hfresh (.put key item t) (lookup_put key item t) hvalue

/-! ## Tables inside a table -/

/-- The table that a path of one key leads to; it is made on the way if need be. -/
def Under (key : String) (child root : Table) : Prop :=
  root.entries.lookup key = some (.table child) ∨
    root.entries.lookup key = none ∧ child = onTheWay false

theorem Under.put (key : String) (child root : Table) :
    Under key child (root.put key (.table child)) :=
  Or.inl (lookup_put key _ root)

theorem Under.here (h : Under key child root) (hchild : child.entries ≠ []) :
    root.entries.lookup key = some (.table child) := by
  rcases h with h | ⟨-, rfl⟩
  · exact h
  · exact absurd rfl hchild

theorem Under.within {α : Type} (h : Under key child root) (f : Table → Option (α × Table)) :
    within false [key] f root = (f child).map fun (a, t) => (a, root.put key (.table t)) := by
  rw [Table.within]
  rcases h with h | ⟨h, rfl⟩
  · rw [h]
    show (if false = true then none else (f child).bind _) = _
    cases f child <;> rfl
  · rw [h]
    show (f (onTheWay false)).bind _ = _
    cases f (onTheWay false) <;> rfl

end Table

end PluginConsole.Toml
