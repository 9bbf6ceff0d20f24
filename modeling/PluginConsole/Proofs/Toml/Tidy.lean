import PluginConsole.Proofs.Toml.Table
import PluginConsole.Toml.Reader

/-!
# What is read is in order

Every table that is read has its members in the order of their keys, and no key twice.
-/

namespace PluginConsole.Toml

inductive Tidy : Toml → Prop where
  | bool (b : Bool) : Tidy (.bool b)
  | int (n : Int) : Tidy (.int n)
  | float (x : Binary64) : Tidy (.float x)
  | text (s : String) : Tidy (.text s)
  | date (s : String) : Tidy (.date s)
  | list {items : List Toml} (h : ∀ v ∈ items, Tidy v) : Tidy (.list items)
  | table {members : List (String × Toml)} (hsorted : Dict.Sorted members)
    (h : ∀ e ∈ members, Tidy e.2) : Tidy (.table members)

mutual

inductive Item.Tidy : Item → Prop where
  | value {v : Toml} (h : v.Tidy) : Item.Tidy (.value v)
  | table {t : Table} (h : Table.Tidy t) : Item.Tidy (.table t)
  | tables {ts : List Table} (h : ∀ t ∈ ts, Table.Tidy t) : Item.Tidy (.tables ts)

inductive Table.Tidy : Table → Prop where
  | mk {implicit dotted : Bool} {entries : List (String × Item)} (hsorted : Dict.Sorted entries)
    (h : ∀ e ∈ entries, Item.Tidy e.2) : Table.Tidy (.mk implicit dotted entries)

end

theorem tidy_tables {ts : List Table} (h : ∀ t ∈ ts, t.Tidy) {last : Table} (hlast : last.Tidy) :
    (Item.tables (ts ++ [last])).Tidy := by
  refine .tables fun t ht => ?_
  rcases List.mem_append.mp ht with ht | ht
  · exact h t ht
  · rw [List.mem_singleton.mp ht]
    exact hlast

/-! ## Tables under construction -/

namespace Table

variable {t t' : Table} {key : String} {item : Item}

theorem Tidy.sorted (h : t.Tidy) : Dict.Sorted t.entries := by
  cases h with
  | mk hsorted => exact hsorted

theorem Tidy.of_lookup (h : t.Tidy) (hitem : t.entries.lookup key = some item) :
    item.Tidy := by
  cases h with
  | mk _ hitems => exact hitems (key, item) (Dict.mem_of_lookup hitem)

theorem tidy_empty : Table.empty.Tidy :=
  .mk Dict.sorted_nil nofun

theorem tidy_onTheWay (dotted : Bool) : (onTheWay dotted).Tidy :=
  .mk Dict.sorted_nil nofun

theorem Tidy.put (h : t.Tidy) (key : String) (hitem : item.Tidy) : (t.put key item).Tidy := by
  cases h with
  | mk hsorted hitems =>
    refine .mk (Dict.sorted_insert key item hsorted) fun e he => ?_
    rcases Dict.mem_of_mem_insert he with rfl | he
    · exact hitem
    · exact hitems e he

theorem Tidy.drop (h : t.Tidy) (key : String) : (t.drop key).Tidy := by
  cases h with
  | mk hsorted hitems =>
    exact .mk (Dict.sorted_erase key hsorted) fun e he => hitems e (List.mem_filter.mp he).1

theorem Tidy.headed (h : t.Tidy) : t.headed.Tidy := by
  cases h with
  | mk hsorted hitems => exact .mk hsorted hitems

theorem Tidy.within {α : Type} {P : α → Prop} {f : Table → Option (α × Table)}
    (hf : ∀ {t : Table} {a : α} {t' : Table}, t.Tidy → f t = some (a, t') → P a ∧ t'.Tidy)
    {byDots : Bool} {path : List String} {a : α} (h : t.Tidy)
    (hwithin : within byDots path f t = some (a, t')) : P a ∧ t'.Tidy := by
  induction path generalizing t a t' with
  | nil => exact hf h hwithin
  | cons key rest ih =>
    -- A table on the way takes the place of the one from before.
    have hchild {child : Table} (hchild : child.Tidy) (put : Table → Item)
        (hput : ∀ {child : Table}, child.Tidy → (put child).Tidy)
        (hway : (Table.within byDots rest f child).bind
          (fun p => some (p.1, t.put key (put p.2))) = some (a, t')) : P a ∧ t'.Tidy := by
      obtain ⟨⟨b, child'⟩, hrest, heq⟩ := Option.bind_eq_some_iff.mp hway
      cases heq
      have hdone := ih hchild hrest
      exact ⟨hdone.1, h.put key (hput hdone.2)⟩
    rw [Table.within] at hwithin
    split at hwithin
    · exact hchild (tidy_onTheWay byDots) .table .table hwithin
    · cases hwithin
    · rename_i child hlookup
      cases h.of_lookup hlookup with
      | table htidy =>
        split at hwithin
        · cases hwithin
        · exact hchild htidy .table .table hwithin
    · rename_i ts hlookup
      cases h.of_lookup hlookup with
      | tables htidy =>
        obtain ⟨last, hlast, hwithin⟩ := Option.bind_eq_some_iff.mp hwithin
        refine hchild (htidy last (List.mem_of_getLast? hlast))
          (fun last => .tables (ts.dropLast ++ [last])) (fun hlast => ?_) hwithin
        exact tidy_tables (fun t ht => htidy t (List.dropLast_subset ts ht)) hlast

theorem Tidy.define (h : t.Tidy) {path : List String} {v : Toml} (hv : v.Tidy)
    (hdefine : t.define path key v = some t') : t'.Tidy := by
  obtain ⟨⟨a, t''⟩, hwithin, rfl⟩ := Option.map_eq_some_iff.mp hdefine
  refine (h.within (P := fun _ => True) (fun {t _ _} ht hf => ?_) hwithin).2
  split at hf
  · cases hf
  · cases hf
    exact ⟨trivial, ht.put key (.value hv)⟩

end Table

mutual

theorem Item.Tidy.toToml {item : Item} (h : item.Tidy) : item.toToml.Tidy := by
  match item with
  | .value v =>
    cases h with
    | value h =>
      rw [Item.toToml]
      exact h
  | .table t =>
    cases h with
    | table h =>
      rw [Item.toToml]
      exact h.toToml
  | .tables ts =>
    cases h with
    | tables h =>
      rw [Item.toToml, tablesToml_eq]
      refine .list fun v hv => ?_
      obtain ⟨t, ht, rfl⟩ := List.mem_map.mp hv
      have hsmaller := List.sizeOf_lt_of_mem ht
      exact (h t ht).toToml
termination_by sizeOf item

theorem Table.Tidy.toToml {t : Table} (h : t.Tidy) : t.toToml.Tidy := by
  match t with
  | .mk _ _ entries =>
    cases h with
    | mk hsorted hitems =>
      rw [Table.toToml, entriesToml_eq]
      refine .table (Dict.sorted_mapValues Item.toToml hsorted) fun e he => ?_
      obtain ⟨⟨k, item⟩, hitem, rfl⟩ := List.mem_map.mp he
      have hsmaller : sizeOf item < sizeOf entries := by
        have hentry := List.sizeOf_lt_of_mem hitem
        rw [Prod.mk.sizeOf_spec] at hentry
        omega
      exact (hitems (k, item) hitem).toToml
termination_by sizeOf t

end

/-! ## Documents -/

structure Document.Tidy (d : Document) : Prop where
  root : d.root.Tidy
  current : d.current.Tidy

namespace Document

open Table

variable {d d' : Document} {path : List String}

theorem Tidy.finish (h : d.Tidy) {t : Table} (hfinish : d.finish = some t) : t.Tidy := by
  unfold Document.finish at hfinish
  split at hfinish
  · cases hfinish
    exact h.current
  · obtain ⟨⟨a, t'⟩, hwithin, rfl⟩ := Option.map_eq_some_iff.mp hfinish
    refine (h.root.within (P := fun _ => True) (fun {t _ _} ht hf => ?_) hwithin).2
    split at hf
    · cases hf
      exact ⟨trivial, ht.put _ (tidy_tables (List.forall_mem_nil _) h.current)⟩
    · rename_i ts hlookup _
      cases hf
      cases ht.of_lookup hlookup with
      | tables hts => exact ⟨trivial, ht.put _ (tidy_tables hts h.current)⟩
    · cases hf
      exact ⟨trivial, ht.put _ (.table h.current)⟩
    · cases hf

theorem Tidy.openTable (h : d.Tidy) (hopen : d.openTable path = some d') : d'.Tidy := by
  obtain ⟨root, hfinish, hopen⟩ := Option.bind_eq_some_iff.mp hopen
  obtain ⟨⟨way, key⟩, -, hopen⟩ := Option.bind_eq_some_iff.mp hopen
  obtain ⟨⟨current, root'⟩, hwithin, hopen⟩ := Option.bind_eq_some_iff.mp hopen
  cases hopen
  have hdone := (h.finish hfinish).within (P := Table.Tidy) (fun {t _ _} ht hf => ?_) hwithin
  · exact ⟨hdone.2, hdone.1⟩
  · split at hf
    · cases hf
      exact ⟨tidy_empty, ht⟩
    · rename_i child hlookup
      split at hf
      · cases hf
        cases ht.of_lookup hlookup with
        | table hchild => exact ⟨hchild.headed, ht.drop key⟩
      · cases hf
    · cases hf

theorem Tidy.openRepeated (h : d.Tidy) (hopen : d.openRepeated path = some d') : d'.Tidy := by
  obtain ⟨root, hfinish, hopen⟩ := Option.bind_eq_some_iff.mp hopen
  obtain ⟨⟨way, key⟩, -, hopen⟩ := Option.bind_eq_some_iff.mp hopen
  obtain ⟨⟨_, root'⟩, hwithin, hopen⟩ := Option.bind_eq_some_iff.mp hopen
  cases hopen
  have hdone := (h.finish hfinish).within (P := fun _ => True) (fun {t _ _} ht hf => ?_) hwithin
  · exact ⟨hdone.2, tidy_empty⟩
  · split at hf
    · cases hf
      exact ⟨trivial, ht.put key (.tables nofun)⟩
    · cases hf
      exact ⟨trivial, ht⟩
    · cases hf

theorem Tidy.define (h : d.Tidy) {key : String} {v : Toml} (hv : v.Tidy)
    (hdefine : d.define path key v = some d') : d'.Tidy := by
  obtain ⟨t, ht, rfl⟩ := Option.map_eq_some_iff.mp hdefine
  exact ⟨h.root, h.current.define hv ht⟩

end Document

/-! ## Values -/

namespace Grammar

theorem tidy_wordValue {cs : List Char} {v : Toml} (h : Word.value cs = some v) : v.Tidy := by
  unfold Word.value at h
  split at h
  · cases h
    exact .bool true
  split at h
  · cases h
    exact .bool false
  split at h
  · rcases Option.or_eq_some_iff.mp h with h | ⟨-, h⟩
    · obtain ⟨n, -, rfl⟩ := Option.map_eq_some_iff.mp h
      exact .int n
    · obtain ⟨x, -, rfl⟩ := Option.map_eq_some_iff.mp h
      exact .float x
  · obtain ⟨s, -, rfl⟩ := Option.map_eq_some_iff.mp h
    exact .date s
  · split at h
    · obtain ⟨s, -, rfl⟩ := Option.map_eq_some_iff.mp h
      exact .date s
    · cases h

theorem tidy_word {cs rest : List Char} {v : Toml} (h : word cs = some (v, rest)) : v.Tidy := by
  unfold word at h
  dsimp only at h
  split at h
  · obtain ⟨v', hvalue, heq⟩ := Option.map_eq_some_iff.mp h
    cases heq
    exact tidy_wordValue hvalue
  · obtain ⟨v', hvalue, heq⟩ := Option.map_eq_some_iff.mp h
    cases heq
    exact tidy_wordValue hvalue

/-- What a reader with this much fuel gives back is tidy. -/
structure Tidies (fuel : Nat) : Prop where
  value {depth : Nat} {cs rest : List Char} {v : Toml} :
    value fuel depth cs = some (v, rest) → v.Tidy
  items {depth : Nat} {cs rest : List Char} {vs : List Toml} :
    items fuel depth cs = some (vs, rest) → ∀ v ∈ vs, v.Tidy
  members {depth : Nat} {cs rest : List Char} {t t' : Table} :
    t.Tidy → members fuel depth t cs = some (t', rest) → t'.Tidy

variable {fuel depth : Nat} {cs rest : List Char}

theorem tidy_value (h : Tidies fuel) {v : Toml}
    (hvalue : value (fuel + 1) depth cs = some (v, rest)) : v.Tidy := by
  rw [value.eq_def] at hvalue
  dsimp only at hvalue
  split at hvalue
  · obtain ⟨⟨s, _⟩, -, heq⟩ := Option.map_eq_some_iff.mp hvalue
    cases heq
    exact .text s
  · obtain ⟨⟨s, _⟩, -, heq⟩ := Option.map_eq_some_iff.mp hvalue
    cases heq
    exact .text s
  · split at hvalue
    · cases hvalue
    · obtain ⟨⟨vs, _⟩, hitems, heq⟩ := Option.map_eq_some_iff.mp hvalue
      cases heq
      exact .list (h.items hitems)
  · split at hvalue
    · cases hvalue
    · split at hvalue
      · cases hvalue
        exact .table Dict.sorted_nil nofun
      · obtain ⟨⟨t, _⟩, hmembers, heq⟩ := Option.map_eq_some_iff.mp hvalue
        cases heq
        exact (h.members Table.tidy_empty hmembers).toToml
  · exact tidy_word hvalue

theorem tidy_items (h : Tidies fuel) {vs : List Toml}
    (hitems : items (fuel + 1) depth cs = some (vs, rest)) : ∀ v ∈ vs, v.Tidy := by
  rw [items.eq_def] at hitems
  dsimp only at hitems
  split at hitems
  · cases hitems
    exact nofun
  · obtain ⟨⟨v, _⟩, hvalue, hitems⟩ := Option.bind_eq_some_iff.mp hitems
    split at hitems
    · obtain ⟨⟨vs, _⟩, hrest, heq⟩ := Option.bind_eq_some_iff.mp hitems
      cases heq
      exact List.forall_mem_cons.mpr ⟨h.value hvalue, h.items hrest⟩
    · cases hitems
      exact List.forall_mem_singleton.mpr (h.value hvalue)
    · cases hitems

theorem tidy_members (h : Tidies fuel) {t t' : Table} (ht : t.Tidy)
    (hmembers : members (fuel + 1) depth t cs = some (t', rest)) : t'.Tidy := by
  rw [members.eq_def] at hmembers
  dsimp only at hmembers
  obtain ⟨⟨path, _⟩, -, hmembers⟩ := Option.bind_eq_some_iff.mp hmembers
  obtain ⟨⟨way, last⟩, -, hmembers⟩ := Option.bind_eq_some_iff.mp hmembers
  obtain ⟨_, -, hmembers⟩ := Option.bind_eq_some_iff.mp hmembers
  obtain ⟨⟨v, _⟩, hvalue, hmembers⟩ := Option.bind_eq_some_iff.mp hmembers
  obtain ⟨t₁, hdefine, hmembers⟩ := Option.bind_eq_some_iff.mp hmembers
  have ht₁ := ht.define (h.value hvalue) hdefine
  split at hmembers
  · exact h.members ht₁ hmembers
  · cases hmembers
    exact ht₁
  · cases hmembers

theorem tidies (fuel : Nat) : Tidies fuel := by
  induction fuel with
  | zero =>
    refine ⟨fun h => ?_, fun h => ?_, fun _ h => ?_⟩
    · cases h
    · cases h
    · cases h
  | succ fuel ih => exact ⟨tidy_value ih, tidy_items ih, tidy_members ih⟩

/-! ## Lines -/

variable {d d' : Document}

theorem tidy_definition (h : d.Tidy) (hdefinition : definition cs d = some (d', rest)) :
    d'.Tidy := by
  obtain ⟨⟨path, _⟩, -, hdefinition⟩ := Option.bind_eq_some_iff.mp hdefinition
  obtain ⟨⟨way, last⟩, -, hdefinition⟩ := Option.bind_eq_some_iff.mp hdefinition
  obtain ⟨_, -, hdefinition⟩ := Option.bind_eq_some_iff.mp hdefinition
  obtain ⟨⟨v, _⟩, hvalue, hdefinition⟩ := Option.bind_eq_some_iff.mp hdefinition
  obtain ⟨d'', hdefine, hdefinition⟩ := Option.bind_eq_some_iff.mp hdefinition
  obtain ⟨_, -, heq⟩ := Option.bind_eq_some_iff.mp hdefinition
  cases heq
  exact h.define ((tidies _).value hvalue) hdefine

theorem tidy_line (h : d.Tidy) (hline : line cs d = some (d', rest)) : d'.Tidy := by
  unfold line at hline
  split at hline
  · obtain ⟨⟨path, _⟩, -, hline⟩ := Option.bind_eq_some_iff.mp hline
    obtain ⟨d'', hopen, heq⟩ := Option.bind_eq_some_iff.mp hline
    cases heq
    exact h.openRepeated hopen
  · obtain ⟨⟨path, _⟩, -, hline⟩ := Option.bind_eq_some_iff.mp hline
    obtain ⟨d'', hopen, heq⟩ := Option.bind_eq_some_iff.mp hline
    cases heq
    exact h.openTable hopen
  · split at hline
    · obtain ⟨_, -, heq⟩ := Option.map_eq_some_iff.mp hline
      cases heq
      exact h
    · exact tidy_definition h hline
  · cases hline
    exact h

theorem tidy_lines (h : d.Tidy) (hlines : lines fuel cs d = some d') : d'.Tidy := by
  induction fuel generalizing cs d with
  | zero =>
    cases cs with
    | nil =>
      rw [lines] at hlines
      cases hlines
      exact h
    | cons => cases hlines
  | succ fuel ih =>
    cases cs with
    | nil =>
      rw [lines] at hlines
      cases hlines
      exact h
    | cons c cs =>
      obtain ⟨⟨d₁, rest⟩, hline, hrest⟩ := Option.bind_eq_some_iff.mp hlines
      exact ih (tidy_line h hline) hrest

end Grammar

theorem tidy_read {s : String} {members : Dict Toml} (h : read s = some members) :
    (Toml.table members).Tidy := by
  obtain ⟨d, hlines, h⟩ := Option.bind_eq_some_iff.mp h
  obtain ⟨t, hfinish, h⟩ := Option.bind_eq_some_iff.mp h
  have hstart : Document.Tidy {} := ⟨Table.tidy_empty, Table.tidy_empty⟩
  have htidy := ((Grammar.tidy_lines hstart hlines).finish hfinish).toToml
  split at h
  · rename_i heq
    cases h
    rwa [heq] at htidy
  · cases h

end PluginConsole.Toml
