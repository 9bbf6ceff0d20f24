import Mathlib.Data.String.Basic
import PluginConsole.Dict

/-!
# Sorted dictionaries

Writing keeps the keys in order, and in a sorted dictionary to be a member and to be read
under one's key are the same.
-/

namespace PluginConsole.Dict

variable {α : Type u} {β : Type v} {d : Dict α} {key k : String} {value v : α}

instance (d : Dict α) : Decidable (Sorted d) :=
  inferInstanceAs (Decidable (List.Pairwise _ d))

theorem sorted_nil : Sorted ([] : Dict α) :=
  List.Pairwise.nil

theorem sorted_iff_keys : Sorted d ↔ (keys d).Pairwise (· < ·) :=
  List.pairwise_map.symm

theorem nodup_keys (hd : Sorted d) : (keys d).Nodup :=
  (sorted_iff_keys.mp hd).imp ne_of_lt

theorem mem_of_lookup (h : d.lookup key = some value) : (key, value) ∈ d := by
  obtain ⟨before, after, rfl, -⟩ := List.lookup_eq_some_iff.mp h
  simp

theorem mem_iff_lookup (hd : Sorted d) : (k, v) ∈ d ↔ d.lookup k = some v := by
  refine ⟨fun h => ?_, mem_of_lookup⟩
  induction d with
  | nil => simp at h
  | cons entry rest ih =>
    obtain ⟨hhead, htail⟩ := List.pairwise_cons.mp hd
    rcases List.mem_cons.mp h with rfl | h
    · simp
    · have hne : k ≠ entry.1 := ne_of_gt (hhead _ h)
      rw [List.lookup_cons, beq_false_of_ne hne]
      exact ih htail h

theorem mem_keys (h : (k, v) ∈ d) : k ∈ keys d :=
  List.mem_map_of_mem (f := Prod.fst) h

theorem keys_mapValues (f : α → β) (d : Dict α) : keys (mapValues f d) = keys d := by
  unfold keys mapValues
  rw [List.map_map]
  rfl

theorem sorted_mapValues (f : α → β) (hd : Sorted d) : Sorted (mapValues f d) :=
  List.pairwise_map.mpr hd

/-! ## Insertion -/

theorem mem_of_mem_insert {entry : String × α} (h : entry ∈ insert key value d) :
    entry = (key, value) ∨ entry ∈ d := by
  induction d with
  | nil => exact Or.inl (by simpa [insert] using h)
  | cons head rest ih =>
    obtain ⟨k, v⟩ := head
    simp only [insert] at h
    split at h
    · exact List.mem_cons.mp h
    · split at h
      · exact (List.mem_cons.mp h).imp_right (List.mem_cons_of_mem _)
      · rcases List.mem_cons.mp h with rfl | h
        · exact Or.inr List.mem_cons_self
        · exact (ih h).imp_right (List.mem_cons_of_mem _)

theorem sorted_insert (key : String) (value : α) (hd : Sorted d) :
    Sorted (insert key value d) := by
  induction d with
  | nil => simp [insert, Sorted]
  | cons entry rest ih =>
    obtain ⟨hhead, htail⟩ := List.pairwise_cons.mp hd
    obtain ⟨k, v⟩ := entry
    simp only [insert]
    split
    · rename_i hlt
      refine List.pairwise_cons.mpr ⟨fun other hmem => ?_, hd⟩
      rcases List.mem_cons.mp hmem with rfl | hmem
      · exact hlt
      · exact hlt.trans (hhead other hmem)
    · split
      · rename_i _ heq
        subst heq
        exact List.pairwise_cons.mpr ⟨hhead, htail⟩
      · rename_i hlt hne
        have hgt : k < key := lt_of_le_of_ne (not_lt.mp hlt) (Ne.symm hne)
        refine List.pairwise_cons.mpr ⟨fun other hmem => ?_, ih htail⟩
        rcases mem_of_mem_insert hmem with rfl | hmem
        · exact hgt
        · exact hhead other hmem

theorem mem_insert (hd : Sorted d) :
    (k, v) ∈ insert key value d ↔ (k = key ∧ v = value) ∨ (k ≠ key ∧ (k, v) ∈ d) := by
  rw [mem_iff_lookup (sorted_insert key value hd), mem_iff_lookup hd, lookup_insert]
  by_cases h : k = key
  · simp [h, eq_comm]
  · simp [h]

theorem mapValues_insert (f : α → β) (key : String) (value : α) (d : Dict α) :
    mapValues f (insert key value d) = insert key (f value) (mapValues f d) := by
  induction d with
  | nil => rfl
  | cons entry rest ih =>
    obtain ⟨k, v⟩ := entry
    unfold mapValues at ih ⊢
    simp only [insert, List.map_cons]
    split
    · rfl
    · split
      · rfl
      · rw [List.map_cons, ih]

theorem insert_last (h : ∀ entry ∈ d, entry.1 < key) (value : α) :
    insert key value d = d ++ [(key, value)] := by
  induction d with
  | nil => rfl
  | cons entry rest ih =>
    obtain ⟨k, v⟩ := entry
    obtain ⟨hhead, hrest⟩ := List.forall_mem_cons.mp h
    rw [insert, if_neg (lt_asymm hhead), if_neg (ne_of_gt hhead), ih hrest, List.cons_append]

theorem nodup_of_sorted (hd : Sorted d) : d.Nodup := by
  unfold Sorted at hd
  refine hd.imp fun hlt heq => ?_
  exact ne_of_lt hlt (congrArg Prod.fst heq)

theorem eq_of_mem {e : Dict α} (hd : Sorted d) (he : Sorted e)
    (h : ∀ entry, entry ∈ d ↔ entry ∈ e) : d = e := by
  have hperm : d.Perm e :=
    (List.perm_ext_iff_of_nodup (nodup_of_sorted hd) (nodup_of_sorted he)).mpr h
  exact hperm.eq_of_pairwise (fun a b _ _ hab hba => absurd hab (lt_asymm hba)) hd he

theorem eq_of_lookup {e : Dict α} (hd : Sorted d) (he : Sorted e)
    (h : ∀ key, d.lookup key = e.lookup key) : d = e := by
  refine eq_of_mem hd he ?_
  rintro ⟨k, v⟩
  rw [mem_iff_lookup hd, mem_iff_lookup he, h]

/-! ## Many at once -/

theorem sorted_overlay (later : List (String × α)) (hd : Sorted d) : Sorted (overlay d later) := by
  unfold overlay
  induction later generalizing d with
  | nil => exact hd
  | cons entry rest ih => exact ih (sorted_insert entry.1 entry.2 hd)

theorem mem_of_mem_overlay {later : List (String × α)} {entry : String × α}
    (h : entry ∈ overlay d later) : entry ∈ d ∨ entry ∈ later := by
  unfold overlay at h
  induction later generalizing d with
  | nil => exact Or.inl h
  | cons e rest ih =>
    rcases ih h with h | h
    · rcases mem_of_mem_insert h with rfl | h
      · exact Or.inr List.mem_cons_self
      · exact Or.inl h
    · exact Or.inr (List.mem_cons_of_mem _ h)

theorem lookup_overlay (d : Dict α) (later : List (String × α)) (key : String) :
    (overlay d later).lookup key = (later.reverse.lookup key).or (d.lookup key) := by
  unfold overlay
  induction later generalizing d with
  | nil => rfl
  | cons entry rest ih =>
    rw [List.foldl_cons, ih, lookup_insert, List.reverse_cons, List.lookup_append, Option.or_assoc]
    congr 1
    rw [List.lookup_cons, List.lookup_nil]
    by_cases h : key = entry.1
    · simp [h]
    · simp [h, beq_false_of_ne h]

theorem lookup_ofList (entries : List (String × α)) (key : String) :
    (ofList entries).lookup key = entries.reverse.lookup key := by
  unfold ofList
  rw [lookup_overlay, List.lookup_nil, Option.or_none]

theorem lookup_eq_none {entries : List (String × α)} :
    entries.lookup key = none ↔ key ∉ keys entries := by
  simp only [List.lookup_eq_none_iff, keys, List.mem_map, not_exists, not_and, bne_iff_ne]
  exact forall₂_congr fun _ _ => ne_comm

theorem lookup_reverse (hd : Sorted d) (key : String) : d.reverse.lookup key = d.lookup key := by
  cases h : d.reverse.lookup key with
  | some value => exact ((mem_iff_lookup hd).mp (List.mem_reverse.mp (mem_of_lookup h))).symm
  | none =>
    rw [lookup_eq_none] at h
    refine (lookup_eq_none.mpr fun hmem => h ?_).symm
    simpa [keys] using hmem

theorem lookup_overlay_of_sorted {later : Dict α} (h : Sorted later) (d : Dict α) (key : String) :
    (overlay d later).lookup key = (later.lookup key).or (d.lookup key) := by
  rw [lookup_overlay, lookup_reverse h]

theorem ofList_append_eq_right (earlier later : List (String × α)) :
    ofList (earlier ++ later) = ofList later ↔ ∀ key ∈ keys earlier, key ∈ keys later := by
  have hlookup (key : String) : (ofList (earlier ++ later)).lookup key =
      (later.reverse.lookup key).or (earlier.reverse.lookup key) := by
    rw [lookup_ofList, List.reverse_append, List.lookup_append]
  have hkeys (entries : List (String × α)) (key : String) :
      entries.reverse.lookup key = none ↔ key ∉ keys entries := by
    rw [lookup_eq_none]
    simp [keys]
  constructor
  · intro heq key hearlier
    by_contra hlater
    have hnone : (ofList later).lookup key = none := by
      rw [lookup_ofList, hkeys]
      exact hlater
    rw [← heq, hlookup, Option.or_eq_none_iff] at hnone
    exact (hkeys earlier key).mp hnone.2 hearlier
  · intro hagain
    refine eq_of_lookup (sorted_overlay _ sorted_nil) (sorted_overlay _ sorted_nil) fun key => ?_
    show (ofList (earlier ++ later)).lookup key = (ofList later).lookup key
    rw [hlookup, lookup_ofList]
    cases hlater : later.reverse.lookup key with
    | some value => rfl
    | none =>
      rw [Option.none_or, hkeys]
      exact fun hearlier => (hkeys later key).mp hlater (hagain key hearlier)

/-! ## Erasure -/

theorem mem_erase : (k, v) ∈ erase key d ↔ k ≠ key ∧ (k, v) ∈ d := by
  simp [erase, and_comm]

theorem sorted_erase (key : String) (hd : Sorted d) : Sorted (erase key d) :=
  hd.filter _

theorem erase_of_lookup_eq_none (h : d.lookup key = none) : erase key d = d := by
  rw [List.lookup_eq_none_iff] at h
  refine List.filter_eq_self.mpr fun entry hmem => decide_eq_true fun heq => ?_
  have hother := h entry hmem
  rw [heq] at hother
  simp at hother

end PluginConsole.Dict
