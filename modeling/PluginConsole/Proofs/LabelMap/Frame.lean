import Mathlib.Data.List.TakeWhile
import PluginConsole.Proofs.LabelMap.Tree

/-!
# What an insertion leaves alone

A title is written in two places, at the end of the path of its category and in the flat group. The
flat group is written last, so it wins where both places are on one path.
-/

namespace PluginConsole

/-! ## Slashes at the end -/

def slashes (n : Nat) : String :=
  String.ofList (List.replicate n '/')

theorem dropWhile_append_slashes (category : String) (n : Nat) :
    (category ++ slashes n).toList.reverse.dropWhile (· == '/') =
      category.toList.reverse.dropWhile (· == '/') := by
  have hslashes : ∀ c ∈ List.replicate n '/', (c == '/') = true :=
    fun c hc => beq_iff_eq.mpr (List.eq_of_mem_replicate hc)
  unfold slashes
  rw [String.toList_append, String.toList_ofList, List.reverse_append, List.reverse_replicate,
    List.dropWhile_append_of_pos hslashes]

theorem segments_append_slashes {category : String} (h : ∃ c ∈ category.toList, c ≠ '/') (n : Nat) :
    segments (category ++ slashes n) = segments category := by
  have hrest : category.toList.reverse.dropWhile (· == '/') ≠ [] := by
    obtain ⟨c, hc, hne⟩ := h
    intro hnil
    rw [List.dropWhile_eq_nil_iff] at hnil
    exact hne (beq_iff_eq.mp (hnil c (List.mem_reverse.mpr hc)))
  -- Something is left of either category, so neither is the one of slashes alone.
  have hsome : (category.toList.reverse.dropWhile (· == '/')).reverse.isEmpty = false := by
    simpa using hrest
  unfold segments
  rw [dropWhile_append_slashes]
  simp only [hsome, Bool.false_and, Bool.false_eq_true, if_false]

namespace LabelNode

/-- Neither is on the way to the other. -/
def Apart (place other : List String) : Prop :=
  ¬ place <+: other ∧ ¬ other <+: place

instance (place other : List String) : Decidable (Apart place other) :=
  inferInstanceAs (Decidable (_ ∧ _))

theorem nodeAt_insertAt_of_apart {path place : List String} {key : String} (node : LabelNode)
    (g : Group) (h : Apart place (path ++ [key])) :
    nodeAt place (.group (insertAt path key node g)) = nodeAt place (.group g) := by
  refine nodeAt_insertAt_apart key node g (fun hbefore => ?_) h.2
  exact h.1 (hbefore.trans (List.prefix_append path [key]))

end LabelNode

namespace LabelMap

open LabelNode

def at? (m : LabelMap) (place : List String) : Option LabelNode :=
  nodeAt place (.group m.root)

theorem category_eq (m : LabelMap) (category : String) :
    m.category category = (m.at? (categoryPath category)).bind asGroup :=
  groupAt_eq (categoryPath category) m.root

/-- All that filing a title makes of a map. -/
structure Receives (f : Filing) (m after : LabelMap) : Prop where
  shown : after.at? f.place = some (.title f.title) ↔ f.place ≠ [flatKey]
  listed : after.at? [flatKey, f.label] = some (.title f.title)
  apart (place : List String) : Apart place f.place → Apart place [flatKey, f.label] →
    after.at? place = m.at? place
  opened : ∃ group, after.at? (categoryPath f.category) = some (.group group) ∧
    (∀ category, segments category = segments f.category → after.category category = some group) ∧
    ((∃ c ∈ f.category.toList, c ≠ '/') →
      ∀ n, after.category (f.category ++ slashes n) = some group)

theorem at?_insert_listed (f : Filing) (m : LabelMap) :
    (m.insert f.category f.label f.title).at? [flatKey, f.label] = some (.title f.title) :=
  nodeAt_insertAt_below [flatKey] f.label (.title f.title) _ []

theorem at?_insert_place (f : Filing) (m : LabelMap) :
    (m.insert f.category f.label f.title).at? f.place = some (.title f.title) ↔
      f.place ≠ [flatKey] := by
  have hsweeps : f.place = [flatKey] ↔ f.Sweeps := by
    rw [← f.place_prefix_flat]
    refine ⟨fun h => h ▸ List.prefix_rfl, fun h => ?_⟩
    exact h.eq_of_length_le (by simp [Filing.place])
  rw [ne_eq, hsweeps, ← shows_insert_self f m, shows_iff]
  rfl

theorem at?_insert_of_apart {f : Filing} {place : List String} (m : LabelMap)
    (hplace : Apart place f.place) (hflat : Apart place [flatKey, f.label]) :
    (m.insert f.category f.label f.title).at? place = m.at? place := by
  have hflat : Apart place ([flatKey] ++ [f.label]) := hflat
  unfold at? insert
  rw [nodeAt_insertAt_of_apart _ _ hflat]
  exact nodeAt_insertAt_of_apart _ _ hplace

/-- The group of a category is made by the first of the two writings. The second is no reason for
it to go, because no category runs through the flat group. -/
theorem at?_insert_category (f : Filing) (m : LabelMap) :
    ∃ group, (m.insert f.category f.label f.title).at? (categoryPath f.category) =
      some (.group group) := by
  by_cases hroot : categoryPath f.category = []
  · rw [hroot]
    exact ⟨_, rfl⟩
  · have hapart : Apart (categoryPath f.category) ([flatKey] ++ [f.label]) := by
      have hnot := flatKey_notMem_categoryPath f.category
      cases hpath : categoryPath f.category with
      | nil => exact absurd hpath hroot
      | cons step rest =>
        have hne : step ≠ flatKey := fun heq => hnot (by simp [hpath, heq])
        exact ⟨fun h => hne (List.cons_prefix_cons.mp h).1,
          fun h => hne (List.cons_prefix_cons.mp h).1.symm⟩
    unfold at? insert
    rw [nodeAt_insertAt_of_apart _ _ hapart]
    exact nodeAt_insertAt_above f.label (.title f.title) m.root List.prefix_rfl

theorem category_of_segments {m : LabelMap} {category other : String} {group : Group}
    (hgroup : m.at? (categoryPath category) = some (.group group))
    (hsegments : segments other = segments category) : m.category other = some group := by
  have hpath : categoryPath other = categoryPath category := congrArg (List.map _) hsegments
  rw [category_eq, hpath, hgroup]
  rfl

/-- Filing a title changes a map in the two places of the title alone, and its category is found
with any number of slashes at its end. -/
theorem insert_receives (category label title : String) (m : LabelMap) :
    Receives ⟨category, label, title⟩ m (m.insert category label title) := by
  let f : Filing := ⟨category, label, title⟩
  obtain ⟨group, hgroup⟩ := at?_insert_category f m
  exact
    { shown := at?_insert_place f m
      listed := at?_insert_listed f m
      apart := fun place => at?_insert_of_apart m
      opened := ⟨group, hgroup, fun other => category_of_segments hgroup,
        fun hother n => category_of_segments hgroup (segments_append_slashes hother n)⟩ }

theorem insert_receives_opening :
    let m := insertAll [⟨"misc", "b", "Plain"⟩, ⟨"sys", "category.info", "Info"⟩] {}
    let after := m.insert "sys/info/" "z" "Zed"
    m.at? ["category.sys", "category.info"] = some (.title "Info") ∧
      after.at? ["category.sys", "category.info", "z"] = some (.title "Zed") ∧
      after.at? ["category.misc", "b"] = some (.title "Plain") ∧
      (after.category "sys/info///").isSome := by
  intro m after
  have hreceives : Receives ⟨"sys/info/", "z", "Zed"⟩ m after := insert_receives _ _ _ m
  obtain ⟨group, -, -, hslashes⟩ := hreceives.opened
  have hfound : after.category "sys/info///" = some group := hslashes ⟨'s', by decide⟩ 2
  refine ⟨rfl, hreceives.shown.mpr (by decide), ?_, ?_⟩
  · rw [hreceives.apart ["category.misc", "b"] (by decide) (by decide)]
    rfl
  · rw [hfound]
    rfl

end LabelMap

end PluginConsole
