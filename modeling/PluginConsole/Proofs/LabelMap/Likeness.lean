import PluginConsole.Proofs.LabelMap.Frame

/-!
# Maps of one shape

Where titles go depends on their categories and labels alone. Two maps that the same labels are
filed in have the same groups and the same labels at the same places, whatever the titles are.
-/

namespace PluginConsole

namespace LabelNode

/-- What stands at one place of two maps is of one kind, and if it is titles, these are related. -/
inductive Likened (R : String → String → Prop) : Option LabelNode → Option LabelNode → Prop where
  | nothing : Likened R none none
  | groups (g g' : Group) : Likened R (some (.group g)) (some (.group g'))
  | titles {t t' : String} (h : R t t') : Likened R (some (.title t)) (some (.title t'))

/-- Groups of one shape. Titles are related by the label they stand under. -/
def OneShape (R : String → String → String → Prop) (g g' : Group) : Prop :=
  ∀ place, Likened (fun t t' => ∃ label, place.getLast? = some label ∧ R label t t')
    (nodeAt place (.group g)) (nodeAt place (.group g'))

variable {R : String → String → String → Prop} {g g' : Group}

theorem OneShape.nil : OneShape R [] [] := by
  intro place
  cases place with
  | nil => exact .groups [] []
  | cons step rest => exact .nothing

theorem OneShape.insertAt (h : OneShape R g g') (path : List String) {key t t' : String}
    (ht : R key t t') :
    OneShape R (insertAt path key (.title t) g) (insertAt path key (.title t') g') := by
  intro place
  -- A place is on the way to what is filed, or below it, or apart from both.
  by_cases habove : place <+: path
  · obtain ⟨inner, hinner⟩ := nodeAt_insertAt_above key (.title t) g habove
    obtain ⟨inner', hinner'⟩ := nodeAt_insertAt_above key (.title t') g' habove
    rw [hinner, hinner']
    exact .groups inner inner'
  by_cases hbelow : path ++ [key] <+: place
  · obtain ⟨below, rfl⟩ := hbelow
    rw [List.append_assoc, List.singleton_append, nodeAt_insertAt_below, nodeAt_insertAt_below]
    cases below with
    | nil => exact .titles ⟨key, List.getLast?_concat, ht⟩
    | cons step rest => exact .nothing
  · rw [nodeAt_insertAt_apart key (.title t) g habove hbelow,
      nodeAt_insertAt_apart key (.title t') g' habove hbelow]
    exact h place

end LabelNode

namespace LabelMap

open LabelNode

variable {R : String → String → String → Prop} {m m' : LabelMap}

theorem oneShape_insert (h : OneShape R m.root m'.root) (category : String) {label t t' : String}
    (ht : R label t t') :
    OneShape R (m.insert category label t).root (m'.insert category label t').root :=
  (h.insertAt (categoryPath category) ht).insertAt [flatKey] ht

theorem oneShape_insertAll {α : Type} {items : List α} {file file' : α → Filing}
    (hcategory : ∀ a, (file' a).category = (file a).category)
    (hlabel : ∀ a, (file' a).label = (file a).label)
    (htitles : ∀ a ∈ items, R (file a).label (file a).title (file' a).title)
    (h : OneShape R m.root m'.root) :
    OneShape R (insertAll (items.map file) m).root (insertAll (items.map file') m').root := by
  induction items generalizing m m' with
  | nil => exact h
  | cons a rest ih =>
    obtain ⟨hfirst, hrest⟩ := List.forall_mem_cons.mp htitles
    have hinsert : OneShape R (m.insert (file a).category (file a).label (file a).title).root
        (m'.insert (file' a).category (file' a).label (file' a).title).root := by
      rw [hcategory, hlabel]
      exact oneShape_insert h (file a).category hfirst
    exact ih hrest hinsert

end LabelMap

end PluginConsole
