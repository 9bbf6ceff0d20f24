import PluginConsole.Proofs.LabelMap

/-!
# Labels in the category tree

A title that is filed makes groups of all that its category runs through, takes the place of what
stood under its label, and leaves the rest of the tree as it was.
-/

namespace PluginConsole

namespace LabelNode

/-- What stands at the end of a path. Below a title there is nothing. -/
def nodeAt : List String → LabelNode → Option LabelNode
  | [], node => some node
  | step :: rest, node => ((members (some node)).lookup step).bind (nodeAt rest)

theorem nodeAt_append (path rest : List String) (node : LabelNode) :
    nodeAt (path ++ rest) node = (nodeAt path node).bind (nodeAt rest) := by
  induction path generalizing node with
  | nil => rfl
  | cons step path ih =>
    simp only [List.cons_append, nodeAt, Option.bind_assoc]
    congr 1
    exact funext fun next => ih next

theorem groupAt_eq (path : List String) (g : Group) :
    groupAt path g = (nodeAt path (.group g)).bind asGroup := by
  induction path generalizing g with
  | nil => rfl
  | cons step rest ih =>
    simp only [groupAt, nodeAt, members]
    cases g.lookup step with
    | none => rfl
    | some node =>
      cases node with
      | group below => exact ih below
      | title s => cases rest <;> rfl

/-! ## After a filing -/

variable (path : List String) (key : String) (node : LabelNode) (g : Group)

theorem nodeAt_insertAt_below (below : List String) :
    nodeAt (path ++ key :: below) (.group (insertAt path key node g)) = nodeAt below node := by
  induction path generalizing g with
  | nil =>
    simp only [List.nil_append, nodeAt, members, insertAt, Dict.lookup_insert_self]
    rfl
  | cons step rest ih =>
    simp only [List.cons_append, nodeAt, members, insertAt, Dict.lookup_insert_self]
    exact ih _

variable {path} {place : List String}

theorem nodeAt_insertAt_above (h : place <+: path) :
    ∃ inner, nodeAt place (.group (insertAt path key node g)) = some (.group inner) := by
  induction path generalizing place g with
  | nil =>
    obtain rfl := List.prefix_nil.mp h
    exact ⟨_, rfl⟩
  | cons step rest ih =>
    cases place with
    | nil => exact ⟨_, rfl⟩
    | cons first place =>
      obtain ⟨rfl, hrest⟩ := List.cons_prefix_cons.mp h
      simp only [nodeAt, members, insertAt, Dict.lookup_insert_self]
      exact ih _ hrest

theorem nodeAt_insertAt_apart (habove : ¬ place <+: path) (hbelow : ¬ path ++ [key] <+: place) :
    nodeAt place (.group (insertAt path key node g)) = nodeAt place (.group g) := by
  induction path generalizing place g with
  | nil =>
    cases place with
    | nil => exact absurd List.prefix_rfl habove
    | cons first place =>
      have hne : first ≠ key := by
        rintro rfl
        exact hbelow ((List.prefix_append [first] place))
      simp only [nodeAt, members, insertAt, Dict.lookup_insert_of_ne hne]
  | cons step rest ih =>
    cases place with
    | nil => exact absurd (List.nil_prefix) habove
    | cons first place =>
      by_cases hne : first = step
      · subst hne
        have habove : ¬ place <+: rest := fun h => habove (List.cons_prefix_cons.mpr ⟨rfl, h⟩)
        have hbelow : ¬ rest ++ [key] <+: place :=
          fun h => hbelow (List.cons_prefix_cons.mpr ⟨rfl, h⟩)
        simp only [nodeAt, members, insertAt, Dict.lookup_insert_self, Option.bind_some]
        rw [ih _ habove hbelow]
        -- A title on the way is below nothing, as the empty group in its place is.
        cases place with
        | nil => exact absurd List.nil_prefix habove
        | cons second place => cases g.lookup first <;> rfl
      · simp only [nodeAt, members, insertAt, Dict.lookup_insert_of_ne hne]

end LabelNode

namespace Filing

def place (f : Filing) : List String :=
  categoryPath f.category ++ [f.label]

/-- Its category runs through the place of another, which is a group then. -/
def Opens (g f : Filing) : Prop :=
  f.place <+: categoryPath g.category

/-- Its title takes the place of a group that another is in. -/
def Cuts (g f : Filing) : Prop :=
  g.place <+: categoryPath f.category

instance (g f : Filing) : Decidable (g.Opens f) :=
  inferInstanceAs (Decidable (_ <+: _))

instance (g f : Filing) : Decidable (g.Cuts f) :=
  inferInstanceAs (Decidable (_ <+: _))

theorem place_prefix_flat (f : Filing) : f.place <+: [flatKey] ↔ f.Sweeps := by
  unfold place Sweeps
  cases categoryPath f.category with
  | nil => simp
  | cons step rest => simp

theorem flat_not_prefix_place (f : Filing) (label : String) : ¬ [flatKey, label] <+: f.place := by
  have hnot := flatKey_notMem_categoryPath f.category
  unfold place
  cases hpath : categoryPath f.category with
  | nil => simp
  | cons step rest =>
    intro hprefix
    have hstep : flatKey = step := (List.cons_prefix_cons.mp hprefix).1
    exact hnot (hpath ▸ hstep ▸ List.mem_cons_self)

theorem label_eq_of_place_eq {f g : Filing} (h : f.place = g.place) : f.label = g.label :=
  (List.append_inj' h rfl).2 |> List.singleton_inj.mp

end Filing

namespace LabelMap

open LabelNode

/-- In the group of its category a filing has its title under its label. -/
def Shows (m : LabelMap) (f : Filing) : Prop :=
  ∃ group, m.category f.category = some group ∧ group.lookup f.label = some (.title f.title)

theorem shows_iff {m : LabelMap} {f : Filing} :
    m.Shows f ↔ nodeAt f.place (.group m.root) = some (.title f.title) := by
  unfold Shows category Filing.place
  rw [groupAt_eq, nodeAt_append]
  cases nodeAt (categoryPath f.category) (.group m.root) with
  | none => simp
  | some node => cases node <;> simp [asGroup, nodeAt, members]

/-- The flat group takes the place of a title under its own name, and is no part of the tree
apart from that. -/
theorem nodeAt_insert (category label title : String) (m : LabelMap) {f : Filing}
    (hkeeps : ¬ f.Sweeps) :
    nodeAt f.place (.group (m.insert category label title).root) =
      nodeAt f.place (.group (insertAt (categoryPath category) label (.title title) m.root)) := by
  refine nodeAt_insertAt_apart _ _ _ ?_ (f.flat_not_prefix_place label)
  rw [f.place_prefix_flat]
  exact hkeeps

theorem not_shows_of_sweeps {f : Filing} (hsweeps : f.Sweeps) (category label title : String)
    (m : LabelMap) : ¬ (m.insert category label title).Shows f := by
  rw [shows_iff]
  obtain ⟨inner, hinner⟩ := nodeAt_insertAt_above label (.title title)
    (insertAt (categoryPath category) label (.title title) m.root) (f.place_prefix_flat.mpr hsweeps)
  intro h
  have heq := hinner.symm.trans h
  simp at heq

theorem shows_insert_self (f : Filing) (m : LabelMap) :
    (m.insert f.category f.label f.title).Shows f ↔ ¬ f.Sweeps := by
  constructor
  · intro hshows hsweeps
    exact not_shows_of_sweeps hsweeps _ _ _ _ hshows
  · intro hkeeps
    rw [shows_iff, nodeAt_insert _ _ _ _ hkeeps]
    exact nodeAt_insertAt_below (categoryPath f.category) f.label (.title f.title) m.root []

theorem shows_insert_of_ne {f g : Filing} (hlabel : g.label ≠ f.label) (hkeeps : ¬ f.Sweeps)
    (m : LabelMap) :
    (m.insert g.category g.label g.title).Shows f ↔ m.Shows f ∧ ¬ g.Opens f ∧ ¬ g.Cuts f := by
  rw [shows_iff, shows_iff, nodeAt_insert _ _ _ _ hkeeps]
  by_cases hopens : g.Opens f
  · obtain ⟨inner, hinner⟩ := nodeAt_insertAt_above g.label (.title g.title) m.root hopens
    rw [hinner]
    simp [hopens]
  by_cases hcuts : g.Cuts f
  · -- Under a title there is nothing, so not the place of `f` either.
    obtain ⟨below, hbelow⟩ := id hcuts
    have hplace : f.place = categoryPath g.category ++ g.label :: (below ++ [f.label]) := by
      unfold Filing.place
      rw [← hbelow]
      simp [Filing.place]
    have hnone : nodeAt (below ++ [f.label]) (.title g.title) = none := by
      cases below <;> rfl
    rw [hplace, nodeAt_insertAt_below, hnone]
    simp [hcuts]
  · have hnot : ¬ g.place <+: f.place := by
      intro hprefix
      rcases List.prefix_concat_iff.mp hprefix with heq | hprefix
      · exact hlabel (Filing.label_eq_of_place_eq heq)
      · exact hcuts hprefix
    rw [nodeAt_insertAt_apart _ _ _ hopens hnot]
    simp [hopens, hcuts]

theorem shows_insertAll {f : Filing} (hkeeps : ¬ f.Sweeps) {later : List Filing}
    (hlabels : ∀ g ∈ later, g.label ≠ f.label) (m : LabelMap) :
    (insertAll later m).Shows f ↔ m.Shows f ∧ ∀ g ∈ later, ¬ g.Opens f ∧ ¬ g.Cuts f := by
  induction later generalizing m with
  | nil => simp [insertAll]
  | cons g rest ih =>
    have hrest := ih (fun other hother => hlabels other (List.mem_cons_of_mem g hother))
      (m.insert g.category g.label g.title)
    rw [shows_insert_of_ne (hlabels g List.mem_cons_self) hkeeps] at hrest
    rw [List.forall_mem_cons, ← and_assoc]
    exact hrest

theorem not_shows_insertAll_of_sweeps {f : Filing} (hsweeps : f.Sweeps) {filings : List Filing}
    (hsome : filings ≠ []) (m : LabelMap) : ¬ (insertAll filings m).Shows f := by
  rw [← List.dropLast_append_getLast hsome]
  unfold insertAll
  rw [List.foldl_concat]
  apply not_shows_of_sweeps hsweeps

/-- Each of the titles that are filed under labels of their own is shown, but for one in the
place of the flat group and those in the place of a later group or below a later label. -/
theorem shows_insertAll_iff {before later : List Filing} {f : Filing}
    (hlabels : ((before ++ f :: later).map Filing.label).Nodup) :
    (insertAll (before ++ f :: later) {}).Shows f ↔
      ¬ f.Sweeps ∧ ∀ g ∈ later, ¬ g.Opens f ∧ ¬ g.Cuts f := by
  by_cases hsweeps : f.Sweeps
  · have hsome : before ++ f :: later ≠ [] := by simp
    simp [hsweeps, not_shows_insertAll_of_sweeps hsweeps hsome]
  · have hother : ∀ g ∈ later, g.label ≠ f.label := by
      rw [List.map_append, List.map_cons] at hlabels
      have hlater := (List.nodup_cons.mp (List.nodup_append.mp hlabels).2.1).1
      exact fun g hg heq => hlater (heq ▸ List.mem_map_of_mem hg)
    have hsplit : insertAll (before ++ f :: later) {} =
        insertAll later ((insertAll before {}).insert f.category f.label f.title) := by
      unfold insertAll
      rw [List.foldl_append, List.foldl_cons]
    rw [hsplit, shows_insertAll hsweeps hother, shows_insert_self]

/-- A title is shown from when it is filed on, as long as no later category runs through its
place and no later title takes the place of a group it is in. -/
theorem shown_until_opened {before later : List Filing} {f : Filing}
    (hlabels : ((before ++ f :: later).map Filing.label).Nodup)
    (hgroups : ∀ g ∈ later, ¬ g.Cuts f) :
    (insertAll (before ++ f :: later) {}).Shows f ↔ ¬ f.Sweeps ∧ ∀ g ∈ later, ¬ g.Opens f := by
  rw [shows_insertAll_iff hlabels]
  refine and_congr_right fun _ => forall₂_congr fun g hg => ?_
  exact and_iff_left (hgroups g hg)

theorem shown_beside_other_groups :
    let info : Filing := ⟨"sys", "category.info", "Info"⟩
    let before : List Filing := [⟨"misc", "b", "Plain"⟩]
    let later : List Filing := [⟨"sys/logs", "z", "Zed"⟩, ⟨"sys", "category.logs.old", "Old"⟩]
    ((before ++ info :: later).map Filing.label).Nodup ∧ (∀ g ∈ later, ¬ g.Cuts info) ∧
      (insertAll (before ++ info :: later) {}).Shows info := by
  refine ⟨by decide, by decide, ?_⟩
  exact (shown_until_opened (by decide) (by decide)).mpr (by decide)

/-- A category makes a group in place of the title that is in its way. -/
theorem opened_title_not_shown :
    let info : Filing := ⟨"sys", "category.info", "Info"⟩
    let zed : Filing := ⟨"sys/info", "z", "Zed"⟩
    ([info, zed].map Filing.label).Nodup ∧ ¬ (insertAll [info, zed] {}).Shows info := by
  intro info zed
  refine ⟨by decide, fun hshows => ?_⟩
  have hlabels : (([] ++ info :: [zed]).map Filing.label).Nodup := by decide
  have hkept := ((shows_insertAll_iff hlabels).mp hshows).2 zed List.mem_cons_self
  exact hkept.1 (by decide)

end LabelMap

end PluginConsole
