import PluginConsole.Proofs.Act
import PluginConsole.Proofs.Dict
import PluginConsole.Registry.Table

/-!
# Queries ask entries

Looking up, listing and mapping ask the entries of the table, one by one, for their components
and texts. A relation that asking one entry stays within is one that every query stays within.
-/

namespace PluginConsole.Registry

open Act

variable {σ α : Type}

theorem mem_snapshot_of_lookup {w : World σ} {label : String} {id : EntryId}
    (h : w.table.lookup label = some id) : id ∈ snapshot w :=
  List.mem_map_of_mem (Dict.mem_of_lookup h)

theorem snapshot_congr {w w' : World σ} (h : w'.table = w.table) : snapshot w' = snapshot w :=
  congrArg (List.map Prod.snd) h

/-- Steps can be put together. `may` are the entries that may be dealt with; when the registry is
`ready`, all that the table leads to are among them. -/
structure Progress (ready : World σ → Prop) (may : World σ → EntryId → Prop)
    (R : World σ → World σ → Prop) : Prop where
  refl (w : World σ) : R w w
  trans {a b c : World σ} (h : R a b) (h' : R b c) : R a c
  aside (w : World σ) (inHand : List EntryId) : R w { w with inHand }
  stays {w w' : World σ} {id : EntryId} (h : R w w') (hmay : may w id) : may w' id
  keeps {w w' : World σ} (h : R w w') (hready : ready w) : ready w'
  listed {w : World σ} (hready : ready w) : ∀ id ∈ snapshot w, may w id

namespace Progress

variable {ready : World σ → Prop} {may : World σ → EntryId → Prop} {R : World σ → World σ → Prop}
variable (h : Progress ready may R) {w : World σ}
include h

theorem holding {act : Act σ α} (ids : List EntryId)
    (hact : Ends act { w with inHand := ids ++ w.inHand } fun _ w' =>
      R { w with inHand := ids ++ w.inHand } w') :
    Ends (holding ids act) w fun _ w' => R w w' := by
  rw [ends_holding]
  refine hact.imp fun _ w' hw' => ?_
  exact h.trans (h.aside w _) (h.trans hw' (h.aside w' _))

theorem inHand {ids : List EntryId} (hmay : ∀ id ∈ ids, may w id) (hs : List EntryId) :
    ∀ id ∈ ids, may { w with inHand := hs } id :=
  fun id hmem => h.stays (h.aside w hs) (hmay id hmem)

end Progress

structure Queried (env : Environment σ) (ready : World σ → Prop)
    (may : World σ → EntryId → Prop) (R : World σ → World σ → Prop) : Prop
    extends Progress ready may R where
  component {w : World σ} {id : EntryId} (hmay : may w id) :
    Ends (Lifecycle.component env id) w fun _ w' => R w w'
  title {w : World σ} {id : EntryId} (hmay : may w id) :
    Ends (Lifecycle.title env id) w fun _ w' => R w w'
  category {w : World σ} {id : EntryId} (hmay : may w id) :
    Ends (Lifecycle.category env id) w fun _ w' => R w w'

theorem Queried.congr {env : Environment σ} {ready : World σ → Prop}
    {may : World σ → EntryId → Prop} {R R' : World σ → World σ → Prop}
    (h : Queried env ready may R) (hiff : ∀ w w', R' w w' ↔ R w w') : Queried env ready may R' := by
  obtain rfl : R' = R := funext fun w => funext fun w' => propext (hiff w w')
  exact h

namespace Queried

variable {env : Environment σ} {ready : World σ → Prop} {may : World σ → EntryId → Prop}
variable {R : World σ → World σ → Prop} (h : Queried env ready may R) {w : World σ}
include h

theorem firstComponent {ids : List EntryId} (hmay : ∀ id ∈ ids, may w id) :
    Ends (firstComponent env ids) w fun _ w' => R w w' := by
  induction ids generalizing w with
  | nil => exact h.refl w
  | cons id rest ih =>
    unfold Registry.firstComponent
    rw [ends_bind]
    refine (h.component (hmay id List.mem_cons_self)).imp ?_
    rintro (_ | c) w₁ hfirst
    · refine (ih fun other hmem => ?_).imp fun _ _ hrest => h.trans hfirst hrest
      exact h.stays hfirst (hmay other (List.mem_cons_of_mem _ hmem))
    · exact hfirst

theorem lookup (hready : ready w) (label : String) :
    Ends (lookup env label) w fun _ w' => R w w' := by
  unfold Registry.lookup
  split
  · simp only [ends_bind, ends_get]
    exact h.holding _ (h.firstComponent (h.inHand (h.listed hready) _))
  · simp only [ends_bind, ends_get]
    split
    · exact h.refl w
    · rename_i id hlookup
      have hmem := mem_snapshot_of_lookup hlookup
      exact h.holding _ (h.component (h.inHand (h.listed hready) _ id hmem))

theorem lookupDefault (hready : ready w) :
    Ends (lookupDefault env) w fun _ w' => R w w' := by
  unfold Registry.lookupDefault
  simp only [ends_bind, ends_get]
  split
  · exact h.lookup hready ""
  rw [ends_bind]
  refine (h.lookup hready _).imp ?_
  rintro (_ | c) w₁ hfirst
  · exact (h.lookup (h.keeps hfirst hready) "").imp fun _ _ hagain => h.trans hfirst hagain
  · exact hfirst

theorem describeEntry {id : EntryId} (hmay : may w id) :
    Ends (describeEntry env id) w fun _ w' => R w w' := by
  unfold Registry.describeEntry
  rw [ends_bind]
  refine (h.title hmay).imp fun _ w₁ htitle => ?_
  rw [ends_bind]
  refine (h.category (h.stays htitle hmay)).imp fun _ w₂ hcategory => ?_
  exact h.trans htitle hcategory

theorem describeEntries {ids : List EntryId} (hmay : ∀ id ∈ ids, may w id) :
    Ends (ids.mapM (Registry.describeEntry env)) w fun _ w' => R w w' := by
  induction ids generalizing w with
  | nil => exact h.refl w
  | cons id rest ih =>
    rw [List.mapM_cons, ends_bind]
    refine (h.describeEntry (hmay id List.mem_cons_self)).imp fun _ w₁ hfirst => ?_
    rw [ends_bind]
    refine (ih fun other hmem => ?_).imp fun _ _ hrest => h.trans hfirst hrest
    exact h.stays hfirst (hmay other (List.mem_cons_of_mem _ hmem))

theorem describe (hready : ready w) :
    Ends (describe env) w fun _ w' => R w w' := by
  unfold Registry.describe
  simp only [ends_bind, ends_get]
  exact h.holding _ (h.describeEntries (h.inHand (h.listed hready) _))

/-! ## Navigation -/

section Navigation

variable {messages : Localizer (StateM σ)} (locale defaultCategory : String)
variable (hmessages : ∀ title origin w,
  R w (w.withOutside (localize messages title origin locale w.outside).2))
include hmessages

theorem fileEntry {id : EntryId} (hmay : may w id) (map : LabelMap) :
    Ends (fileEntry env messages locale defaultCategory id map) w fun _ w' => R w w' := by
  unfold Registry.fileEntry
  simp only [ends_bind, ends_get]
  split
  · exact h.refl w
  simp only [ends_bind]
  refine (h.title hmay).imp fun title w₁ htitle => ?_
  refine (h.category (h.stays htitle hmay)).imp fun found w₂ hcategory => ?_
  simp only [ends_get]
  split
  · exact h.trans htitle hcategory
  simp only [ends_bind, ends_outside, ends_pure]
  exact h.trans (h.trans htitle hcategory) (hmessages _ _ _)

theorem fileEntries {ids : List EntryId} (hmay : ∀ id ∈ ids, may w id) (map : LabelMap) :
    Ends (fileEntries env messages locale defaultCategory ids map) w fun _ w' => R w w' := by
  induction ids generalizing w map with
  | nil => exact h.refl w
  | cons id rest ih =>
    unfold Registry.fileEntries
    rw [ends_bind]
    have hhere := h.inHand hmay (id :: rest ++ w.inHand) id List.mem_cons_self
    refine (h.holding _ (h.fileEntry locale defaultCategory hmessages hhere map)).imp
      fun map' w₁ hfirst => ?_
    refine (ih (fun other hmem => ?_) map').imp fun _ _ hrest => h.trans hfirst hrest
    exact h.stays hfirst (hmay other (List.mem_cons_of_mem _ hmem))

theorem labelMap (hready : ready w) :
    Ends (labelMap env messages locale defaultCategory) w fun _ w' => R w w' := by
  unfold Registry.labelMap
  simp only [ends_bind, ends_get]
  exact h.fileEntries locale defaultCategory hmessages (h.listed hready) {}

end Navigation

end Queried

end PluginConsole.Registry
