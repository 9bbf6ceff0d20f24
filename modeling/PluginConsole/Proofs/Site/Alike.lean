import PluginConsole.Proofs.Registry.Effect
import PluginConsole.Proofs.Site.Action

/-!
# The table after an action

Components come and go without an effect on who holds which label. `Alike` worlds agree in
all that the table depends on, and up to that every action is a plain function of the table.
-/

open Relation (ReflTransGen)

namespace PluginConsole.Site

open Act Registry Lifecycle

variable {π : Type} {code : PluginCode (Site π)} {w w' w'' : World (Site π)}

structure Alike (w w' : World (Site π)) : Prop where
  table : w'.table = w.table
  subscription : w'.subscription = w.subscription
  keepers : w'.keepers = w.keepers
  length : w'.entries.length = w.entries.length
  label : ∀ id, (w'.entry id).label = (w.entry id).label
  source : ∀ id, (w'.entry id).source = (w.entry id).source
  shape : Directory.SameShape w.outside.directory w'.outside.directory

namespace Alike

theorem refl (w : World (Site π)) : Alike w w :=
  ⟨rfl, rfl, rfl, rfl, fun _ => rfl, fun _ => rfl, .refl _⟩

theorem trans (h : Alike w w') (h' : Alike w' w'') : Alike w w'' where
  table := h'.table.trans h.table
  subscription := h'.subscription.trans h.subscription
  keepers := h'.keepers.trans h.keepers
  length := h'.length.trans h.length
  label id := (h'.label id).trans (h.label id)
  source id := (h'.source id).trans (h.source id)
  shape := h.shape.trans h'.shape

theorem symm (h : Alike w w') : Alike w' w where
  table := h.table.symm
  subscription := h.subscription.symm
  keepers := h.keepers.symm
  length := h.length.symm
  label id := (h.label id).symm
  source id := (h.source id).symm
  shape := ⟨h.shape.references.symm, h.shape.subscriptions.symm, h.shape.lastService.symm⟩

theorem snapshot (h : Alike w w') : Registry.snapshot w' = Registry.snapshot w := by
  unfold Registry.snapshot
  rw [h.table]

theorem rank (h : Alike w w') (id : EntryId) : (w'.entry id).rank = (w.entry id).rank := by
  unfold Entry.rank
  rw [h.source]

theorem sequenceId (h : Alike w w') (id : EntryId) :
    (w'.entry id).sequenceId = (w.entry id).sequenceId := by
  unfold Entry.sequenceId
  rw [h.source]

theorem ownedBy (h : Alike w w') (id : EntryId) (service : Nat) :
    (w'.entry id).ownedBy service = (w.entry id).ownedBy service := by
  unfold Entry.ownedBy Entry.kind
  rw [h.sequenceId, h.source]

theorem wins (h : Alike w w') (id : EntryId) : Registry.wins id w' = Registry.wins id w := by
  unfold Registry.wins
  rw [h.table, h.label]
  split
  · rfl
  · unfold Entry.compareRank
    rw [h.rank, h.rank, h.sequenceId, h.sequenceId]

theorem contested (h : Alike w w') (id : EntryId) :
    Registry.contested id w' = Registry.contested id w := by
  unfold Registry.contested
  rw [h.wins, h.table, h.label]

theorem entered (h : Alike w w') (e : Entry) : Alike (w.entered e) (w'.entered e) where
  table := h.table
  subscription := h.subscription
  keepers := h.keepers
  length := by rw [World.length_entered, World.length_entered, h.length]
  label id := by
    rw [World.entry_entered, World.entry_entered, h.length]
    split
    · rfl
    · exact h.label id
  source id := by
    rw [World.entry_entered, World.entry_entered, h.length]
    split
    · rfl
    · exact h.source id
  shape := h.shape

theorem withTable (h : Alike w w') (table : Dict EntryId) :
    Alike { w with table } { w' with table } :=
  ⟨rfl, h.subscription, h.keepers, h.length, h.label, h.source, h.shape⟩

theorem joined (h : Alike w w') (label : String) (source : Source) :
    Alike (Registry.joined label source w) (Registry.joined label source w') := by
  have hentered := h.entered { label, source }
  unfold Registry.joined
  rw [h.length, hentered.contested]
  exact hentered.withTable _

theorem enlisted (h : Alike w w') (r : Reference) :
    Alike (Registry.enlisted r w) (Registry.enlisted r w') := by
  unfold Registry.enlisted
  split
  · exact h
  · exact h.joined _ _

theorem enlistedAll (h : Alike w w') (references : List Reference) :
    Alike (Registry.enlistedAll references w) (Registry.enlistedAll references w') := by
  induction references generalizing w w' with
  | nil => exact h
  | cons r rest ih => exact ih (h.enlisted r)

theorem heldLabel (h : Alike w w') (r : Reference) :
    Registry.heldLabel w' r = Registry.heldLabel w r := by
  unfold Registry.heldLabel
  simp only [h.table, h.ownedBy]

theorem dismissed (h : Alike w w') (r : Reference) :
    Alike (Registry.dismissed r w) (Registry.dismissed r w') := by
  unfold Registry.dismissed
  rw [h.heldLabel, h.table]
  split
  · exact h
  · exact h.withTable _

theorem heeded (h : Alike w w') (event : DirectoryEvent) :
    Alike (Registry.heeded event w) (Registry.heeded event w') := by
  cases event with
  | registered r => exact h.enlisted r
  | modified r => exact h
  | unregistering r => exact h.dismissed r

end Alike

/-! ## Moves make no difference -/

theorem alike_settings (w : World (Site π)) (defaultLabel : Option String)
    (context : Option ContextRef) (serial : Nat) (log : List Notice) :
    Alike w { w with defaultLabel, context, serial, log } :=
  ⟨rfl, rfl, rfl, rfl, fun _ => rfl, fun _ => rfl, .refl _⟩

theorem alike_outside {s : Site π} (h : Directory.SameShape w.outside.directory s.directory) :
    Alike w (w.withOutside s) :=
  ⟨rfl, rfl, rfl, rfl, fun _ => rfl, fun _ => rfl, h⟩

theorem shape_getService {r : Reference} {s s' : Site π} {object : Option ServiceObject}
    (h : (environment code).directory.getService r s = (object, s')) :
    Directory.SameShape s.directory s'.directory := by
  have hget : ((environment code).directory.getService r s).2.directory =
      (s.directory.getService r.id).2 := rfl
  rw [h] at hget
  rw [hget]
  exact Directory.sameShape_getService r.id s.directory

theorem shape_released {id : EntryId} {c : Component} (h : Released (environment code) id c w w') :
    Directory.SameShape w.outside.directory w'.outside.directory := by
  cases h with
  | @directory r => exact Directory.sameShape_releaseService r.id w.outside.directory
  | direct | deactivated => exact .refl _

theorem shape_move {id : EntryId} (h : Move (environment code) Site.directory id w w') :
    Directory.SameShape w.outside.directory w'.outside.directory := by
  cases h with
  | idle h =>
    rw [h.view_eq]
    exact .refl _
  | create | activate | title | category | destroy => exact .refl _
  | miss _ hget => exact shape_getService hget
  | @refuse r s _ _ hget =>
    exact (shape_getService hget).trans (Directory.sameShape_releaseService r.id s.directory)
  | acquire _ _ h =>
    cases h with
    | plugin _ hget | handler _ hget => exact shape_getService hget
    | made | activated => exact .refl _
  | @init w₁ x ref config _ _ _ hname =>
    have hsame := Naming.view_eq hname
    show Directory.SameShape w.outside.directory w₁.outside.directory
    rw [hsame]
    exact .refl _
  | part h =>
    cases h with
    | cold => exact .refl _
    | unbound _ h =>
      have hreleased := shape_released h
      exact hreleased
    | bound _ hidle h =>
      have hreleased := shape_released h
      rw [Idles.view_eq hidle] at hreleased
      exact hreleased

theorem alike_visit {ids : List EntryId}
    (h : Visit (environment code) Site.directory ids w w') : Alike w w' := by
  cases h with
  | @move _ id _ _ h =>
    have hframe := h.frame
    refine ⟨hframe.table, hframe.subscription, hframe.keepers, hframe.length,
      fun other => ?_, fun other => ?_, shape_move h⟩
    all_goals by_cases ho : other = id
    · rw [ho]
      exact hframe.label
    · rw [hframe.others other ho]
    · rw [ho]
      exact hframe.source
    · rw [hframe.others other ho]
  | call h =>
    refine alike_outside ?_
    rw [h]
    exact .refl _
  | aside => exact ⟨rfl, rfl, rfl, rfl, fun _ => rfl, fun _ => rfl, .refl _⟩

theorem alike_visits {ids : List EntryId}
    (h : Visits (environment code) Site.directory ids w w') : Alike w w' := by
  induction h with
  | refl => exact .refl w
  | tail _ hstep ih => exact ih.trans (alike_visit hstep)

/-! ## Transactions of the table -/

theorem alike_joins {label : String} {source : Source}
    (h : Joins (environment code) Site.directory label source w w') :
    Alike (joined label source w) w' :=
  alike_visits h.visits

theorem alike_enlists {r : Reference} (h : Enlists (environment code) Site.directory r w w') :
    Alike (enlisted r w) w' := by
  unfold Enlists at h
  unfold enlisted
  cases hlabel : r.label with
  | none =>
    rw [hlabel] at h
    rw [show w' = w from h]
    exact .refl w
  | some label =>
    rw [hlabel] at h
    exact alike_joins h

theorem alike_dismisses {r : Reference}
    (h : Dismisses (environment code) Site.directory r w w') : Alike (dismissed r w) w' := by
  unfold Dismisses at h
  unfold dismissed
  cases hheld : heldLabel w r with
  | none =>
    rw [hheld] at h
    rw [show w' = w from h]
    exact .refl w
  | some label =>
    rw [hheld] at h
    exact alike_visits h.visits

theorem alike_heeds {event : DirectoryEvent}
    (h : Heeds (environment code) Site.directory event w w') : Alike (heeded event w) w' := by
  cases event with
  | registered r => exact alike_enlists h
  | modified r =>
    rw [show w' = w from h]
    exact .refl w
  | unregistering r => exact alike_dismisses h

theorem alike_enlistsAll {references : List Reference}
    (h : EnlistsAll (environment code) Site.directory references w w') :
    Alike (enlistedAll references w) w' := by
  induction h with
  | nil w => exact .refl w
  | cons hfirst _ ih => exact ((alike_enlists hfirst).enlistedAll _).trans ih

/-! ## News -/

section News

variable (hcode : code.Spares Site.directory)
include hcode

theorem directoryChanged_alike (hranged : Ranged w) (hkept : 0 < w.keepers)
    (event : DirectoryEvent) :
    Ends (directoryChanged (environment code) event) w fun _ w' =>
      Alike (heeded event w) w' := by
  refine (directoryChanged_spec hcode hranged hkept event).imp fun _ w' h => ?_
  obtain ⟨w₁, hheeds, rfl⟩ := h
  have halike := alike_heeds hheeds
  rw [heeded_keepers] at halike
  exact ⟨halike.table, halike.subscription, (tableOnly_heeded event w).keepers.symm, halike.length,
    halike.label, halike.source, halike.shape⟩

theorem deliver_alike (hranged : Ranged w) (hkept : 0 < w.keepers) (event : DirectoryEvent)
    (listener : Listener) :
    Ends (deliver (environment code) event listener) w fun _ w' =>
      Alike (if listener = .registry then heeded event w else w) w' := by
  cases listener with
  | registry =>
    rw [if_pos rfl]
    exact directoryChanged_alike hcode hranged hkept event
  | observer name =>
    rw [if_neg (by simp)]
    refine (hcode.observe name event).ends fun _ s hs => alike_outside ?_
    rw [hs]
    exact .refl _

theorem forM_deliver_alike (htidy : Tidy w) (hkept : 0 < w.keepers) (event : DirectoryEvent)
    {listeners : List Listener} (honce : listeners.count .registry ≤ 1) :
    Ends (listeners.forM (deliver (environment code) event)) w fun _ w' =>
      Alike (if .registry ∈ listeners then heeded event w else w) w' := by
  induction listeners generalizing w with
  | nil => exact .refl w
  | cons listener rest ih =>
    show Ends (deliver (environment code) event listener >>= fun _ =>
      rest.forM (deliver (environment code) event)) w _
    rw [ends_bind]
    have hboth := (deliver_changes hcode htidy event listener).and
      (deliver_alike hcode htidy.ranged hkept event listener)
    refine hboth.imp fun _ w₁ ⟨hchanges, hfirst⟩ => ?_
    have htidy₁ := hchanges.tidy htidy
    have hkept₁ : 0 < w₁.keepers := by
      rw [hfirst.keepers]
      split
      · rw [(tableOnly_heeded event w).keepers]
        exact hkept
      · exact hkept
    cases listener with
    | registry =>
      rw [List.count_cons_self] at honce
      have hnone : rest.count .registry = 0 := by omega
      rw [if_pos rfl] at hfirst
      rw [if_pos List.mem_cons_self]
      refine (ih htidy₁ hkept₁ (by omega)).imp fun _ w₂ hrest => ?_
      rw [if_neg (List.count_eq_zero.mp hnone)] at hrest
      exact hfirst.trans hrest
    | observer name =>
      rw [if_neg (by simp)] at hfirst
      have hcount : rest.count .registry ≤ 1 := by
        rw [List.count_cons_of_ne (by simp)] at honce
        exact honce
      refine (ih htidy₁ hkept₁ hcount).imp fun _ w₂ hrest => ?_
      by_cases hmem : Listener.registry ∈ rest
      · rw [if_pos hmem] at hrest
        rw [if_pos (List.mem_cons_of_mem _ hmem)]
        exact (hfirst.heeded event).trans hrest
      · rw [if_neg hmem] at hrest
        rw [if_neg (by simpa using hmem)]
        exact hfirst.trans hrest

end News

end PluginConsole.Site
