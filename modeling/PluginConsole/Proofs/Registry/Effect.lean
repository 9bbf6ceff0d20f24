import PluginConsole.Proofs.Registry.Tidy

/-!
# What becomes of the table

The changes of the table as plain functions of the world, without the disposal of those who
lose their place.
-/

namespace PluginConsole.Registry

open Lifecycle

variable {σ : Type} {w w' : World σ} {id : EntryId} {service : Nat}

def joined (label : String) (source : Source) (w : World σ) : World σ :=
  { w.entered { label, source } with
    table := contested w.entries.length (w.entered { label, source }) }

def enlisted (r : Reference) (w : World σ) : World σ :=
  match r.label with
  | none => w
  | some label => joined label (.directory r) w

def enlistedAll : List Reference → World σ → World σ
  | [], w => w
  | r :: rest, w => enlistedAll rest (enlisted r w)

def dismissed (r : Reference) (w : World σ) : World σ :=
  match heldLabel w r with
  | none => w
  | some label => { w with table := Dict.erase label w.table }

def heeded (event : DirectoryEvent) (w : World σ) : World σ :=
  match event with
  | .registered r => enlisted r w
  | .unregistering r => dismissed r w
  | .modified _ => w

/-! ## Nothing else changes -/

/-- Only the store and the table differ. -/
structure TableOnly (w w' : World σ) : Prop where
  subscription : w'.subscription = w.subscription
  keepers : w'.keepers = w.keepers
  outside : w'.outside = w.outside

theorem TableOnly.refl (w : World σ) : TableOnly w w := ⟨rfl, rfl, rfl⟩

theorem TableOnly.isOpen (h : TableOnly w w') : isOpen w' = isOpen w := by
  unfold Registry.isOpen
  rw [h.subscription]

theorem tableOnly_enlisted (r : Reference) (w : World σ) : TableOnly w (enlisted r w) := by
  unfold enlisted
  split
  · exact .refl w
  · exact ⟨rfl, rfl, rfl⟩

theorem tableOnly_dismissed (r : Reference) (w : World σ) : TableOnly w (dismissed r w) := by
  unfold dismissed
  split
  · exact .refl w
  · exact ⟨rfl, rfl, rfl⟩

theorem tableOnly_heeded (event : DirectoryEvent) (w : World σ) :
    TableOnly w (heeded event w) := by
  cases event with
  | registered r => exact tableOnly_enlisted r w
  | modified r => exact .refl w
  | unregistering r => exact tableOnly_dismissed r w

theorem tableOnly_enlistedAll (references : List Reference) (w : World σ) :
    TableOnly w (enlistedAll references w) := by
  induction references generalizing w with
  | nil => exact .refl w
  | cons r rest ih =>
    have hfirst := tableOnly_enlisted r w
    have hrest := ih (enlisted r w)
    exact ⟨hrest.subscription.trans hfirst.subscription, hrest.keepers.trans hfirst.keepers,
      hrest.outside.trans hfirst.outside⟩

theorem heeded_keepers (event : DirectoryEvent) (keepers : Nat) (w : World σ) :
    heeded event { w with keepers } = { heeded event w with keepers } := by
  cases event with
  | registered r =>
    unfold heeded enlisted
    dsimp only
    split <;> rfl
  | modified r => rfl
  | unregistering r =>
    have hheld : heldLabel { w with keepers } r = heldLabel w r := rfl
    unfold heeded dismissed
    dsimp only
    rw [hheld]
    split <;> rfl

/-! ## Entries stay within the store -/

theorem ranged_joined (hranged : Ranged w) (label : String) (source : Source) :
    Ranged (joined label source w) := by
  intro id hmem
  have hlength : (joined label source w).entries.length = w.entries.length + 1 :=
    World.length_entered _ w
  rw [hlength]
  rcases mem_snapshot_contested hmem with rfl | hold
  · exact Nat.lt_succ_self _
  · exact Nat.lt_succ_of_lt (hranged id hold)

theorem ranged_enlisted (hranged : Ranged w) (r : Reference) : Ranged (enlisted r w) := by
  unfold enlisted
  split
  · exact hranged
  · exact ranged_joined hranged _ _

/-! ## Served services -/

/-- An entry in the table that belongs to a service. -/
def Serves (id : EntryId) (service : Nat) (w : World σ) : Prop :=
  id ∈ snapshot w ∧ (w.entry id).ownedBy service = true

def Single (w : World σ) : Prop :=
  ∀ a b service, Serves a service w → Serves b service w → a = b

theorem serves_joined (hranged : Ranged w) {label : String} {source : Source}
    (h : Serves id service (joined label source w)) :
    Serves id service w ∨
      (id = w.entries.length ∧ ({ label, source } : Entry).ownedBy service = true) := by
  obtain ⟨hmem, howned⟩ := h
  have howned : ((w.entered { label, source }).entry id).ownedBy service = true := howned
  rcases mem_snapshot_contested hmem with rfl | hold
  · rw [World.entry_entered_self] at howned
    exact Or.inr ⟨rfl, howned⟩
  · rw [World.entry_entered_of_lt (hranged id hold)] at howned
    exact Or.inl ⟨hold, howned⟩

theorem serves_enlisted (hranged : Ranged w) {r : Reference}
    (h : Serves id service (enlisted r w)) :
    Serves id service w ∨ (id = w.entries.length ∧ r.id = service) := by
  unfold enlisted at h
  split at h
  · exact Or.inl h
  · refine (serves_joined hranged h).imp_right fun ⟨hid, howned⟩ => ⟨hid, ?_⟩
    simpa [Entry.ownedBy, Entry.kind, Source.kind, Entry.sequenceId] using howned

theorem serves_direct (hranged : Ranged w) {label factory : String} {known : Bool}
    (h : Serves id service (joined label (.direct factory known) w)) : Serves id service w := by
  rcases serves_joined hranged h with hold | ⟨-, howned⟩
  · exact hold
  · simp [Entry.ownedBy, Entry.kind, Source.kind] at howned

theorem single_enlisted (hranged : Ranged w) (hsingle : Single w) {r : Reference}
    (hfresh : ∀ id, ¬ Serves id r.id w) : Single (enlisted r w) := by
  intro a b service ha hb
  rcases serves_enlisted hranged ha with ha | ⟨ha, hr⟩
  · rcases serves_enlisted hranged hb with hb | ⟨-, hr⟩
    · exact hsingle a b service ha hb
    · rw [← hr] at ha
      exact absurd ha (hfresh a)
  · rcases serves_enlisted hranged hb with hb | ⟨hb, -⟩
    · rw [← hr] at hb
      exact absurd hb (hfresh b)
    · rw [ha, hb]

theorem serves_enlistedAll {references : List Reference} (hranged : Ranged w) (hsingle : Single w)
    (hnodup : (references.map (·.id)).Nodup)
    (hfresh : ∀ r ∈ references, ∀ id, ¬ Serves id r.id w) :
    Single (enlistedAll references w) ∧
      ∀ id service, Serves id service (enlistedAll references w) →
        Serves id service w ∨ ∃ r ∈ references, r.id = service := by
  induction references generalizing w with
  | nil => exact ⟨hsingle, fun _ _ h => Or.inl h⟩
  | cons r rest ih =>
    have hr := hfresh r List.mem_cons_self
    rw [List.map_cons, List.nodup_cons] at hnodup
    have hrest : ∀ other ∈ rest, ∀ id, ¬ Serves id other.id (enlisted r w) := by
      intro other hother id hserves
      rcases serves_enlisted hranged hserves with hold | ⟨-, heq⟩
      · exact hfresh other (List.mem_cons_of_mem _ hother) id hold
      · exact hnodup.1 (heq ▸ List.mem_map_of_mem hother)
    obtain ⟨hsingle', hserves⟩ := ih (ranged_enlisted hranged r)
      (single_enlisted hranged hsingle hr) hnodup.2 hrest
    refine ⟨hsingle', fun id service h => ?_⟩
    rcases hserves id service h with hfirst | ⟨other, hother, heq⟩
    · rcases serves_enlisted hranged hfirst with hold | ⟨-, heq⟩
      · exact Or.inl hold
      · exact Or.inr ⟨r, List.mem_cons_self, heq⟩
    · exact Or.inr ⟨other, List.mem_cons_of_mem _ hother, heq⟩

theorem serves_erased {label : String}
    (h : Serves id service { w with table := Dict.erase label w.table }) :
    Serves id service w := by
  obtain ⟨hmem, howned⟩ := h
  obtain ⟨other, hentry⟩ := mem_snapshot.mp hmem
  exact ⟨mem_snapshot.mpr ⟨other, (Dict.mem_erase.mp hentry).2⟩, howned⟩

theorem entry_of_heldLabel {r : Reference} {label : String} (h : heldLabel w r = some label) :
    ∃ id, (label, id) ∈ w.table ∧ (w.entry id).ownedBy r.id = true := by
  unfold heldLabel at h
  rcases Option.or_eq_some_iff.mp h with hannounced | ⟨-, hfound⟩
  · obtain ⟨hlabel, hany⟩ := Option.filter_eq_some_iff.mp hannounced
    cases hlookup : w.table.lookup label with
    | none =>
      rw [hlookup] at hany
      cases hany
    | some id =>
      rw [hlookup] at hany
      exact ⟨id, Dict.mem_of_lookup hlookup, hany⟩
  · obtain ⟨⟨other, id⟩, hfind, rfl⟩ := Option.map_eq_some_iff.mp hfound
    have howned := List.find?_some hfind
    exact ⟨id, List.mem_of_find?_eq_some hfind, howned⟩

theorem not_serves_of_heldLabel {r : Reference} (h : heldLabel w r = none) (id : EntryId) :
    ¬ Serves id r.id w := by
  rintro ⟨hmem, howned⟩
  obtain ⟨label, hentry⟩ := mem_snapshot.mp hmem
  unfold heldLabel at h
  obtain ⟨-, hnone⟩ := Option.or_eq_none_iff.mp h
  rw [Option.map_eq_none_iff, List.find?_eq_none] at hnone
  exact hnone (label, id) hentry howned

theorem serves_dismissed (hfiled : Filed w) (hsingle : Single w) {r : Reference}
    (h : Serves id service (dismissed r w)) : Serves id service w ∧ service ≠ r.id := by
  unfold dismissed at h
  cases hheld : heldLabel w r with
  | none =>
    rw [hheld] at h
    refine ⟨h, ?_⟩
    rintro rfl
    exact not_serves_of_heldLabel hheld id h
  | some label =>
    rw [hheld] at h
    have hbefore := serves_erased h
    refine ⟨hbefore, ?_⟩
    rintro rfl
    obtain ⟨holder, hholder, howned⟩ := entry_of_heldLabel hheld
    have hsame := hsingle id holder r.id hbefore ⟨mem_snapshot.mpr ⟨label, hholder⟩, howned⟩
    -- The one entry of the service has one label, and that was erased.
    obtain ⟨other, hentry⟩ := mem_snapshot.mp h.1
    obtain ⟨hne, hentry⟩ := Dict.mem_erase.mp hentry
    rw [hsame] at hentry
    rw [← (hfiled.filed other holder hentry).2, (hfiled.filed label holder hholder).2] at hne
    exact hne rfl

end PluginConsole.Registry
