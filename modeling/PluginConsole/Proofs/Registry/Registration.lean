import PluginConsole.Proofs.Registry.Visit

/-!
# Registering and removing

What each function that changes the table does to it. The table is changed first; then the
entries that lost their place are disposed.
-/

open Relation (ReflTransGen)

namespace PluginConsole

variable {σ δ : Type}

namespace World

def entered (e : Entry) (w : World σ) : World σ :=
  { w with entries := w.entries ++ [e] }

theorem entry_entered_self (e : Entry) (w : World σ) :
    (w.entered e).entry w.entries.length = e := by
  simp [entered, entry, List.getD_eq_getElem?_getD]

theorem entry_entered_of_lt {id : EntryId} {w : World σ} (h : id < w.entries.length) (e : Entry) :
    (w.entered e).entry id = w.entry id := by
  simp [entered, entry, List.getD_eq_getElem?_getD, List.getElem?_append_left h]

theorem entry_entered (e : Entry) (id : EntryId) (w : World σ) :
    (w.entered e).entry id = if id = w.entries.length then e else w.entry id := by
  rcases Nat.lt_trichotomy id w.entries.length with hid | hid | hid
  · rw [entry_entered_of_lt hid, if_neg (Nat.ne_of_lt hid)]
  · rw [hid, entry_entered_self, if_pos rfl]
  · have hout : (w.entered e).entries.length ≤ id := by
      rw [entered, List.length_append]
      exact hid
    rw [if_neg (Nat.ne_of_gt hid), entry_of_le hout, entry_of_le (Nat.le_of_lt hid)]

@[simp] theorem length_entered (e : Entry) (w : World σ) :
    (w.entered e).entries.length = w.entries.length + 1 := by
  simp [entered]

theorem texts_entered (label : String) (source : Source) (id : EntryId) (w : World σ) :
    ((w.entered { label, source }).entry id).title = (w.entry id).title ∧
      ((w.entered { label, source }).entry id).category = (w.entry id).category := by
  rw [entry_entered]
  split
  · rename_i h
    rw [entry_of_le h.ge]
    exact ⟨rfl, rfl⟩
  · exact ⟨rfl, rfl⟩

end World

namespace Registry

open Act Lifecycle

variable {env : Environment σ} {view : σ → δ} {w w' w'' : World σ}

/-! ## Two entries for one label -/

def wins (id : EntryId) (w : World σ) : Bool :=
  match w.table.lookup (w.entry id).label with
  | none => true
  | some holder => (w.entry id).compareRank (w.entry holder) = .gt

/-- The table after an entry asked for its label. -/
def contested (id : EntryId) (w : World σ) : Dict EntryId :=
  if wins id w then Dict.insert (w.entry id).label id w.table else w.table

/-- Who has to go: the holder of the label, or the newcomer. -/
def loser (id : EntryId) (w : World σ) : Option EntryId :=
  (w.table.lookup (w.entry id).label).map fun holder => if wins id w then holder else id

structure Contest (env : Environment σ) (view : σ → δ) (id : EntryId) (w w' : World σ) : Prop where
  visits : Visits env view (loser id w).toList { w with table := contested id w } w'
  ended : ∀ other, loser id w = some other → Over other w'

/-- A new entry asks for a label. -/
def Joins (env : Environment σ) (view : σ → δ) (label : String) (source : Source)
    (w w' : World σ) : Prop :=
  Contest env view w.entries.length (w.entered { label, source }) w'

structure Leaves (env : Environment σ) (view : σ → δ) (label : String) (w w' : World σ) :
    Prop where
  visits : Visits env view (w.table.lookup label).toList
    { w with table := Dict.erase label w.table } w'
  ended : ∀ id, w.table.lookup label = some id → Over id w'

def Enlists (env : Environment σ) (view : σ → δ) (r : Reference) (w w' : World σ) : Prop :=
  match r.label with
  | none => w' = w
  | some label => Joins env view label (.directory r) w w'

/-- A service has to go, with the label that it holds. -/
def Dismisses (env : Environment σ) (view : σ → δ) (r : Reference) (w w' : World σ) : Prop :=
  match heldLabel w r with
  | none => w' = w
  | some label => Leaves env view label w w'

def Heeds (env : Environment σ) (view : σ → δ) (event : DirectoryEvent) (w w' : World σ) : Prop :=
  match event with
  | .registered r => Enlists env view r w w'
  | .unregistering r => Dismisses env view r w w'
  | .modified _ => w' = w

inductive EnlistsAll (env : Environment σ) (view : σ → δ) :
    List Reference → World σ → World σ → Prop where
  | nil (w : World σ) : EnlistsAll env view [] w w
  | cons {r : Reference} {rest : List Reference} {w w' w'' : World σ}
    (h : Enlists env view r w w') (hrest : EnlistsAll env view rest w' w'') :
    EnlistsAll env view (r :: rest) w w''

def cancelled (env : Environment σ) (w : World σ) : World σ :=
  { w with
    subscription := none
    outside := match w.subscription with
      | some s => (env.directory.unsubscribe s w.outside).2
      | none => w.outside }

structure Closes (env : Environment σ) (view : σ → δ) (w w' w'' : World σ) : Prop where
  visits : Visits env view (snapshot w) { cancelled env w with table := [] } w'
  ended : ∀ id ∈ snapshot w, Over id w'
  last : ∃ log, w'' = { w' with defaultLabel := none, log }

/-- The ways in which opening may end. -/
inductive Opens (env : Environment σ) (view : σ → δ) :
    World σ → Except Fault Unit → World σ → Prop where
  | already {w : World σ} (hopen : isOpen w = true) : Opens env view w (.ok ()) w
  | refused {w : World σ} {f : Fault} {o : σ} (hclosed : isOpen w = false)
    (hsubscribe : env.directory.subscribe (capabilityFilter consoleCapability) w.outside
      = (.error f, o)) :
    Opens env view w (.error (subscriptionFault (capabilityFilter consoleCapability) f))
      (w.withOutside o)
  | undone {w : World σ} {f : Fault} {s : Nat} {o o' : σ} (hclosed : isOpen w = false)
    (hsubscribe : env.directory.subscribe (capabilityFilter consoleCapability) w.outside
      = (.ok s, o))
    (hreferences : env.directory.references (capabilityFilter consoleCapability) o
      = (.error f, o')) :
    Opens env view w (.error (subscriptionFault (capabilityFilter consoleCapability) f))
      (cancelled env { w with subscription := some s, outside := o' })
  | opened {w w' w'' : World σ} {s : Nat} {o o' : σ} {references : List Reference}
    (hclosed : isOpen w = false)
    (hsubscribe : env.directory.subscribe (capabilityFilter consoleCapability) w.outside
      = (.ok s, o))
    (hreferences : env.directory.references (capabilityFilter consoleCapability) o
      = (.ok references, o'))
    (h : EnlistsAll env view references { w with subscription := some s, outside := o' } w')
    (hlast : ∃ log, w'' = { w' with log }) :
    Opens env view w (.ok ()) w''

/-! ## What is left alone -/

structure SameSettings (w w' : World σ) : Prop where
  defaultLabel : w'.defaultLabel = w.defaultLabel
  subscription : w'.subscription = w.subscription
  context : w'.context = w.context
  keepers : w'.keepers = w.keepers

theorem SameSettings.refl (w : World σ) : SameSettings w w := ⟨rfl, rfl, rfl, rfl⟩

theorem Visits.settings {ids : List EntryId} (h : Visits env view ids w w') :
    SameSettings w w' :=
  ⟨h.kept.defaultLabel, h.kept.subscription, h.kept.context, h.kept.keepers⟩

theorem Joins.settings {label : String} {source : Source} (h : Joins env view label source w w') :
    SameSettings w w' :=
  ⟨h.visits.settings.defaultLabel, h.visits.settings.subscription,
    h.visits.settings.context, h.visits.settings.keepers⟩

theorem Leaves.settings {label : String} (h : Leaves env view label w w') : SameSettings w w' :=
  ⟨h.visits.settings.defaultLabel, h.visits.settings.subscription,
    h.visits.settings.context, h.visits.settings.keepers⟩

theorem Enlists.settings {r : Reference} (h : Enlists env view r w w') : SameSettings w w' := by
  unfold Enlists at h
  split at h
  · rw [h]
    exact .refl w
  · exact h.settings

theorem Heeds.settings {event : DirectoryEvent} (h : Heeds env view event w w') :
    SameSettings w w' := by
  cases event with
  | registered r => exact Enlists.settings h
  | modified r =>
    cases h
    exact .refl w
  | unregistering r =>
    unfold Heeds Dismisses at h
    dsimp only at h
    split at h
    · rw [h]
      exact .refl w
    · exact h.settings

/-! ## The store only grows -/

theorem Ranged.lookup (h : Ranged w) {label : String} {id : EntryId}
    (hlookup : w.table.lookup label = some id) : id < w.entries.length :=
  h id (mem_snapshot_of_lookup hlookup)

theorem mem_snapshot_contested {id other : EntryId}
    (h : other ∈ (contested id w).map Prod.snd) : other = id ∨ other ∈ snapshot w := by
  unfold contested at h
  split at h
  · obtain ⟨entry, hmem, rfl⟩ := List.mem_map.mp h
    rcases Dict.mem_of_mem_insert hmem with rfl | hmem
    · exact Or.inl rfl
    · exact Or.inr (List.mem_map_of_mem hmem)
  · exact Or.inr h

theorem Contest.ranged {id : EntryId} (h : Contest env view id w w')
    (hid : id < w.entries.length) (hranged : Ranged w) : Ranged w' := by
  have hkept := h.visits.kept
  unfold Ranged snapshot
  rw [hkept.table, hkept.length]
  intro other hmem
  rcases mem_snapshot_contested hmem with rfl | hmem
  · exact hid
  · exact hranged other hmem

theorem ranged_entered (h : Ranged w) (e : Entry) : Ranged (w.entered e) := by
  intro id hmem
  rw [World.length_entered]
  exact Nat.lt_succ_of_lt (h id hmem)

theorem grown_entered (w : World σ) (e : Entry) : Grown w (w.entered e) where
  length := by
    rw [World.length_entered]
    exact Nat.le_succ _
  label id hid := by rw [World.entry_entered_of_lt hid]
  source id hid := by rw [World.entry_entered_of_lt hid]
  ended id hid hover := by
    have hsame := World.entry_entered_of_lt hid e
    exact ⟨⟨by rw [hsame]; exact hover.disposed, by rw [hsame]; exact hover.cold⟩, rfl⟩

theorem Joins.ranged {label : String} {source : Source} (h : Joins env view label source w w')
    (hranged : Ranged w) : Ranged w' := by
  refine Contest.ranged h ?_ (ranged_entered hranged _)
  rw [World.length_entered]
  exact Nat.lt_succ_self _

theorem Enlists.ranged {r : Reference} (h : Enlists env view r w w') (hranged : Ranged w) :
    Ranged w' := by
  unfold Enlists at h
  split at h
  · rw [h]
    exact hranged
  · exact h.ranged hranged

section Specs

variable (hcode : env.code.Spares view)
include hcode

/-! ## Registration -/

theorem dispose_holding {id : EntryId} {ids : List EntryId} (hs : List EntryId) (hmem : id ∈ ids)
    (hid : id < w.entries.length) :
    Ends (holding hs (dispose env id)) w fun _ w' => Visits env view ids w w' ∧ Over id w' := by
  rw [ends_holding]
  have hid' : id < { w with inHand := hs ++ w.inHand }.entries.length := hid
  refine (dispose_moves hcode hid').imp fun _ w' h => ?_
  obtain ⟨hmoves, hover⟩ := h
  have hvisits := Visits.ofMoves hmem hid' hmoves
  have hopen : Visit env view ids w { w with inHand := hs ++ w.inHand } :=
    .aside w w.log w.serial _
  exact ⟨(ReflTransGen.head hopen hvisits).tail (.aside w' w'.log w'.serial _),
    hover.disposed, hover.cold⟩

theorem retire_spec {id : EntryId} (hid : id < w.entries.length) :
    Ends (retire env id) w fun _ w' => Visits env view [id] w w' ∧ Over id w' :=
  dispose_holding hcode [id] (List.mem_singleton_self id) hid

theorem register_spec {id : EntryId} (hid : id < w.entries.length) (hranged : Ranged w) :
    Ends (register env id) w fun _ w' => Contest env view id w w' := by
  unfold register
  simp only [ends_bind, ends_get]
  split
  · rename_i hfree
    have hwins : wins id w = true := by simp [wins, hfree]
    rw [ends_modify]
    refine ⟨?_, by simp [loser, hfree]⟩
    simp only [loser, hfree, contested, hwins, if_true]
    exact .refl
  rename_i holder hheld
  split
  · rename_i hrank
    have hwins : wins id w = false := by simp [wins, hheld, hrank]
    refine Ends.imp (retire_spec hcode hid) fun _ w' h => ⟨?_, ?_⟩
    · simpa [loser, hheld, contested, hwins] using h.1
    · simpa [loser, hheld, hwins] using h.2
  · rename_i hrank
    have hwins : wins id w = true := by simp [wins, hheld, hrank]
    simp only [ends_bind, ends_note, ends_modify]
    have hholder : holder < w.entries.length := hranged.lookup hheld
    refine Ends.imp (retire_spec hcode hholder) fun _ w' h => ⟨?_, ?_⟩
    · simp only [loser, hheld, contested, hwins, if_true]
      exact ReflTransGen.head (.aside _ _ _ _) h.1
    · simpa [loser, hheld, hwins] using h.2
  · rename_i hrank
    have hwins : wins id w = false := by simp [wins, hheld, hrank]
    simp only [ends_bind, ends_note]
    refine Ends.imp (retire_spec hcode hid) fun _ w' h => ⟨?_, ?_⟩
    · simp only [loser, hheld, contested, hwins]
      exact ReflTransGen.head (.aside _ _ _ _) h.1
    · simpa [loser, hheld, hwins] using h.2

theorem register_entered_spec (hranged : Ranged w) (label : String) (source : Source) :
    Ends (register env w.entries.length) (w.entered { label, source }) fun _ w' =>
      Joins env view label source w w' := by
  refine register_spec hcode ?_ (ranged_entered hranged _)
  rw [World.length_entered]
  exact Nat.lt_succ_self _

theorem addService_spec (hranged : Ranged w) (r : Reference) :
    Ends (addService env r) w fun _ w' => Enlists env view r w w' := by
  unfold addService serviceEntry Enlists
  cases r.label with
  | none => exact rfl
  | some label => exact register_entered_spec hcode hranged label (.directory r)

theorem addDirect_spec (hranged : Ranged w) (factory label : String) :
    Ends (addDirect env factory label) w fun _ w' => ∃ log,
      Joins env view label (.direct factory (env.code.hasFactory factory)) { w with log } w' := by
  unfold addDirect directEntry
  simp only [ends_bind]
  split
  · simp only [ends_note, ends_bind, ends_newEntry]
    have hranged' : Ranged { w with log := w.log ++ [.factoryMissing factory] } := hranged
    exact (register_entered_spec hcode hranged' _ _).imp fun _ _ h => ⟨_, h⟩
  · simp only [ends_newEntry]
    exact (register_entered_spec hcode hranged _ _).imp fun _ _ h => ⟨w.log, h⟩

/-! ## Removal -/

theorem unregister_spec (hranged : Ranged w) (label : String) :
    Ends (unregister env label) w fun _ w' => Leaves env view label w w' := by
  unfold unregister
  simp only [ends_bind, ends_get]
  split
  · rename_i hfree
    refine ⟨?_, by simp [hfree]⟩
    rw [hfree, Dict.erase_of_lookup_eq_none hfree]
    exact .refl
  · rename_i id hheld
    simp only [ends_bind, ends_modify]
    have hid : id < w.entries.length := hranged.lookup hheld
    refine Ends.imp (retire_spec hcode hid) fun _ w' h => ⟨?_, ?_⟩
    · rw [hheld]
      exact h.1
    · rw [hheld]
      rintro _ ⟨⟩
      exact h.2

theorem removeService_spec (hranged : Ranged w) (r : Reference) :
    Ends (removeService env r) w fun _ w' => Dismisses env view r w w' := by
  unfold removeService Dismisses
  simp only [ends_bind, ends_get]
  cases heldLabel w r with
  | none => exact rfl
  | some label => exact unregister_spec hcode hranged label

/-! ## Opening and closing -/

omit hcode in
theorem cancel_spec (w : World σ) :
    Ends (cancel env) w fun _ w' => w' = cancelled env w := by
  unfold cancel takeSubscription cancelled
  simp only [ends_bind, ends_get, ends_modify, ends_pure]
  cases w.subscription <;> exact rfl

theorem retireAll_spec {ids rest : List EntryId} (hmem : ∀ id ∈ rest, id ∈ ids)
    (hid : ∀ id ∈ rest, id < w.entries.length) :
    Ends (retireAll env rest) w fun _ w' =>
      Visits env view ids w w' ∧ ∀ id ∈ rest, Over id w' := by
  induction rest generalizing w with
  | nil => exact ⟨.refl, by simp⟩
  | cons id rest ih =>
    have hhere := hid id List.mem_cons_self
    have hfirst : Ends (holding (id :: rest) (dispose env id)) w fun _ w' =>
        Visits env view ids w w' ∧ Over id w' :=
      dispose_holding hcode (id :: rest) (hmem id List.mem_cons_self) hhere
    unfold retireAll
    rw [ends_bind]
    refine hfirst.imp fun _ w₁ h => ?_
    obtain ⟨hvisits, hover⟩ := h
    have hlength := hvisits.kept.length
    refine (ih (fun other h => hmem other (List.mem_cons_of_mem _ h)) fun other h => ?_).imp
      fun _ w₂ h => ⟨hvisits.trans h.1, fun other hother => ?_⟩
    · rw [hlength]
      exact hid other (List.mem_cons_of_mem _ h)
    · rcases List.mem_cons.mp hother with rfl | hother
      · exact (h.1.grown.ended other (hlength ▸ hhere) hover).1
      · exact h.2 other hother

theorem closeRegistry_spec (hranged : Ranged w) :
    Ends (closeRegistry env) w fun _ w'' => ∃ w', Closes env view w w' w'' := by
  unfold closeRegistry
  rw [ends_bind]
  refine (cancel_spec w).imp fun _ w₁ hw₁ => ?_
  subst hw₁
  simp only [ends_bind, ends_get, ends_modify]
  refine Ends.imp (retireAll_spec hcode (fun _ h => h) hranged) fun _ w₂ h => ?_
  split
  · exact ⟨w₂, h.1, h.2, _, rfl⟩
  · exact ⟨w₂, h.1, h.2, w₂.log, rfl⟩

theorem enlistAll_spec (hranged : Ranged w) (references : List Reference) :
    Ends (references.forM (addService env)) w fun _ w' =>
      EnlistsAll env view references w w' := by
  induction references generalizing w with
  | nil => exact .nil w
  | cons r rest ih =>
    show Ends (addService env r >>= fun _ => rest.forM (addService env)) w _
    rw [ends_bind]
    refine (addService_spec hcode hranged r).imp fun _ w₁ hfirst => ?_
    exact (ih (hfirst.ranged hranged)).imp fun _ _ hrest => .cons hfirst hrest

theorem openRegistry_spec (hranged : Ranged w) :
    Ends (openRegistry env) w fun result w' => Opens env view w result w' := by
  unfold openRegistry
  simp only [ends_bind, ends_get]
  split
  · rename_i hopen
    exact .already hopen
  rename_i hclosed
  simp only [ends_bind, ends_outside]
  rcases hsubscribe : env.directory.subscribe (capabilityFilter consoleCapability) w.outside
    with ⟨f | s, o⟩
  · exact .refused (by simpa using hclosed) hsubscribe
  simp only [ends_bind, ends_modify, ends_outside]
  rcases hreferences : env.directory.references (capabilityFilter consoleCapability) o
    with ⟨f | references, o'⟩
  all_goals simp only [World.withOutside, hreferences, ends_bind]
  · refine (cancel_spec _).imp fun _ w₁ hw₁ => ?_
    subst hw₁
    exact .undone (by simpa using hclosed) hsubscribe hreferences
  · have hranged' : Ranged { w with subscription := some s, outside := o' } := hranged
    refine (enlistAll_spec hcode hranged' references).imp fun _ w₁ h => ?_
    exact .opened (by simpa using hclosed) hsubscribe hreferences h ⟨_, rfl⟩

/-! ## News -/

/-- Who keeps the registry keeps it while it listens, so listening never closes it. -/
theorem directoryChanged_spec (hranged : Ranged w) (hkept : 0 < w.keepers)
    (event : DirectoryEvent) :
    Ends (directoryChanged env event) w fun _ w' => ∃ w₁,
      Heeds env view event { w with keepers := w.keepers + 1 } w₁ ∧
        w' = { w₁ with keepers := w.keepers } := by
  have hranged' : Ranged { w with keepers := w.keepers + 1 } := hranged
  have hheeds : Ends (match event with
      | .registered reference => addService env reference
      | .unregistering reference => removeService env reference
      | .modified _ => return ()) { w with keepers := w.keepers + 1 } fun _ w₁ =>
        Heeds env view event { w with keepers := w.keepers + 1 } w₁ := by
    cases event with
    | registered r => exact addService_spec hcode hranged' r
    | modified r => exact rfl
    | unregistering r => exact removeService_spec hcode hranged' r
  unfold directoryChanged keeping keep letGo
  simp only [ends_bind, ends_get]
  rw [if_neg (Nat.pos_iff_ne_zero.mp hkept)]
  simp only [ends_bind, ends_modify, ends_get]
  refine hheeds.imp fun _ w₁ h => ?_
  have hkeepers : w₁.keepers - 1 = w.keepers := by
    rw [h.settings.keepers]
    exact Nat.add_sub_cancel _ _
  rw [hkeepers, if_neg (Nat.pos_iff_ne_zero.mp hkept)]
  exact ⟨w₁, h, rfl⟩

end Specs

end Registry

end PluginConsole
