import PluginConsole.Proofs.Registry.Operation

/-!
# What the registry does with its entries

Everything that is asked of a registry comes down to asking, initializing, destroying and disposing
entries, to entering new ones and to writing the table and the settings. Plugin code may come back
at any of these points.
-/

namespace PluginConsole.Registry

open Act Lifecycle

variable {σ α : Type} {env : Environment σ}

/-- To enter entries and to take them away stays within the relation, and so does what the
directory does by itself. -/
structure Managed (env : Environment σ) (own : σ → σ → Prop) (ready : World σ → Prop)
    (may : World σ → EntryId → Prop) (R : World σ → World σ → Prop) : Prop
    extends Progress ready may R where
  within : env.directory.Within own
  destroy {w : World σ} {id : EntryId} (hmay : may w id) :
    Ends (Lifecycle.destroy env id) w fun _ w' => R w w'
  dispose {w : World σ} {id : EntryId} (hmay : may w id) :
    Ends (Lifecycle.dispose env id) w fun _ w' => R w w'
  log (w : World σ) (log : List Notice) : R w { w with log }
  settings (w : World σ) (defaultLabel : Option String) (subscription : Option Nat)
    (keepers : Nat) : R w { w with defaultLabel, subscription, keepers }
  forgets (w : World σ) : R w { w with context := none }
  outside {w : World σ} {s : σ} (h : own w.outside s) : R w (w.withOutside s)
  enter (w : World σ) (label : String) (source : Source) : R w (w.entered { label, source })
  entered {w : World σ} (hready : ready w) (label : String) (source : Source) :
    may (w.entered { label, source }) w.entries.length
  table {w : World σ} {table : Dict EntryId} (hready : ready w)
    (hmay : ∀ id ∈ table.map Prod.snd, may w id) : R w { w with table }

/-- Whatever the registry does stays within the relation. -/
structure Governed (env : Environment σ) (own : σ → σ → Prop) (ready : World σ → Prop)
    (may : World σ → EntryId → Prop) (R : World σ → World σ → Prop) : Prop
    extends Queried env ready may R, Managed env own ready may R where
  init {w : World σ} {id : EntryId} (hmay : may w id) (ref : ContextRef) :
    Ends (Lifecycle.init env id ref) w fun _ w' => R w w'
  count (w : World σ) : R w { w with serial := w.serial + 1 }
  attaches (w : World σ) (ref : ContextRef) : R w { w with context := some ref }

section Relations

variable {own : σ → σ → Prop} {ready : World σ → Prop} {may : World σ → EntryId → Prop}
variable {R : World σ → World σ → Prop} {w : World σ}

namespace Managed

variable (h : Managed env own ready may R)
include h

theorem forM {β : Type} {f : β → Act σ Unit} {l : List β}
    (hf : ∀ b ∈ l, ∀ w₁, R w w₁ → Ends (f b) w₁ fun _ w' => R w₁ w') :
    Ends (l.forM f) w fun _ w' => R w w' := by
  induction l generalizing w with
  | nil => exact h.refl w
  | cons b rest ih =>
    show Ends (f b >>= fun _ => rest.forM f) w _
    rw [ends_bind]
    refine (hf b List.mem_cons_self w (h.refl w)).imp fun _ w₁ hfirst => ?_
    refine (ih fun other hmem w₂ h₂ => ?_).imp fun _ _ => h.trans hfirst
    exact hf other (List.mem_cons_of_mem _ hmem) w₂ (h.trans hfirst h₂)

/-! ## Removing entries -/

theorem retire {id : EntryId} (hmay : may w id) :
    Ends (retire env id) w fun _ w' => R w w' :=
  h.holding [id] (h.dispose (h.stays (h.aside w _) hmay))

theorem retireAll {ids : List EntryId} (hmay : ∀ id ∈ ids, may w id) :
    Ends (retireAll env ids) w fun _ w' => R w w' := by
  induction ids generalizing w with
  | nil => exact h.refl w
  | cons id rest ih =>
    unfold Registry.retireAll
    rw [ends_bind]
    have hfirst : Ends (holding (id :: rest) (Lifecycle.dispose env id)) w fun _ w' => R w w' :=
      h.holding _ (h.dispose (h.stays (h.aside w _) (hmay id List.mem_cons_self)))
    refine hfirst.imp fun _ w₁ hfirst => ?_
    refine (ih fun other hmem => ?_).imp fun _ _ hrest => h.trans hfirst hrest
    exact h.stays hfirst (hmay other (List.mem_cons_of_mem _ hmem))

theorem unregister (hready : ready w) (label : String) :
    Ends (unregister env label) w fun _ w' => R w w' := by
  unfold Registry.unregister
  simp only [ends_bind, ends_get]
  split
  · exact h.refl w
  rename_i id hheld
  have hlisted := h.listed hready
  have herased : R w { w with table := Dict.erase label w.table } := by
    refine h.table hready fun other hmem => hlisted other ?_
    obtain ⟨entry, hentry, rfl⟩ := List.mem_map.mp hmem
    exact List.mem_map_of_mem (List.mem_of_mem_filter hentry)
  simp only [ends_bind, ends_modify, ends_pure]
  refine (h.retire (h.stays herased (hlisted id (mem_snapshot_of_lookup hheld)))).imp fun _ _ => ?_
  exact h.trans herased

theorem removeService (hready : ready w) (r : Reference) :
    Ends (removeService env r) w fun _ w' => R w w' := by
  unfold Registry.removeService
  simp only [ends_bind, ends_get]
  split
  · exact h.refl w
  · rw [ends_discard]
    exact h.unregister hready _

/-! ## Closing -/

theorem cancel (w : World σ) : Ends (cancel env) w fun _ w' => R w w' := by
  unfold Registry.cancel takeSubscription
  simp only [ends_bind, ends_get, ends_modify, ends_pure]
  have htaken : R w { w with subscription := none } := h.settings w _ _ _
  split
  · exact h.trans htaken (h.outside (h.within.unsubscribe _ _))
  · exact htaken

theorem closeRegistry (hready : ready w) :
    Ends (closeRegistry env) w fun _ w' => R w w' := by
  unfold Registry.closeRegistry
  rw [ends_bind]
  refine (h.cancel w).imp fun _ w₁ hcancelled => ?_
  have hready₁ := h.keeps hcancelled hready
  have hemptied : R w₁ { w₁ with table := [] } :=
    h.table hready₁ fun id hmem => absurd hmem List.not_mem_nil
  simp only [ends_bind, ends_get, ends_modify]
  have hmay : ∀ id ∈ snapshot w₁, may { w₁ with table := [] } id :=
    fun id hmem => h.stays hemptied (h.listed hready₁ id hmem)
  refine (h.retireAll hmay).imp fun _ w₂ hretired => ?_
  have hclosed : R w { w₂ with defaultLabel := none } :=
    h.trans hcancelled (h.trans hemptied (h.trans hretired (h.settings w₂ none _ _)))
  split
  · exact h.trans hclosed (h.log _ _)
  · exact hclosed

theorem letGo (hready : ready w) : Ends (letGo env) w fun _ w' => R w w' := by
  unfold Registry.letGo
  simp only [ends_bind, ends_get, ends_modify]
  have hleft : R w { w with keepers := w.keepers - 1 } := h.settings w _ _ _
  split
  · exact (h.closeRegistry (h.keeps hleft hready)).imp fun _ _ => h.trans hleft
  · exact hleft

theorem noted {f : EntryId → Act σ (Except Fault Unit)}
    (hf : ∀ {w id}, may w id → Ends (f id) w fun _ w' => R w w')
    (notice : String → String → Notice) {ids : List EntryId} (hmay : ∀ id ∈ ids, may w id) :
    Ends (ids.forM fun id => do
      match ← f id with
      | .error fault => note (notice (← entry id).label fault.message)
      | .ok () => return ()) w fun _ w' => R w w' := by
  refine h.forM fun id hmem w₁ hw₁ => ?_
  rw [ends_bind]
  refine (hf (h.stays hw₁ (hmay id hmem))).imp fun done w₂ hdone => ?_
  rcases done with fault | _
  · simp only [ends_bind, ends_entry, ends_note]
    exact h.trans hdone (h.log w₂ _)
  · exact hdone

theorem detach (hready : ready w) : Ends (detach env) w fun _ w' => R w w' := by
  unfold Registry.detach
  simp only [ends_bind, ends_get, ends_modify, ends_note]
  refine (h.holding _ (h.noted h.destroy _ (h.inHand (h.listed hready) _))).imp fun _ w₁ hdone => ?_
  exact h.trans hdone (h.trans (h.forgets w₁) (h.log _ _))

/-! ## Adding entries -/

theorem register (hready : ready w) {id : EntryId} (hmay : may w id) :
    Ends (register env id) w fun _ w' => R w w' := by
  have hlisted := h.listed hready
  have hinserted {w₁ : World σ} (hstart : R w w₁) (label : String) :
      R w { w₁ with table := Dict.insert label id w₁.table } := by
    refine h.trans hstart (h.table (h.keeps hstart hready) fun other hmem => ?_)
    obtain ⟨entry, hentry, rfl⟩ := List.mem_map.mp hmem
    rcases Dict.mem_of_mem_insert hentry with rfl | hentry
    · exact h.stays hstart hmay
    · exact h.listed (h.keeps hstart hready) _ (List.mem_map_of_mem hentry)
  unfold Registry.register
  simp only [ends_bind, ends_get]
  split
  · exact hinserted (h.refl w) _
  rename_i holder hheld
  have hholder := hlisted holder (mem_snapshot_of_lookup hheld)
  split
  · exact h.retire hmay
  · simp only [ends_bind, ends_note, ends_modify]
    have htaken (log : List Notice) :
        R w { w with table := Dict.insert (w.entry id).label id w.table, log } :=
      hinserted (h.log w log) _
    exact (h.retire (h.stays (htaken _) hholder)).imp fun _ _ => h.trans (htaken _)
  · simp only [ends_bind, ends_note]
    exact (h.retire (h.stays (h.log w _) hmay)).imp fun _ _ => h.trans (h.log w _)

theorem enlist (hready : ready w) (label : String) (source : Source) :
    Ends (Registry.register env w.entries.length) (w.entered { label, source })
      fun _ w' => R w w' := by
  have hentered := h.enter w label source
  refine (h.register (h.keeps hentered hready) (h.entered hready label source)).imp fun _ _ => ?_
  exact h.trans hentered

theorem addService (hready : ready w) (r : Reference) :
    Ends (addService env r) w fun _ w' => R w w' := by
  unfold Registry.addService serviceEntry
  cases r.label with
  | none => exact h.refl w
  | some label => exact h.enlist hready label (.directory r)

theorem addDirect (hready : ready w) (factory label : String) :
    Ends (addDirect env factory label) w fun _ w' => R w w' := by
  unfold Registry.addDirect directEntry
  simp only [ends_bind]
  split
  · have hnoted := h.log w (w.log ++ [.factoryMissing factory])
    simp only [ends_note, ends_bind, ends_newEntry]
    exact (h.enlist (h.keeps hnoted hready) label _).imp fun _ _ => h.trans hnoted
  · simp only [ends_newEntry]
    exact h.enlist hready label _

/-! ## Opening and listening -/

theorem openRegistry (hready : ready w) :
    Ends (openRegistry env) w fun _ w' => R w w' := by
  unfold Registry.openRegistry
  simp only [ends_bind, ends_get]
  split
  · exact h.refl w
  simp only [ends_bind, ends_outside]
  have hasked := h.outside (h.within.subscribe (capabilityFilter consoleCapability) w.outside)
  generalize w.withOutside (env.directory.subscribe (capabilityFilter consoleCapability)
    w.outside).2 = w₁ at hasked ⊢
  split
  · exact hasked
  rename_i s _
  simp only [ends_bind, ends_modify, ends_outside]
  have hsubscribed : R w { w₁ with subscription := some s } :=
    h.trans hasked (h.settings w₁ _ _ _)
  have hlisted := h.trans hsubscribed (h.outside (h.within.references
    (capabilityFilter consoleCapability) _))
  split
  · rw [ends_bind]
    exact (h.cancel _).imp fun _ _ => h.trans hlisted
  · simp only [ends_bind, ends_get, ends_note]
    refine (h.forM fun r _ w₂ hw₂ => ?_).imp fun _ w₂ hadded => ?_
    · exact h.addService (h.keeps (h.trans hlisted hw₂) hready) r
    · exact h.trans hlisted (h.trans hadded (h.log w₂ _))

theorem directoryChanged (hready : ready w) (event : DirectoryEvent) :
    Ends (directoryChanged env event) w fun _ w' => R w w' := by
  unfold Registry.directoryChanged
  simp only [ends_bind, ends_get]
  split
  · exact h.refl w
  unfold keeping keep
  simp only [ends_bind, ends_modify]
  have hkept : R w { w with keepers := w.keepers + 1 } := h.settings w _ _ _
  have hready' := h.keeps hkept hready
  have hleave {w₁ : World σ} (hw₁ : R w w₁) : Ends (Registry.letGo env) w₁ fun _ w' => R w w' :=
    (h.letGo (h.keeps hw₁ hready)).imp fun _ _ => h.trans hw₁
  cases event with
  | registered r =>
    exact (h.addService hready' r).imp fun _ _ hadded => hleave (h.trans hkept hadded)
  | modified r => exact hleave hkept
  | unregistering r =>
    exact (h.removeService hready' r).imp fun _ _ hremoved => hleave (h.trans hkept hremoved)

end Managed

namespace Governed

theorem attach (h : Governed env own ready may R) (hready : ready w) (context : Context) :
    Ends (attach env context) w fun _ w' => R w w' := by
  unfold Registry.attach
  simp only [ends_bind, ends_get, ends_newContext, ends_modify, ends_note]
  have hset : R w { w with serial := w.serial + 1, context := some ⟨w.serial, context⟩ } :=
    h.trans (h.count w) (h.attaches _ _)
  refine (h.holding _ (h.noted (fun hmay => h.init hmay _) _ ?_)).imp fun _ w₁ hinit => ?_
  · exact h.inHand (h.listed (h.keeps hset hready)) _
  · exact h.trans hset (h.trans hinit (h.log w₁ _))

/-! ## Every operation -/

theorem perform (h : Governed env (fun _ _ => True) ready may R) (hready : ready w)
    (op : Operation σ) :
    Ends (perform env op) w fun _ w' => R w w' := by
  cases op with
  | openUp => exact h.openRegistry hready
  | close => exact h.closeRegistry hready
  | addService r => exact h.addService hready r
  | removeService r => exact h.removeService hready r
  | addDirect factory label => exact h.addDirect hready factory label
  | unregister label => exact h.unregister hready label
  | hear event => exact h.directoryChanged hready event
  | setDefaultLabel label => exact h.settings w label _ _
  | setContext context =>
    cases context with
    | some context => exact h.attach hready context
    | none => exact h.detach hready
  | lookup | lookupDefault | labelMap | describe =>
    exact h.toQueried.perform (fun _ _ _ _ _ w => h.outside trivial) hready trivial
      (Operation.calm_blind _)

end Governed

end Relations

end PluginConsole.Registry
