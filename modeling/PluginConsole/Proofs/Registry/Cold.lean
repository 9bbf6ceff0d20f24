import PluginConsole.Proofs.Registry.Registration

/-!
# Registering without components

As long as nobody asked for a component, entries are disposed without a call. So it makes
no difference what the code of plugins does.
-/

namespace PluginConsole.Registry

open Act Lifecycle

variable {σ α β : Type} {env env' : Environment σ} {w : World σ}

def Cold (w : World σ) : Prop :=
  ∀ id, (w.entry id).warm = none

/-- Two steps do the same in a world, and leave no component. -/
def Agree (act act' : Act σ α) (w : World σ) : Prop :=
  act' w = act w ∧ Cold (act w).2

theorem Agree.bind {x x' : Act σ β} {f f' : β → Act σ α} (h : Agree x x' w)
    (hf : ∀ b w', Cold w' → Agree (f b) (f' b) w') : Agree (x >>= f) (x' >>= f') w := by
  obtain ⟨hsame, hcold⟩ := h
  have hrest := hf (x w).1 (x w).2 hcold
  refine ⟨?_, hrest.2⟩
  show f' (x' w).1 (x' w).2 = f (x w).1 (x w).2
  rw [hsame]
  exact hrest.1

theorem agree_refl {act : Act σ α} (h : Cold (act w).2) : Agree act act w :=
  ⟨rfl, h⟩

theorem agree_discard {act act' : Act σ α} (h : Agree act act' w) :
    Agree (discard act) (discard act') w := by
  have hdiscard (act : Act σ α) : discard act w = (PUnit.unit, (act w).2) := rfl
  refine ⟨?_, h.2⟩
  rw [hdiscard, hdiscard, h.1]

theorem agree_get_bind {f f' : World σ → Act σ α} (h : Agree (f w) (f' w) w) :
    Agree (get >>= f) (get >>= f') w := h

theorem agree_modify_bind {g : World σ → World σ} {f f' : PUnit → Act σ α}
    (h : Agree (f ⟨⟩) (f' ⟨⟩) (g w)) : Agree (modify g >>= f) (modify g >>= f') w := h

theorem dispose_cold (env : Environment σ) {id : EntryId} (h : (w.entry id).warm = none) :
    dispose env id w = ((), w.modifyEntry id fun e => { e with disposed := true, warm := none }) := by
  have hends : Ends (dispose env id) w fun _ w' =>
      w' = w.modifyEntry id fun e => { e with disposed := true, warm := none } := by
    unfold dispose
    simp only [ends_bind, ends_entry, ends_modifyEntry, h]
    rfl
  exact Prod.ext rfl hends

theorem cold_modifyEntry (h : Cold w) (id : EntryId) {f : Entry → Entry}
    (hf : ∀ e, (f e).warm = none) : Cold (w.modifyEntry id f) := by
  intro other
  by_cases ho : other = id
  · rw [ho]
    rcases World.entry_modifyEntry_cases id f w with hnew | hsame
    · rw [hnew]
      exact hf _
    · rw [hsame]
      exact h id
  · rw [World.entry_modifyEntry_of_ne ho]
    exact h other

theorem agree_dispose (h : Cold w) (id : EntryId) :
    Agree (dispose env id) (dispose env' id) w := by
  refine ⟨?_, ?_⟩
  · rw [dispose_cold env (h id), dispose_cold env' (h id)]
  · rw [dispose_cold env (h id)]
    exact cold_modifyEntry h id fun _ => rfl

theorem agree_holding {act act' : Act σ α} (ids : List EntryId)
    (h : Agree act act' { w with inHand := ids ++ w.inHand }) :
    Agree (holding ids act) (holding ids act') w := by
  unfold holding
  refine agree_get_bind (agree_modify_bind (h.bind fun a w' hcold => ?_))
  exact agree_modify_bind (agree_refl hcold)

theorem agree_retire (h : Cold w) (id : EntryId) : Agree (retire env id) (retire env' id) w := by
  have hheld : Cold { w with inHand := [id] ++ w.inHand } := h
  exact agree_holding [id] (agree_dispose hheld id)

theorem agree_register (h : Cold w) (id : EntryId) :
    Agree (register env id) (register env' id) w := by
  unfold register
  refine agree_get_bind ?_
  dsimp only
  cases w.table.lookup (w.entry id).label with
  | none =>
    have hwritten : ∀ table, Cold { w with table } := fun _ => h
    exact agree_refl (hwritten _)
  | some holder =>
    dsimp only
    cases (w.entry id).compareRank (w.entry holder) with
    | eq => exact agree_retire h id
    | gt =>
      have hwritten : ∀ log table, Cold { w with log, table } := fun _ _ => h
      exact agree_modify_bind (agree_modify_bind (agree_retire (hwritten _ _) holder))
    | lt =>
      have hnoted : ∀ log, Cold { w with log } := fun _ => h
      exact agree_modify_bind (agree_retire (hnoted _) id)

theorem cold_entered (h : Cold w) (label : String) (source : Source) :
    Cold { w with entries := w.entries ++ [{ label, source }] } := by
  intro id
  have hentry := World.entry_entered { label, source } id w
  have hentry : World.entry { w with entries := w.entries ++ [{ label, source }] } id = _ := hentry
  rw [hentry]
  split
  · rfl
  · exact h id

theorem cold_serviceEntry (h : Cold w) (r : Reference) :
    Ends (serviceEntry r) w fun _ w' => Cold w' := by
  unfold serviceEntry
  cases r.label with
  | none => exact h
  | some label =>
    simp only [ends_bind, ends_newEntry, ends_pure]
    exact cold_entered h label (.directory r)

theorem agree_addService (h : Cold w) (r : Reference) :
    Agree (addService env r) (addService env' r) w := by
  unfold addService
  refine (agree_refl (cold_serviceEntry h r)).bind fun found _ hcold => ?_
  cases found with
  | none => exact agree_refl hcold
  | some id => exact agree_register hcold id

theorem agree_addDirect (h : Cold w) (hfactory : env'.code.hasFactory = env.code.hasFactory)
    (factory label : String) :
    Agree (addDirect env factory label) (addDirect env' factory label) w := by
  unfold addDirect
  refine Agree.bind ?_ fun id _ hcold => agree_register hcold id
  have hsame : directEntry env' factory label = directEntry env factory label := by
    unfold directEntry
    rw [hfactory]
  have hcold : Ends (directEntry env factory label) w fun _ w' => Cold w' := by
    have hnoted : ∀ log, Cold { w with log } := fun _ => h
    unfold directEntry
    dsimp only
    split
    · simp only [ends_bind, ends_note, ends_newEntry]
      exact cold_entered (hnoted _) label _
    · simp only [ends_newEntry]
      exact cold_entered h label _
  rw [hsame]
  exact agree_refl hcold

theorem agree_addServices (h : Cold w) (references : List Reference) :
    Agree (references.forM (addService env)) (references.forM (addService env')) w := by
  induction references generalizing w with
  | nil =>
    show Agree (pure PUnit.unit) (pure PUnit.unit) w
    exact agree_refl h
  | cons r rest ih => exact (agree_addService h r).bind fun _ _ hcold => ih hcold

theorem agree_retireAll (h : Cold w) (ids : List EntryId) :
    Agree (retireAll env ids) (retireAll env' ids) w := by
  induction ids generalizing w with
  | nil => exact agree_refl h
  | cons id rest ih =>
    have hheld : Cold { w with inHand := id :: rest ++ w.inHand } := h
    exact (agree_holding (id :: rest) (agree_dispose hheld id)).bind fun _ _ hcold => ih hcold

theorem agree_unregister (h : Cold w) (label : String) :
    Agree (unregister env label) (unregister env' label) w := by
  unfold unregister
  refine agree_get_bind ?_
  cases w.table.lookup label with
  | none => exact agree_refl h
  | some id =>
    have herased : ∀ table, Cold { w with table } := fun _ => h
    exact agree_modify_bind ((agree_retire (herased _) id).bind fun _ _ hcold => agree_refl hcold)

theorem agree_removeService (h : Cold w) (r : Reference) :
    Agree (removeService env r) (removeService env' r) w := by
  unfold removeService
  refine agree_get_bind ?_
  cases heldLabel w r with
  | none => exact agree_refl h
  | some label => exact agree_discard (agree_unregister h label)

section Directory

variable (hdirectory : env'.directory = env.directory)
include hdirectory

theorem agree_cancel (h : Cold w) : Agree (cancel env) (cancel env') w := by
  have hsame : cancel env' = cancel env := by
    unfold cancel
    rw [hdirectory]
  have hcancelled : (cancel env w).2 = cancelled env w := cancel_spec w
  rw [hsame]
  refine agree_refl ?_
  rw [hcancelled]
  exact h

theorem agree_closeRegistry (h : Cold w) :
    Agree (closeRegistry env) (closeRegistry env') w := by
  unfold closeRegistry
  refine (agree_cancel hdirectory h).bind fun _ w₁ hcold => ?_
  refine agree_get_bind (agree_modify_bind ?_)
  have hemptied : ∀ table, Cold { w₁ with table } := fun _ => hcold
  refine (agree_retireAll (hemptied _) _).bind fun _ w₂ hcold₂ => ?_
  refine agree_modify_bind (agree_refl ?_)
  split
  · exact hcold₂
  · exact hcold₂

theorem agree_openRegistry (h : Cold w) : Agree (openRegistry env) (openRegistry env') w := by
  unfold openRegistry
  refine agree_get_bind ?_
  split
  · exact agree_refl h
  rw [hdirectory]
  have houtside : ∀ (v : World σ) s, Cold v → Cold (v.withOutside s) := fun _ _ hv => hv
  refine (agree_refl (houtside w _ h)).bind fun granted w₁ hcold₁ => ?_
  cases granted with
  | error f => exact agree_refl hcold₁
  | ok s =>
    refine agree_modify_bind ?_
    have hset : ∀ subscription, Cold { w₁ with subscription } := fun _ => hcold₁
    refine (agree_refl (houtside _ _ (hset (some s)))).bind fun listed w₂ hcold₂ => ?_
    cases listed with
    | error f => exact (agree_cancel hdirectory hcold₂).bind fun _ _ hcold => agree_refl hcold
    | ok references =>
      refine (agree_addServices hcold₂ references).bind fun _ w₃ hcold₃ => ?_
      exact agree_get_bind (agree_modify_bind (agree_refl hcold₃))

theorem agree_keeping {act act' : Act σ α} (hact : ∀ w, Cold w → Agree act act' w) (h : Cold w) :
    Agree (keeping env act) (keeping env' act') w := by
  have hkeepers : ∀ (v : World σ) keepers, Cold v → Cold { v with keepers } := fun _ _ hv => hv
  unfold keeping keep
  refine agree_modify_bind ((hact _ (hkeepers w _ h)).bind fun a w₁ hcold₁ => ?_)
  refine Agree.bind ?_ fun _ _ hcold => agree_refl hcold
  unfold letGo
  refine agree_get_bind (agree_modify_bind ?_)
  split
  · exact agree_closeRegistry hdirectory (hkeepers w₁ _ hcold₁)
  · exact agree_refl hcold₁

theorem agree_directoryChanged (h : Cold w) {event : DirectoryEvent}
    (hevent : ∀ r, event ≠ .unregistering r) :
    Agree (directoryChanged env event) (directoryChanged env' event) w := by
  unfold directoryChanged
  refine agree_get_bind ?_
  split
  · exact agree_refl h
  refine agree_keeping hdirectory (fun w₁ hcold => ?_) h
  cases event with
  | registered r => exact agree_addService hcold r
  | modified r => exact agree_refl hcold
  | unregistering r => exact absurd rfl (hevent r)

end Directory

end PluginConsole.Registry
