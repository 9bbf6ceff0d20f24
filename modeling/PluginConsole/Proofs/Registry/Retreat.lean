import PluginConsole.Proofs.Lifecycle.Respect
import PluginConsole.Proofs.Lifecycle.Service
import PluginConsole.Proofs.Registry.Govern

/-!
# Using a registry and leaving it

As long as entries are only asked, no component is torn down, and each is initialized against the
context that is attached. As soon as nothing is asked any more, components only come to their end.
-/

open Relation (ReflTransGen)

namespace PluginConsole.Registry

open Act Lifecycle

variable {σ δ : Type} {env : Environment σ} {view : σ → δ} {w w' w'' : World σ} {id : EntryId}

/-! ## Using -/

def Whole (w w' : World σ) : Prop :=
  ∀ id c, .destroy c ∈ w'.eventsOf id → .destroy c ∈ w.eventsOf id

theorem whole_inquired (hcode : env.code.Spares view) : Inquired env (Whole : World σ → _) where
  refl _ _ _ hmem := hmem
  trans h h' id c hmem := h id c (h' id c hmem)
  code := hcode.respects fun _ _ _ _ _ hmem => hmem
  aside _ _ _ _ _ hmem := hmem
  records w id event hmild other c hmem := by
    by_cases ho : other = id
    · rw [ho, World.eventsOf_recorded_self, List.mem_append, List.mem_singleton] at hmem
      rw [ho]
      exact hmem.resolve_right fun heq => hmild c heq.symm
    · rwa [World.eventsOf_recorded_of_ne ho] at hmem
  count _ _ _ hmem := hmem
  write _ _ _ _ _ _ _ hmem := hmem
  getService _ _ _ _ hmem := hmem
  releaseService _ _ _ _ hmem := hmem

theorem Visits.told {ids : List EntryId} (h : Visits env view ids w w') {c : Component}
    {ref : ContextRef} {config : InitConfig} (hmem : .init c ref config ∈ w'.eventsOf id) :
    .init c ref config ∈ w.eventsOf id ∨ w.context = some ref := by
  induction h with
  | refl => exact Or.inl hmem
  | @tail w₁ w₂ hvisits hstep ih =>
    have hbefore : .init c ref config ∈ w₁.eventsOf id ∨ w₁.context = some ref := by
      cases hstep with
      | @move _ other _ _ h =>
        by_cases ho : id = other
        · subst ho
          exact h.told hmem
        · rw [h.frame.events id ho] at hmem
          exact Or.inl hmem
      | call | aside => exact Or.inl hmem
    rcases hbefore with hmem | hcontext
    · exact ih hmem
    · rw [(Visits.kept hvisits).context] at hcontext
      exact Or.inr hcontext

/-! ## Leaving -/

/-- Nothing came of it but endings. -/
structure Retreats (w w' : World σ) : Prop where
  context : w.context = none → w'.context = none
  endings : ∀ id, ∃ added : List EntryEvent,
    (∀ event ∈ added, event.IsEnding) ∧ w'.eventsOf id = w.eventsOf id ++ added

namespace Retreats

theorem trans (h : Retreats w w') (h' : Retreats w' w'') : Retreats w w'' where
  context hnone := h'.context (h.context hnone)
  endings id := by
    obtain ⟨added, hending, hevents⟩ := h.endings id
    obtain ⟨more, hmore, hevents'⟩ := h'.endings id
    refine ⟨added ++ more, fun event hmem => ?_, ?_⟩
    · rcases List.mem_append.mp hmem with hmem | hmem
      · exact hending event hmem
      · exact hmore event hmem
    · rw [hevents', hevents, List.append_assoc]

theorem ofSame (hcontext : w.context = none → w'.context = none)
    (hhistory : w'.history = w.history) : Retreats w w' where
  context := hcontext
  endings id := by
    refine ⟨[], fun _ hmem => absurd hmem List.not_mem_nil, ?_⟩
    rw [World.eventsOf_congr hhistory, List.append_nil]

theorem ofFrame (hframe : Frame id w w') {added : List EntryEvent}
    (hending : ∀ event ∈ added, event.IsEnding)
    (hevents : w'.eventsOf id = w.eventsOf id ++ added) : Retreats w w' where
  context hnone := hframe.context.trans hnone
  endings other := by
    by_cases ho : other = id
    · rw [ho]
      exact ⟨added, hending, hevents⟩
    · refine ⟨[], fun _ hmem => absurd hmem List.not_mem_nil, ?_⟩
      rw [hframe.events other ho, List.append_nil]

end Retreats

theorem dispose_retreats (hcode : env.code.Spares view) (id : EntryId) (w : World σ) :
    Ends (dispose env id) w fun _ w' => Retreats w w' := by
  refine (dispose_spec hcode id w).imp fun _ w' h => ?_
  obtain ⟨w₁, hparting, hidle⟩ := h
  obtain ⟨added, hending, hevents⟩ := hparting.endings
  refine .ofFrame (hparting.frame.trans (Frame.ofCourse Idle.frame hidle)) hending ?_
  rw [Idles.events hidle, hevents]

theorem destroy_retreats (hcode : env.code.Spares view) (id : EntryId) (w : World σ) :
    Ends (destroy env id) w fun _ w' => Retreats w w' := by
  unfold Lifecycle.destroy
  simp only [ends_bind, ends_entry]
  split
  · exact .ofSame (fun h => h) rfl
  rename_i x hwarm
  split
  · exact .ofSame (fun h => h) rfl
  simp only [ends_bind, ends_modifyEntry, ends_record]
  generalize hw₁ : w.modifyEntry id (fun e => { e with warm := some { x with bound := none } }) = w₁
  have hfreed : Retreats w w₁ := by
    subst hw₁
    exact .ofSame (fun h => h) rfl
  have hdone : Retreats w (w₁.recorded id (.destroy x.component)) := by
    refine hfreed.trans (.ofFrame (Frame.recorded _ w₁) ?_ (World.eventsOf_recorded_self ..))
    intro event hmem
    rw [List.mem_singleton.mp hmem]
    exact trivial
  refine (callDestroy_spares hcode x.component).ends fun done s _ => ?_
  have hcalled : Retreats w ((w₁.recorded id (.destroy x.component)).withOutside s) :=
    hdone.trans (.ofSame (fun h => h) rfl)
  rcases done with f | _ <;> exact hcalled

theorem retreats_managed (hcode : env.code.Spares view) {own : σ → σ → Prop}
    (hwithin : env.directory.Within own) :
    Managed env own (fun _ => True) (fun _ _ => True) Retreats where
  refl _ := .ofSame (fun h => h) rfl
  trans := .trans
  aside _ _ := .ofSame (fun h => h) rfl
  stays _ _ := trivial
  keeps _ _ := trivial
  listed _ _ _ := trivial
  within := hwithin
  destroy _ := destroy_retreats hcode _ _
  dispose _ := dispose_retreats hcode _ _
  log _ _ := .ofSame (fun h => h) rfl
  settings _ _ _ _ := .ofSame (fun h => h) rfl
  forgets _ := .ofSame (fun _ => rfl) rfl
  outside _ := .ofSame (fun h => h) rfl
  enter _ _ _ := .ofSame (fun h => h) rfl
  entered _ _ _ := trivial
  table _ _ := .ofSame (fun h => h) rfl

end PluginConsole.Registry
