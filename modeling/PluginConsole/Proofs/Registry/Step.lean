import PluginConsole.Proofs.Registry.Operation

/-!
# Elementary steps

Changes of the registry, taken apart into single moves of entries and single writes. What
every step keeps is kept by every run.
-/

open Relation (ReflTransGen)

namespace PluginConsole.Registry

open Lifecycle

variable {σ δ : Type}

inductive Step (env : Environment σ) (view : σ → δ) (own : σ → σ → Prop) :
    World σ → World σ → Prop where
  | visit {w w' : World σ} {ids : List EntryId} (h : Visit env view ids w w') :
    Step env view own w w'
  | enter (w : World σ) (label : String) (source : Source) :
    Step env view own w (w.entered { label, source })
  | arrange {w : World σ} (table : Dict EntryId) (defaultLabel : Option String)
    (subscription : Option Nat) (context : Option ContextRef) (keepers serial : Nat)
    (log : List Notice) (hranged : ∀ id ∈ table.map Prod.snd, id < w.entries.length) :
    Step env view own w
      { w with table, defaultLabel, subscription, context, keepers, serial, log }
  | outside {w : World σ} {s : σ} (h : own w.outside s) : Step env view own w (w.withOutside s)

abbrev Steps (env : Environment σ) (view : σ → δ) (own : σ → σ → Prop) :
    World σ → World σ → Prop :=
  ReflTransGen (Step env view own)

variable {env : Environment σ} {view : σ → δ} {own : σ → σ → Prop} {admits : Source → Prop}
variable {w w' : World σ}

/-! ## What every step keeps -/

theorem Step.ranged (h : Step env view own w w') (hranged : Ranged w) : Ranged w' := by
  cases h with
  | visit h => exact hranged.kept h.kept
  | enter => exact ranged_entered hranged _
  | arrange _ _ _ _ _ _ _ h => exact h
  | outside => exact hranged

theorem Step.grown (h : Step env view own w w') : Grown w w' := by
  cases h with
  | visit h => exact h.grown
  | enter label source => exact grown_entered w _
  | arrange | outside =>
    exact ⟨Nat.le_refl _, fun _ _ => rfl, fun _ _ => rfl,
      fun _ _ hover => ⟨⟨hover.disposed, hover.cold⟩, rfl⟩⟩

theorem Steps.ranged (h : Steps env view own w w') (hranged : Ranged w) : Ranged w' := by
  induction h with
  | refl => exact hranged
  | tail _ hstep ih => exact hstep.ranged ih

theorem Steps.grown (h : Steps env view own w w') : Grown w w' := by
  induction h with
  | refl => exact .refl _
  | tail _ hstep ih => exact ih.trans hstep.grown

/-! ## Changes are made of steps -/

theorem Visits.steps {ids : List EntryId} (h : Visits env view ids w w') :
    Steps env view own w w' := by
  induction h with
  | refl => exact .refl
  | tail _ hstep ih => exact ih.tail (.visit hstep)

theorem step_table {table : Dict EntryId}
    (hranged : ∀ id ∈ table.map Prod.snd, id < w.entries.length) :
    Step env view own w { w with table } :=
  .arrange table w.defaultLabel w.subscription w.context w.keepers w.serial w.log hranged

theorem Contest.steps {id : EntryId} (h : Contest env view id w w')
    (hid : id < w.entries.length) (hranged : Ranged w) : Steps env view own w w' := by
  have hcontested : ∀ other ∈ (contested id w).map Prod.snd, other < w.entries.length := by
    intro other hmem
    rcases mem_snapshot_contested hmem with rfl | hmem
    · exact hid
    · exact hranged other hmem
  exact (ReflTransGen.single (step_table hcontested)).trans h.visits.steps

theorem Joins.steps {label : String} {source : Source} (h : Joins env view label source w w')
    (hranged : Ranged w) : Steps env view own w w' := by
  have hid : w.entries.length < (w.entered { label, source }).entries.length := by
    rw [World.length_entered]
    exact Nat.lt_succ_self _
  exact ReflTransGen.head (.enter w label source) (Contest.steps h hid (ranged_entered hranged _))

theorem Leaves.steps {label : String} (h : Leaves env view label w w') (hranged : Ranged w) :
    Steps env view own w w' := by
  have herased : ∀ id ∈ (Dict.erase label w.table).map Prod.snd, id < w.entries.length := by
    intro id hmem
    obtain ⟨⟨k, v⟩, hentry, rfl⟩ := List.mem_map.mp hmem
    exact hranged v (List.mem_map_of_mem (Dict.mem_erase.mp hentry).2)
  exact (ReflTransGen.single (step_table herased)).trans h.visits.steps

theorem Change.steps (h : Change env view own admits w w') (hranged : Ranged w) :
    Steps env view own w w' := by
  cases h with
  | visits h => exact h.steps
  | joins _ h => exact h.steps hranged
  | leaves h => exact h.steps hranged
  | empties h =>
    have hempty : ∀ id ∈ ([] : Dict EntryId).map Prod.snd, id < w.entries.length := by simp
    exact (ReflTransGen.single (step_table hempty)).trans h.steps
  | settings defaultLabel subscription context keepers serial log =>
    exact .single (.arrange w.table defaultLabel subscription context keepers serial log hranged)
  | outside h => exact .single (.outside h)

theorem Changes.steps (h : Changes env view own admits w w') (hranged : Ranged w) :
    Steps env view own w w' := by
  induction h with
  | refl => exact .refl
  | tail _ hstep ih => exact ih.trans (hstep.steps (ih.ranged hranged))

end PluginConsole.Registry
