import PluginConsole.Proofs.Lifecycle.Course
import PluginConsole.Proofs.Registry.Query

/-!
# Queries visit entries

Looking up, listing, mapping, attaching and detaching go through the entries of the table
one by one. All that they change is within those entries.
-/

open Relation (ReflTransGen)

namespace PluginConsole.Registry

open Act Lifecycle

variable {σ δ α : Type} {env : Environment σ} {view : σ → δ} {ids : List EntryId}
variable {w w' w'' : World σ}

/-! ## Visits -/

/-- One move of an entry in a list, or something that concerns no entry. -/
inductive Visit (env : Environment σ) (view : σ → δ) (ids : List EntryId) :
    World σ → World σ → Prop where
  | move {w w' : World σ} {id : EntryId} (hmem : id ∈ ids) (hid : id < w.entries.length)
    (h : Move env view id w w') : Visit env view ids w w'
  | call {w : World σ} {s : σ} (h : view s = view w.outside) :
    Visit env view ids w (w.withOutside s)
  | aside (w : World σ) (log : List Notice) (serial : Nat) (inHand : List EntryId) :
    Visit env view ids w { w with log, serial, inHand }

abbrev Visits (env : Environment σ) (view : σ → δ) (ids : List EntryId) :
    World σ → World σ → Prop :=
  ReflTransGen (Visit env view ids)

structure Kept (w w' : World σ) : Prop where
  table : w'.table = w.table
  defaultLabel : w'.defaultLabel = w.defaultLabel
  subscription : w'.subscription = w.subscription
  context : w'.context = w.context
  keepers : w'.keepers = w.keepers
  length : w'.entries.length = w.entries.length

theorem Kept.trans (h : Kept w w') (h' : Kept w' w'') : Kept w w'' where
  table := h'.table.trans h.table
  defaultLabel := h'.defaultLabel.trans h.defaultLabel
  subscription := h'.subscription.trans h.subscription
  context := h'.context.trans h.context
  keepers := h'.keepers.trans h.keepers
  length := h'.length.trans h.length

theorem Kept.ofFrame {id : EntryId} (h : Frame id w w') : Kept w w' :=
  ⟨h.table, h.defaultLabel, h.subscription, h.context, h.keepers, h.length⟩

theorem Visit.kept (h : Visit env view ids w w') : Kept w w' := by
  cases h with
  | move _ _ h => exact .ofFrame h.frame
  | call | aside => constructor <;> rfl

theorem Visits.kept (h : Visits env view ids w w') : Kept w w' := by
  induction h with
  | refl => constructor <;> rfl
  | tail _ hstep ih => exact ih.trans hstep.kept

theorem Visits.ofMoves {id : EntryId} (hmem : id ∈ ids) (hid : id < w.entries.length)
    (h : Moves env view id w w') : Visits env view ids w w' := by
  induction h with
  | refl => exact .refl
  | tail hmoves hstep ih =>
    have hid' := hid
    rw [← (Moves.frame hmoves).length] at hid'
    exact ih.tail (.move hmem hid' hstep)

/-- Every entry is what it was registered as, and those that are over stay so. -/
structure Grown (w w' : World σ) : Prop where
  length : w.entries.length ≤ w'.entries.length
  label : ∀ id < w.entries.length, (w'.entry id).label = (w.entry id).label
  source : ∀ id < w.entries.length, (w'.entry id).source = (w.entry id).source
  ended : ∀ id < w.entries.length, Over id w → Over id w' ∧ w'.eventsOf id = w.eventsOf id

theorem Grown.refl (w : World σ) : Grown w w :=
  ⟨Nat.le_refl _, fun _ _ => rfl, fun _ _ => rfl, fun _ _ h => ⟨h, rfl⟩⟩

theorem Grown.trans (h : Grown w w') (h' : Grown w' w'') : Grown w w'' where
  length := h.length.trans h'.length
  label id hid := (h'.label id (hid.trans_le h.length)).trans (h.label id hid)
  source id hid := (h'.source id (hid.trans_le h.length)).trans (h.source id hid)
  ended id hid hover := by
    obtain ⟨hover', hsame⟩ := h.ended id hid hover
    obtain ⟨hover'', hsame'⟩ := h'.ended id (hid.trans_le h.length) hover'
    exact ⟨hover'', hsame'.trans hsame⟩

theorem Grown.ofSame {w₁ : World σ} (h : Grown w₁ w') (hentries : w₁.entries = w.entries)
    (hhistory : w₁.history = w.history) : Grown w w' := by
  have hentry := World.entry_congr hentries
  have hevents := World.eventsOf_congr hhistory
  constructor
  · exact hentries ▸ h.length
  all_goals intro id hid
  · rw [← hentry id]
    exact h.label id (hentries ▸ hid)
  · rw [← hentry id]
    exact h.source id (hentries ▸ hid)
  · intro hover
    rw [← hevents id]
    have hover₁ : Over id w₁ := ⟨by rw [hentry id]; exact hover.disposed,
      by rw [hentry id]; exact hover.cold⟩
    exact h.ended id (hentries ▸ hid) hover₁

theorem Visit.grown (h : Visit env view ids w w') : Grown w w' := by
  cases h with
  | @move _ id _ _ h =>
    have hframe := h.frame
    refine ⟨hframe.length.ge, fun other _ => ?_, fun other _ => ?_, fun other _ hover => ?_⟩
    all_goals by_cases ho : other = id
    · subst ho
      exact hframe.label
    · rw [hframe.others other ho]
    · subst ho
      exact hframe.source
    · rw [hframe.others other ho]
    · subst ho
      exact h.ended hover
    · refine ⟨⟨?_, ?_⟩, hframe.events other ho⟩
      · rw [hframe.others other ho]
        exact hover.disposed
      · rw [hframe.others other ho]
        exact hover.cold
  | call | aside =>
    exact ⟨Nat.le_refl _, fun _ _ => rfl, fun _ _ => rfl,
      fun _ _ hover => ⟨⟨hover.disposed, hover.cold⟩, rfl⟩⟩

theorem Visits.grown (h : Visits env view ids w w') : Grown w w' := by
  induction h with
  | refl => exact .refl _
  | tail _ hstep ih => exact ih.trans hstep.grown

/-- The table leads only to entries that were made. -/
def Ranged (w : World σ) : Prop :=
  ∀ id ∈ snapshot w, id < w.entries.length

theorem Ranged.kept (h : Ranged w) (hkept : Kept w w') : Ranged w' := by
  unfold Ranged snapshot
  rw [hkept.table, hkept.length]
  exact h

/-! ## One after the other -/

theorem visits_holding {act : Act σ α} (hs : List EntryId)
    (h : Ends act { w with inHand := hs ++ w.inHand } fun _ w' =>
      Visits env view ids { w with inHand := hs ++ w.inHand } w') :
    Ends (holding hs act) w fun _ w' => Visits env view ids w w' := by
  rw [ends_holding]
  refine h.imp fun _ w' hvisits => ?_
  have hopen : Visit env view ids w { w with inHand := hs ++ w.inHand } :=
    .aside w w.log w.serial _
  exact (ReflTransGen.head hopen hvisits).tail (.aside w' w'.log w'.serial _)

theorem forM_visits {f : EntryId → Act σ Unit} {rest : List EntryId}
    (hf : ∀ id ∈ rest, ∀ w', Kept w w' →
      Ends (f id) w' fun _ w'' => Visits env view ids w' w'') :
    Ends (rest.forM f) w fun _ w' => Visits env view ids w w' := by
  induction rest generalizing w with
  | nil => exact .refl
  | cons id rest ih =>
    show Ends (f id >>= fun _ => rest.forM f) w _
    rw [ends_bind]
    refine (hf id List.mem_cons_self w ⟨rfl, rfl, rfl, rfl, rfl, rfl⟩).imp fun _ w₁ hfirst => ?_
    refine (ih fun other hmem w₂ hkept => ?_).imp fun _ w₃ hrest => hfirst.trans hrest
    exact hf other (List.mem_cons_of_mem _ hmem) w₂ (hfirst.kept.trans hkept)

theorem forM_moves {f : EntryId → Act σ Unit} (hs : List EntryId) (hranged : Ranged w)
    (hf : ∀ id w', id < w'.entries.length → w'.context = w.context →
      Ends (f id) w' fun _ w'' => Moves env view id w' w'') :
    Ends (holding hs ((snapshot w).forM f)) w fun _ w' => Visits env view (snapshot w) w w' := by
  refine visits_holding hs (forM_visits fun id hmem w₁ hkept => ?_)
  have hid : id < w₁.entries.length := by
    rw [hkept.length]
    exact hranged id hmem
  exact (hf id w₁ hid hkept.context).imp fun _ _ h => .ofMoves hmem hid h

theorem forM_noted {f : EntryId → Act σ (Except Fault Unit)} {notice : String → String → Notice}
    (hs : List EntryId) (hranged : Ranged w)
    (hf : ∀ id w', id < w'.entries.length → w'.context = w.context →
      Ends (f id) w' fun _ w'' => Moves env view id w' w'') :
    Ends (holding hs ((snapshot w).forM fun id => do
      match ← f id with
      | .error fault => note (notice (← entry id).label fault.message)
      | .ok () => return ())) w fun _ w' => Visits env view (snapshot w) w w' := by
  refine forM_moves hs hranged fun id w₁ hid hcontext => ?_
  rw [ends_bind]
  refine (hf id w₁ hid hcontext).imp ?_
  rintro (fault | _) w₂ hmoves
  · simp only [ends_bind, ends_entry, ends_note]
    exact hmoves.tail (.idle (idle_log _ _))
  · exact hmoves

/-- Messages that are found without a change to what `view` shows. -/
def Calm (view : σ → δ) (messages : Localizer (StateM σ)) : Prop :=
  ∀ origin locale s, view (messages origin locale s).2 = view s

theorem localize_calm {messages : Localizer (StateM σ)} (h : Calm view messages)
    (title origin locale : String) (s : σ) :
    view (localize messages title origin locale s).2 = view s := by
  unfold localize
  cases messageKey? title with
  | none => rfl
  | some key => exact h origin locale s

section Queries

variable (hcode : env.code.Spares view)
include hcode

theorem visits_queried (ids : List EntryId) :
    Queried env (fun w => ∀ id ∈ snapshot w, id ∈ ids ∧ id < w.entries.length)
      (fun w id => id ∈ ids ∧ id < w.entries.length) (Visits env view ids) where
  refl _ := .refl
  trans h h' := h.trans h'
  aside w inHand := .single (.aside w w.log w.serial inHand)
  stays {w w' id} h hmay := by
    rw [h.kept.length]
    exact hmay
  keeps {w w'} h hready := by
    rw [snapshot_congr h.kept.table, h.kept.length]
    exact hready
  listed hready := hready
  component {w id} hmay :=
    (component_spec hcode hmay.2).imp fun _ _ h => .ofMoves hmay.1 hmay.2 h.1
  title {w id} hmay := (title_spec hcode hmay.2).imp fun _ _ h => .ofMoves hmay.1 hmay.2 h
  category {w id} hmay := (category_spec hcode hmay.2).imp fun _ _ h => .ofMoves hmay.1 hmay.2 h

/-! ## The execution context -/

/-- The context is in its place before the first entry is initialized against it. -/
theorem attach_spec (hranged : Ranged w) (context : Context) :
    Ends (attach env context) w fun _ w' => Visits env view (snapshot w)
      { w with serial := w.serial + 1, context := some ⟨w.serial, context⟩ } w' := by
  unfold attach
  simp only [ends_bind, ends_get, ends_newContext, ends_modify]
  have hranged' : Ranged { w with serial := w.serial + 1, context := some ⟨w.serial, context⟩ } :=
    hranged
  refine (forM_noted (snapshot w) hranged' fun id w₁ hid hcontext =>
    init_spec hcode hid hcontext).imp fun _ w₂ hvisits => ?_
  exact hvisits.tail (.aside w₂ _ w₂.serial w₂.inHand)

theorem detach_spec (hranged : Ranged w) :
    Ends (detach env) w fun _ w' =>
      ∃ w₁ log, Visits env view (snapshot w) w w₁ ∧ w' = { w₁ with context := none, log } := by
  unfold detach
  simp only [ends_bind, ends_get]
  exact (forM_noted (snapshot w) hranged fun id w₁ _ _ => destroy_spec hcode id w₁).imp
    fun _ w₁ hvisits => ⟨w₁, _, hvisits, rfl⟩

end Queries

end PluginConsole.Registry
