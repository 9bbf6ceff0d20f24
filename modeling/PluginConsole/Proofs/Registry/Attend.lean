import PluginConsole.Proofs.Lifecycle.Consult
import PluginConsole.Proofs.Registry.Govern
import PluginConsole.Proofs.Registry.Respect

/-!
# What becomes of the entries

Entry by entry, what queries, contests and contexts leave behind: whoever is asked is consulted,
whoever loses a label is over, and everybody in the table learns of a context.
-/

open Relation (ReflTransGen)

namespace PluginConsole.Registry

open Act Lifecycle

variable {σ δ : Type} {env : Environment σ} {view : σ → δ} {w w' w'' : World σ}
variable {id other : EntryId}

/-! ## Serial numbers -/

/-- Serial numbers are never given twice. -/
def Later (w w' : World σ) : Prop :=
  w.serial ≤ w'.serial

theorem respected_later (hcode : env.code.Spares view) : Respected env (Later : World σ → _) where
  refl _ := Nat.le_refl _
  trans h h' := Nat.le_trans h h'
  code := hcode.respects fun w _ _ => Nat.le_refl w.serial
  aside w _ _ := Nat.le_refl w.serial
  records w _ _ _ := Nat.le_refl w.serial
  destroys w _ _ := Nat.le_refl w.serial
  count w := Nat.le_succ w.serial
  write w _ _ _ _ := Nat.le_refl w.serial
  getService _ w := Nat.le_refl w.serial
  releaseService _ w := Nat.le_refl w.serial

section Later

variable (hcode : env.code.Spares view)
include hcode

theorem later_governed :
    Governed env (fun _ _ => True) (fun _ => True) (fun _ _ => True) (Later : World σ → _) where
  toQueried := (respected_later hcode).queried
  within := env.directory.within_any
  init _ ref := (respected_later hcode).init _ ref _
  destroy _ := (respected_later hcode).destroy _ _
  dispose _ := (respected_later hcode).dispose _ _
  log w _ := Nat.le_refl w.serial
  count w := Nat.le_succ w.serial
  settings w _ _ _ := Nat.le_refl w.serial
  forgets w := Nat.le_refl w.serial
  attaches w _ := Nat.le_refl w.serial
  outside {w _} _ := Nat.le_refl w.serial
  enter w _ _ := Nat.le_refl w.serial
  entered _ _ _ := trivial
  table {w} _ _ _ := Nat.le_refl w.serial

theorem attach_serial (context : Context) (w : World σ) :
    Ends (attach env context) w fun _ w' => w.serial < w'.serial := by
  have h := respected_later hcode
  unfold attach
  simp only [ends_bind, ends_get, ends_newContext, ends_modify]
  have hrest := h.bind (h.noted (fun id => h.init id ⟨w.serial, context⟩) .initFailed (snapshot w))
    fun _ => h.note (.contextAttached context.name (snapshot w).length)
  exact hrest { w with serial := w.serial + 1, context := some ⟨w.serial, context⟩ }

theorem perform_later (op : Operation σ) : (perform env op).Respects Later :=
  fun _ => (later_governed hcode).perform trivial op

end Later

/-! ## Entries that are asked -/

section Consulting

variable {R : World σ → World σ → Prop} {allows : World σ → Source → Bool → Prop}

/-- Entries were consulted, and all else is within `R`. `allows` are the outcomes that a search for
a component of one source may have. -/
structure Consulting (R : World σ → World σ → Prop) (allows : World σ → Source → Bool → Prop)
    (w w' : World σ) : Prop where
  kept : Kept w w'
  within : R w w'
  consulted : ∀ id,
    Entry.Consulted w.context (allows w (w.entry id).source) (w.entry id) (w'.entry id)

/-- What a search may come to is known beforehand, and it stays the same along `R`. -/
structure Foreseen (env : Environment σ) (R : World σ → World σ → Prop)
    (allows : World σ → Source → Bool → Prop) : Prop extends Respected env R where
  steady {w w' : World σ} (h : R w w') : allows w' = allows w
  may (w : World σ) (id : EntryId) (source : Source) :
    MayYield env id (allows w source) w.outside source

namespace Consulting

theorem ofSame (hentries : w'.entries = w.entries) (hkept : Kept w w') (hwithin : R w w') :
    Consulting R allows w w' := by
  refine ⟨hkept, hwithin, fun id => ?_⟩
  rw [World.entry_congr hentries]
  exact .refl _

theorem ofFrame (hframe : Frame id w w') (hwithin : R w w')
    (h : Entry.Consulted w.context (allows w (w.entry id).source) (w.entry id) (w'.entry id)) :
    Consulting R allows w w' where
  kept := .ofFrame hframe
  within := hwithin
  consulted other := by
    by_cases ho : other = id
    · rw [ho]
      exact h
    · rw [hframe.others other ho]
      exact .refl _

end Consulting

theorem Foreseen.queried (h : Foreseen env R allows) (hcode : env.code.Spares view) :
    Queried env Ranged (fun w id => id < w.entries.length) (Consulting R allows) where
  refl w := .ofSame rfl ⟨rfl, rfl, rfl, rfl, rfl, rfl⟩ (h.refl w)
  trans {a b c} hfirst hlast := by
    refine ⟨hfirst.kept.trans hlast.kept, h.trans hfirst.within hlast.within, fun id => ?_⟩
    have hconsulted := hlast.consulted id
    rw [hfirst.kept.context, h.steady hfirst.within, (hfirst.consulted id).source] at hconsulted
    exact (hfirst.consulted id).trans hconsulted
  aside w inHand := .ofSame rfl ⟨rfl, rfl, rfl, rfl, rfl, rfl⟩ (h.aside w w.log inHand)
  stays h hid := by
    rw [h.kept.length]
    exact hid
  keeps h hranged := hranged.kept h.kept
  listed hranged := hranged
  component {w id} hid := by
    have hwithin : Ends (component env id) w fun _ w' => R w w' := h.component id w
    have hanswers := component_answers hcode hid (h.may w id (w.entry id).source)
    refine ((hwithin.and (component_spec hcode hid)).and hanswers).imp ?_
    rintro _ _ ⟨⟨hin, hmoves⟩, hanswer⟩
    exact .ofFrame hmoves.1.frame hin hanswer.consulted
  title {w id} hid := by
    have hwithin : Ends (title env id) w fun _ w' => R w w' := h.title id w
    have hentitled := title_entitled hcode hid (h.may w id (w.entry id).source)
    refine ((hwithin.and (title_spec hcode hid)).and hentitled).imp ?_
    rintro _ _ ⟨⟨hin, hmoves⟩, hentitled⟩
    exact .ofFrame hmoves.frame hin hentitled.consulted
  category {w id} hid := by
    have hwithin : Ends (category env id) w fun _ w' => R w w' := h.category id w
    have hcategorized := category_categorized hcode hid (h.may w id (w.entry id).source)
    refine ((hwithin.and (category_spec hcode hid)).and hcategorized).imp ?_
    rintro _ _ ⟨⟨hin, hmoves⟩, hcategorized⟩
    exact .ofFrame hmoves.frame hin hcategorized.consulted

end Consulting

structure Attended (w w' : World σ) : Prop where
  kept : Kept w w'
  later : Later w w'
  consulted : ∀ id, Entry.Consulted w.context (fun _ => True) (w.entry id) (w'.entry id)

abbrev Anyway (_ : World σ) (_ : Source) (_ : Bool) : Prop := True

theorem attended_iff : Attended w w' ↔ Consulting Later Anyway w w' :=
  ⟨fun h => ⟨h.kept, h.later, h.consulted⟩, fun h => ⟨h.kept, h.within, h.consulted⟩⟩

namespace Attended

theorem ofSame (hentries : w'.entries = w.entries) (hkept : Kept w w') (hlater : Later w w') :
    Attended w w' :=
  attended_iff.mpr (.ofSame hentries hkept hlater)

theorem refl (w : World σ) : Attended w w :=
  .ofSame rfl ⟨rfl, rfl, rfl, rfl, rfl, rfl⟩ (Nat.le_refl _)

end Attended

theorem foreseen_anyway {R : World σ → World σ → Prop} (h : Respected env R) :
    Foreseen env R Anyway where
  toRespected := h
  steady _ := rfl
  may w id source := mayYield_any env id w.outside source

theorem attended_queried (hcode : env.code.Spares view) :
    Queried env Ranged (fun w id => id < w.entries.length) Attended :=
  ((foreseen_anyway (respected_later hcode)).queried hcode).congr fun _ _ => attended_iff

theorem perform_attended (hcode : env.code.Spares view) (hranged : Ranged w) {op : Operation σ}
    (hasks : op.Asks) : Ends (perform env op) w fun _ w' => Attended w w' :=
  (attended_queried hcode).perform
    (fun _ _ _ _ _ _ => .ofSame rfl ⟨rfl, rfl, rfl, rfl, rfl, rfl⟩ (Nat.le_refl _)) hranged hasks
    op.calm_blind

/-! ## Entries that are left alone -/

theorem Visits.untouched {ids : List EntryId} (h : Visits env view ids w w') (hid : id ∉ ids) :
    w'.entry id = w.entry id := by
  induction h with
  | refl => rfl
  | tail _ hstep ih =>
    rw [← ih]
    cases hstep with
    | move hmem _ h => exact h.frame.others id fun heq => hid (heq ▸ hmem)
    | call | aside => rfl

theorem Visits.events_eq {ids : List EntryId} (h : Visits env view ids w w') (hid : id ∉ ids) :
    w'.eventsOf id = w.eventsOf id := by
  induction h with
  | refl => rfl
  | tail _ hstep ih =>
    rw [← ih]
    cases hstep with
    | move hmem _ h => exact h.frame.events id fun heq => hid (heq ▸ hmem)
    | call | aside => rfl

theorem Contest.untouched (h : Contest env view id w w') (hwins : loser id w ≠ some other) :
    w'.entry other = w.entry other := by
  refine h.visits.untouched fun hmem => ?_
  exact hwins (Option.mem_toList.mp hmem)

theorem Leaves.untouched {label : String} (h : Leaves env view label w w')
    (hstays : w.table.lookup label ≠ some id) : w'.entry id = w.entry id := by
  refine h.visits.untouched fun hmem => ?_
  exact hstays (Option.mem_toList.mp hmem)

/-! ## Every entry of the table -/

/-- Something was done to every entry of the table, and nothing to any other. -/
structure Throughout (F : Entry → Entry → Prop) (ids : List EntryId) (w w' : World σ) : Prop where
  kept : Kept w w'
  inside : ∀ id ∈ ids, F (w.entry id) (w'.entry id)
  outside : ∀ id, id ∉ ids → w'.entry id = w.entry id

theorem forM_throughout {F : Entry → Entry → Prop} {ids : List EntryId}
    {f : EntryId → Act σ Unit} (htrans : ∀ {a b c}, F a b → F b c → F a c)
    (hf : ∀ id ∈ ids, ∀ w', Kept w w' →
      Ends (f id) w' fun _ w'' => Frame id w' w'' ∧ F (w'.entry id) (w''.entry id)) :
    Ends (ids.forM f) w fun _ w' => Throughout F ids w w' := by
  induction ids generalizing w with
  | nil =>
    exact ⟨⟨rfl, rfl, rfl, rfl, rfl, rfl⟩, fun id hmem => absurd hmem List.not_mem_nil,
      fun _ _ => rfl⟩
  | cons id rest ih =>
    show Ends (f id >>= fun _ => rest.forM f) w _
    rw [ends_bind]
    refine (hf id List.mem_cons_self w ⟨rfl, rfl, rfl, rfl, rfl, rfl⟩).imp fun _ w₁ hfirst => ?_
    obtain ⟨hframe, hF⟩ := hfirst
    have hkept : Kept w w₁ := .ofFrame hframe
    have hrest : Ends (rest.forM f) w₁ fun _ w' => Throughout F rest w₁ w' :=
      ih fun other hmem w₂ hkept₂ => hf other (List.mem_cons_of_mem _ hmem) w₂ (hkept.trans hkept₂)
    refine hrest.imp fun _ w₂ h => ⟨hkept.trans h.kept, fun other hmem => ?_, fun other hmem => ?_⟩
    · by_cases hother : other ∈ rest
      · by_cases ho : other = id
        · subst ho
          exact htrans hF (h.inside other hother)
        · rw [← hframe.others other ho]
          exact h.inside other hother
      · obtain rfl : other = id := (List.mem_cons.mp hmem).resolve_right hother
        rw [h.outside other hother]
        exact hF
    · obtain ⟨ho, hother⟩ := not_or.mp (fun hor => hmem (List.mem_cons.mpr hor))
      rw [h.outside other hother]
      exact hframe.others other ho

theorem noted_throughout {F : Entry → Entry → Prop} {ids : List EntryId}
    {f : EntryId → Act σ (Except Fault Unit)} (notice : String → String → Notice)
    (htrans : ∀ {a b c}, F a b → F b c → F a c)
    (hf : ∀ id ∈ ids, ∀ w', Kept w w' →
      Ends (f id) w' fun _ w'' => Frame id w' w'' ∧ F (w'.entry id) (w''.entry id)) :
    Ends (holding ids (ids.forM fun id => do
      match ← f id with
      | .error fault => note (notice (← entry id).label fault.message)
      | .ok () => return ())) w fun _ w' => Throughout F ids w w' := by
  rw [ends_holding]
  have hall : Ends (ids.forM fun id => do
      match ← f id with
      | .error fault => note (notice (← entry id).label fault.message)
      | .ok () => return ()) { w with inHand := ids ++ w.inHand } fun _ w' =>
        Throughout F ids { w with inHand := ids ++ w.inHand } w' := by
    refine forM_throughout htrans fun id hmem w₁ hkept => ?_
    rw [ends_bind]
    refine (hf id hmem w₁ ?_).imp ?_
    · exact ⟨hkept.table, hkept.defaultLabel, hkept.subscription, hkept.context, hkept.keepers,
        hkept.length⟩
    rintro (fault | _) w₂ ⟨hframe, hF⟩
    · simp only [ends_bind, ends_entry, ends_note]
      exact ⟨hframe.trans (Frame.aside _ w₂.serial w₂.inHand w₂), hF⟩
    · exact ⟨hframe, hF⟩
  refine hall.imp fun _ w' h => ⟨?_, h.inside, h.outside⟩
  exact ⟨h.kept.table, h.kept.defaultLabel, h.kept.subscription, h.kept.context, h.kept.keepers,
    h.kept.length⟩

/-- A context that is attached reaches every entry of the table. -/
theorem attach_throughout (hcode : env.code.Spares view) (hranged : Ranged w) (context : Context) :
    Ends (attach env context) w fun _ w' =>
      Throughout (Entry.Attached ⟨w.serial, context⟩) (snapshot w)
        { w with serial := w.serial + 1, context := some ⟨w.serial, context⟩ } w' := by
  unfold attach
  simp only [ends_bind, ends_get, ends_newContext, ends_modify]
  generalize hw₁ : ({ w with
    serial := w.serial + 1, context := some ⟨w.serial, context⟩ } : World σ) = w₁
  have hall : Ends (holding (snapshot w) ((snapshot w).forM fun id => do
      match ← Lifecycle.init env id ⟨w.serial, context⟩ with
      | .error fault => note (.initFailed (← entry id).label fault.message)
      | .ok () => return ())) w₁ fun _ w' =>
        Throughout (Entry.Attached ⟨w.serial, context⟩) (snapshot w) w₁ w' := by
    refine noted_throughout .initFailed (fun h h' => h.trans h') fun id hmem w₂ hkept => ?_
    have hid : id < w₂.entries.length := by
      rw [hkept.length, ← hw₁]
      exact hranged id hmem
    have hcontext : w₂.context = some ⟨w.serial, context⟩ := by
      rw [hkept.context, ← hw₁]
    refine ((init_spec hcode hid hcontext).and (init_entry hcode hid hcontext)).imp ?_
    rintro _ _ ⟨hmoves, h⟩
    exact ⟨hmoves.frame, h⟩
  refine hall.imp fun _ w' h => ⟨?_, h.inside, h.outside⟩
  exact ⟨h.kept.table, h.kept.defaultLabel, h.kept.subscription, h.kept.context, h.kept.keepers,
    h.kept.length⟩

theorem detach_throughout (hcode : env.code.Spares view) (hranged : Ranged w) :
    Ends (detach env) w fun _ w' =>
      Throughout Entry.Detached (snapshot w) { w with context := none } w' := by
  unfold detach
  simp only [ends_bind, ends_get]
  have hall : Ends (holding (snapshot w) ((snapshot w).forM fun id => do
      match ← Lifecycle.destroy env id with
      | .error fault => note (.teardownFailed (← entry id).label fault.message)
      | .ok () => return ())) w fun _ w' => Throughout Entry.Detached (snapshot w) w w' := by
    refine noted_throughout .teardownFailed (fun h h' => h.trans h') fun id hmem w₁ hkept => ?_
    have hid : id < w₁.entries.length := by
      rw [hkept.length]
      exact hranged id hmem
    refine ((destroy_spec hcode id w₁).and (destroy_entry hcode hid)).imp ?_
    rintro _ _ ⟨hmoves, h⟩
    exact ⟨hmoves.frame, h⟩
  refine hall.imp fun _ w' h => ⟨?_, h.inside, h.outside⟩
  exact ⟨h.kept.table, h.kept.defaultLabel, h.kept.subscription, rfl, h.kept.keepers, h.kept.length⟩

end PluginConsole.Registry
