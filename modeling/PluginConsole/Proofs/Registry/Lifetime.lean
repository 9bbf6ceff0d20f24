import PluginConsole.Proofs.Lifecycle.Trace
import PluginConsole.Proofs.Registry.Govern
import PluginConsole.Proofs.Registry.Step
import PluginConsole.Site

/-!
# The lifetime of an entry

Runs of a registry, and what every run makes of one entry: a well bracketed trace, which
ends when the entry is disposed.
-/

open Relation (ReflTransGen)

namespace PluginConsole.Registry

open Act Lifecycle

variable {σ δ : Type}

/-! ## Runs -/

/-- What may be asked of an entry by somebody who holds on to it. -/
inductive EntryCall where
  | component
  | title
  | category
  | init (ref : ContextRef)
  | destroy
  | dispose

inductive Call (σ : Type) where
  | registry (op : Operation σ)
  /-- An entry is made that no label leads to yet. -/
  | make (label : String) (source : Source)
  | register (id : EntryId)
  | entry (id : EntryId) (call : EntryCall)
  /-- Anything that happens around the registry. -/
  | around (f : σ → σ)

variable (env : Environment σ)

def serveEntry (id : EntryId) : EntryCall → Act σ Unit
  | .component => discard (component env id)
  | .title => discard (title env id)
  | .category => discard (category env id)
  | .init ref => discard (init env id ref)
  | .destroy => discard (destroy env id)
  | .dispose => dispose env id

/-- Nobody holds on to an entry that was never made. -/
def ifMade (id : EntryId) (step : Act σ Unit) : Act σ Unit := do
  if id < (← get).entries.length then
    step

def serve : Call σ → Act σ Unit
  | .registry op => perform env op
  | .make label source => discard (newEntry { label, source })
  | .register id => ifMade id (register env id)
  | .entry id call => ifMade id (serveEntry env id call)
  | .around f => modify fun w => w.withOutside (f w.outside)

def run (calls : List (Call σ)) (w : World σ) : World σ :=
  calls.foldl (fun w call => (serve env call w).2) w

namespace Call

/-- Components are initialized by the registry alone, against the attached context. -/
def Ordinary : Call σ → Prop
  | .entry _ (.init _) => False
  | _ => True

def On (id : EntryId) : Call σ → Prop
  | .entry other _ => other = id
  | _ => False

end Call

variable {env} {view : σ → δ} {own : σ → σ → Prop} {id : EntryId} {w w' : World σ}

theorem run_keeps (inv : World σ → Prop) {admits : Call σ → Prop}
    (hstep : ∀ w call, admits call → inv w → Ends (serve env call) w fun _ w' => inv w')
    {calls : List (Call σ)} (hcalls : ∀ call ∈ calls, admits call) (h : inv w) :
    inv (run env calls w) := by
  induction calls generalizing w with
  | nil => exact h
  | cons call rest ih =>
    have hfirst := hstep w call (hcalls call List.mem_cons_self) h
    exact ih (fun other hmem => hcalls other (List.mem_cons_of_mem _ hmem)) hfirst

theorem run_nil (w : World σ) : run env [] w = w := rfl

theorem run_concat (done : List (Call σ)) (call : Call σ) (w : World σ) :
    run env (done ++ [call]) w = (serve env call (run env done w)).2 := by
  unfold run
  rw [List.foldl_concat]

theorem run_append (done rest : List (Call σ)) (w : World σ) :
    run env (done ++ rest) w = run env rest (run env done w) :=
  List.foldl_append

theorem ifMade_of_lt {step : Act σ Unit} (hid : id < w.entries.length) :
    ifMade id step w = step w := by
  show (if id < w.entries.length then step else pure ()) w = step w
  rw [if_pos hid]

theorem ends_ifMade {post : Unit → World σ → Prop} {step : Act σ Unit}
    (hmade : id < w.entries.length → Ends step w post) (hunmade : post () w) :
    Ends (ifMade id step) w post := by
  unfold ifMade
  simp only [ends_bind, ends_get]
  split
  · rename_i hid
    exact hmade hid
  · exact hunmade

namespace Governed

variable {ready : World σ → Prop} {may : World σ → EntryId → Prop} {R : World σ → World σ → Prop}
variable (h : Governed env (fun _ _ => True) ready may R)
include h

theorem serveEntry (hmay : may w id) (call : EntryCall) :
    Ends (serveEntry env id call) w fun _ w' => R w w' := by
  cases call with
  | component => exact h.component hmay
  | title => exact h.title hmay
  | category => exact h.category hmay
  | init ref => exact h.init hmay ref
  | destroy => exact h.destroy hmay
  | dispose => exact h.dispose hmay

variable (hmade : ∀ {w id}, ready w → id < w.entries.length → may w id)
include hmade

theorem serve (hready : ready w) (call : Call σ) :
    Ends (serve env call) w fun _ w' => R w w' := by
  cases call with
  | registry op => exact h.perform hready op
  | make label source => exact h.enter w label source
  | register id => exact ends_ifMade (fun hid => h.register hready (hmade hready hid)) (h.refl w)
  | entry id call =>
    exact ends_ifMade (fun hid => h.serveEntry (hmade hready hid) call) (h.refl w)
  | around f => exact h.outside trivial

theorem run (hready : ready w) (calls : List (Call σ)) : R w (run env calls w) := by
  induction calls generalizing w with
  | nil => exact h.refl w
  | cons call rest ih =>
    have hfirst := h.serve hmade hready call
    exact h.trans hfirst (ih (h.keeps hfirst hready))

end Governed

theorem serveEntry_moves (hcode : env.code.Spares view) (hid : id < w.entries.length)
    {call : EntryCall} (hcall : ∀ ref, call ≠ .init ref) :
    Ends (serveEntry env id call) w fun _ w' => Moves env view id w w' := by
  cases call with
  | component => exact (component_spec hcode hid).imp fun _ _ h => h.1
  | title => exact title_spec hcode hid
  | category => exact category_spec hcode hid
  | init ref => exact absurd rfl (hcall ref)
  | destroy => exact destroy_spec hcode id w
  | dispose => exact (dispose_moves hcode hid).imp fun _ _ h => h.1

theorem init_of_cold (hcold : (w.entry id).warm = none) (ref : ContextRef) :
    Ends (init env id ref) w fun _ w' => w' = w := by
  unfold init
  simp only [ends_bind, ends_entry, hcold, ends_pure]

abbrev Anyhow (_ _ : σ) : Prop := True

theorem serve_steps (hcode : env.code.Spares fun _ : σ => ()) (hranged : Ranged w) {call : Call σ}
    (hcall : call.Ordinary) :
    Ends (serve env call) w fun _ w' => Steps env (fun _ => ()) Anyhow w w' := by
  cases call with
  | registry op =>
    exact (perform_changes env.directory.within_any hcode hranged op op.calm_blind).imp
      fun _ _ h => h.steps hranged
  | make label source => exact .single (.enter w label source)
  | register id =>
    refine ends_ifMade (fun hid => ?_) .refl
    exact (register_spec hcode hid hranged).imp fun _ _ h => h.steps hid hranged
  | entry id call =>
    refine ends_ifMade (fun hid => ?_) .refl
    have hno : ∀ ref, call ≠ .init ref := by
      rintro ref rfl
      exact hcall
    refine (serveEntry_moves hcode hid hno).imp fun _ _ h => ?_
    exact (Visits.ofMoves (List.mem_singleton_self id) hid h).steps
  | around f => exact .single (.outside trivial)

/-! ## One entry -/

structure Traced (w : World σ) : Prop where
  ranged : Ranged w
  onCourse : ∀ id, OnCourse id w
  unborn : ∀ id, w.entries.length ≤ id → w.eventsOf id = []

theorem traced_fresh (s : σ) : Traced ({ outside := s } : World σ) where
  ranged _ hmem := absurd hmem List.not_mem_nil
  onCourse _ := ⟨.nil, rfl⟩
  unborn _ _ := rfl

theorem Visit.traced {ids : List EntryId} (h : Visit env view ids w w') (htraced : Traced w) :
    Traced w' := by
  have hranged := htraced.ranged.kept h.kept
  cases h with
  | @move _ id hmem hid h =>
    have hframe := h.frame
    refine ⟨hranged, fun other => ?_, fun other hother => ?_⟩
    · by_cases ho : other = id
      · subst ho
        exact h.onCourse hid (htraced.onCourse other)
      · have hcourse := htraced.onCourse other
        constructor <;> rw [hframe.events other ho]
        · exact hcourse.bracketed
        · rw [hframe.others other ho]
          exact hcourse.fits
    · rw [hframe.length] at hother
      have hne : other ≠ id := by
        rintro rfl
        exact absurd hid (Nat.not_lt.mpr hother)
      rw [hframe.events other hne]
      exact htraced.unborn other hother
  | call | aside =>
    exact ⟨hranged, fun other => ⟨(htraced.onCourse other).bracketed, (htraced.onCourse other).fits⟩,
      htraced.unborn⟩

theorem Step.traced (h : Step env view own w w') (htraced : Traced w) : Traced w' := by
  have hranged := h.ranged htraced.ranged
  cases h with
  | visit h => exact h.traced htraced
  | enter label source =>
    refine ⟨hranged, fun other => ?_, fun other hother => ?_⟩
    · by_cases ho : other < w.entries.length
      · have hcourse := htraced.onCourse other
        refine ⟨hcourse.bracketed, ?_⟩
        rw [World.entry_entered_of_lt ho]
        exact hcourse.fits
      · have hunborn : (w.entered { label, source }).eventsOf other = [] :=
          htraced.unborn other (Nat.not_lt.mp ho)
        constructor <;> rw [hunborn]
        · exact .nil
        · show ((w.entered { label, source }).entry other).warm = none
          rcases Nat.lt_or_eq_of_le (Nat.not_lt.mp ho) with hlt | rfl
          · have hnone : (w.entered { label, source }).entries.length ≤ other := by
              rw [World.length_entered]
              exact hlt
            rw [World.entry_of_le hnone]
            rfl
          · rw [World.entry_entered_self]
    · rw [World.length_entered] at hother
      exact htraced.unborn other (by omega)
  | arrange | outside =>
    exact ⟨hranged, fun other => ⟨(htraced.onCourse other).bracketed, (htraced.onCourse other).fits⟩,
      htraced.unborn⟩

theorem Steps.traced (h : Steps env view own w w') (htraced : Traced w) : Traced w' := by
  induction h with
  | refl => exact htraced
  | tail _ hstep ih => exact hstep.traced ih

/-! ## Every run -/

section Runs

variable (hcode : env.code.Spares fun _ : σ => ())
include hcode

theorem run_traced {calls : List (Call σ)} (hcalls : ∀ call ∈ calls, call.Ordinary)
    (htraced : Traced w) : Traced (run env calls w) :=
  run_keeps Traced (fun _ _ hcall htraced => (serve_steps hcode htraced.ranged hcall).imp
    fun _ _ h => h.traced htraced) hcalls htraced

/-- An entry that is over does nothing any more, whatever is asked of it. -/
theorem run_over {calls : List (Call σ)} (hcalls : ∀ call ∈ calls, call.Ordinary ∨ call.On id)
    (hranged : Ranged w) (hid : id < w.entries.length) (hover : Over id w) :
    Over id (run env calls w) ∧ (run env calls w).eventsOf id = w.eventsOf id := by
  have hkept : Ranged (run env calls w) ∧ id < (run env calls w).entries.length ∧
      Over id (run env calls w) ∧ (run env calls w).eventsOf id = w.eventsOf id := by
    refine run_keeps (fun w' => Ranged w' ∧ id < w'.entries.length ∧ Over id w' ∧
      w'.eventsOf id = w.eventsOf id) ?_ hcalls ⟨hranged, hid, hover, rfl⟩
    rintro w₁ call hcall ⟨hranged₁, hid₁, hover₁, hevents₁⟩
    have hordinary (h : call.Ordinary) : Ends (serve env call) w₁ fun _ w' => Ranged w' ∧
        id < w'.entries.length ∧ Over id w' ∧ w'.eventsOf id = w.eventsOf id := by
      refine (serve_steps hcode hranged₁ h).imp fun _ w₂ hsteps => ?_
      obtain ⟨hover₂, hevents₂⟩ := hsteps.grown.ended id hid₁ hover₁
      exact ⟨hsteps.ranged hranged₁, hid₁.trans_le hsteps.grown.length, hover₂,
        hevents₂.trans hevents₁⟩
    by_cases h : call.Ordinary
    · exact hordinary h
    -- Only an initialization is left, and there is nothing to initialize.
    cases call with
    | registry | make | register | around => exact absurd trivial h
    | entry other entryCall =>
      obtain rfl : other = id := hcall.resolve_left h
      cases entryCall with
      | init ref =>
        refine ends_ifMade (fun _ => ?_) ⟨hranged₁, hid₁, hover₁, hevents₁⟩
        rw [serveEntry, ends_discard]
        refine (init_of_cold hover₁.cold ref).imp fun _ w₂ hw₂ => ?_
        subst hw₂
        exact ⟨hranged₁, hid₁, hover₁, hevents₁⟩
      | component | title | category | destroy | dispose => exact absurd trivial h
  exact hkept.2.2

theorem dispose_events (hcourse : OnCourse id w) :
    Ends (dispose env id) w fun _ w' => ∃ handover : List EntryEvent,
      (∀ event ∈ handover, event.IsHandover) ∧
        w'.eventsOf id = w.eventsOf id ++ (phase (w.eventsOf id)).farewell ++ handover := by
  refine (dispose_spec hcode id w).imp fun _ w' h => ?_
  obtain ⟨w₁, hparting, hidle⟩ := h
  rw [Idles.events hidle]
  exact hparting.events hcourse

/-- Whatever is done with a registry, each entry deals with its component in a well bracketed
trace. A disposal completes the trace and ends it for good. -/
theorem run_wellBracketed (s : σ) (calls : List (Call σ))
    (hcalls : ∀ call ∈ calls, call.Ordinary) (id : EntryId) :
    let w := run env calls { outside := s }
    WellBracketed (w.eventsOf id) ∧
    (∃ handover : List EntryEvent, (∀ event ∈ handover, event.IsHandover) ∧
      (dispose env id w).2.eventsOf id =
        w.eventsOf id ++ (phase (w.eventsOf id)).farewell ++ handover) ∧
    ((w.entry id).disposed = true →
      (∀ c bound, phase (w.eventsOf id) ≠ .held c bound) ∧
      ∀ later : List (Call σ), (∀ call ∈ later, call.Ordinary ∨ call.On id) →
        let w' := run env later w
        w'.eventsOf id = w.eventsOf id ∧ (w'.entry id).warm = none ∧
          (component env id w').1 = none) := by
  intro w
  have htraced : Traced w := run_traced hcode hcalls (traced_fresh s)
  have hcourse := htraced.onCourse id
  refine ⟨hcourse.bracketed, dispose_events hcode hcourse, fun hdisposed => ?_⟩
  have hleft : ∀ c bound, phase (w.eventsOf id) ≠ .held c bound := by
    intro c bound hphase
    have hfits := hcourse.fits
    rw [hphase] at hfits
    rw [hfits.1] at hdisposed
    cases hdisposed
  refine ⟨hleft, fun later hlater => ?_⟩
  have hid : id < w.entries.length := by
    by_contra hout
    rw [World.entry_of_le (Nat.not_lt.mp hout)] at hdisposed
    cases hdisposed
  have hcold : (w.entry id).warm = none := by
    cases hwarm : (w.entry id).warm with
    | none => rfl
    | some x => exact absurd (hcourse.fits.eq_held hwarm).1 (hleft _ _)
  obtain ⟨hover, hevents⟩ := run_over hcode hlater htraced.ranged hid ⟨hdisposed, hcold⟩
  refine ⟨hevents, hover.cold, ?_⟩
  have hnone : component env id (run env later w) = (none, run env later w) :=
    componentNamed_of_disposed _ hover.disposed
  rw [hnone]

end Runs

def oneVisit : List (Call (Site Unit)) :=
  [.registry (.addDirect "f" "a"), .registry (.setContext (some ⟨"c", []⟩)),
    .registry (.lookup "a"), .entry 0 .dispose]

theorem oneVisit_wellBracketed :
    let c : Component := .plugin (.made "f" 0)
    let ref : ContextRef := ⟨0, ⟨"c", []⟩⟩
    let w := run (Site.environment PluginCode.still) oneVisit { outside := ⟨{}, ⟨"", []⟩, ()⟩ }
    (PluginCode.still : PluginCode (Site Unit)).Spares (fun _ => ()) ∧
      (∀ call ∈ oneVisit, call.Ordinary) ∧
      w.eventsOf 0 = [.create "f", .activate (.made "f" 0), .activated (.made "f" 0), .acquired c,
        .title c, .init c ref ⟨"a", ref.context, none⟩, .destroy c, .released c,
        .deactivate (.made "f" 0)] ∧
      WellBracketed (w.eventsOf 0) ∧
      ∀ later : List (Call (Site Unit)), (∀ call ∈ later, call.Ordinary ∨ call.On 0) →
        (run (Site.environment PluginCode.still) later w).eventsOf 0 = w.eventsOf 0 := by
  intro c ref w
  have hordinary : ∀ call ∈ oneVisit, call.Ordinary := by simp [oneVisit, Call.Ordinary]
  have hstill : (Site.environment PluginCode.still).code.Spares fun _ : Site Unit => () :=
    PluginCode.still_spares _
  have hrun := run_wellBracketed hstill ⟨{}, ⟨"", []⟩, ()⟩ oneVisit hordinary 0
  refine ⟨PluginCode.still_spares _, hordinary, rfl, hrun.1, fun later hlater => ?_⟩
  exact ((hrun.2.2 rfl).2 later hlater).1

end PluginConsole.Registry
