import PluginConsole.Proofs.Lifecycle.Course

/-!
# The trace of an entry

A trace is well bracketed if the component is found before anything is done with it, every
initialization is undone before the component is given up, and nothing comes after that.
-/

open Relation (ReflTransGen)

namespace PluginConsole

/-! ## Phases -/

/-- How far a trace has come. -/
inductive Phase where
  | fresh
  /-- The component is there, with the context of the last initialization not undone. -/
  | held (c : Component) (bound : Option Nat)
  | gone

namespace Phase

def advance : Phase → EntryEvent → Phase
  | .fresh, .acquired c => .held c none
  | .held c _, .init _ ref _ => .held c (some ref.serial)
  | .held c _, .destroy _ => .held c none
  | .held _ _, .released _ => .gone
  | p, _ => p

/-- What is left to do with the component when the entry is disposed. -/
def farewell : Phase → List EntryEvent
  | .held c (some _) => [.destroy c, .released c]
  | .held c none => [.released c]
  | _ => []

def Fits (e : Entry) : Phase → Prop
  | .fresh => e.warm = none
  | .held c bound => e.disposed = false ∧
    ∃ x, e.warm = some x ∧ x.component = c ∧ x.bound.map (·.serial) = bound
  | .gone => e.disposed = true ∧ e.warm = none

end Phase

def phase (trace : List EntryEvent) : Phase :=
  trace.foldl Phase.advance .fresh

/-- What may come next, by the component and the context that it concerns. -/
def Permitted (p : Phase) : EntryEvent → Prop
  | .acquired _ => p = .fresh
  | .title c | .category c => ∃ bound, p = .held c bound
  | .init c ref _ => ∃ bound, p = .held c bound ∧ bound ≠ some ref.serial
  | .destroy c => ∃ serial, p = .held c (some serial)
  | .released c => p = .held c none
  | _ => True

def WellBracketed (trace : List EntryEvent) : Prop :=
  ∀ before event after, trace = before ++ event :: after → Permitted (phase before) event

/-- What follows the release: the object goes back, or the hold does. -/
def EntryEvent.IsHandover : EntryEvent → Prop
  | .deactivate _ | .giveBack _ => True
  | _ => False

def EntryEvent.IsApart : EntryEvent → Prop
  | .create _ | .activate _ | .activated _ | .deactivate _ | .giveBack _ => True
  | _ => False

theorem EntryEvent.IsHandover.isApart {event : EntryEvent} (h : event.IsHandover) :
    event.IsApart := by
  cases event <;> first | exact trivial | exact absurd h id

/-! ## One event more -/

theorem permitted_apart {event : EntryEvent} (h : event.IsApart) (p : Phase) :
    Permitted p event := by
  cases event <;> first | exact trivial | exact absurd h id

theorem advance_apart {event : EntryEvent} (h : event.IsApart) (p : Phase) :
    p.advance event = p := by
  cases event <;> first | exact absurd h id | (cases p <;> rfl)

theorem phase_snoc (trace : List EntryEvent) (event : EntryEvent) :
    phase (trace ++ [event]) = (phase trace).advance event := by
  simp [phase]

theorem WellBracketed.nil : WellBracketed [] := by
  intro before event after h
  simp at h

theorem WellBracketed.snoc {trace : List EntryEvent} (h : WellBracketed trace)
    {event : EntryEvent} (hevent : Permitted (phase trace) event) :
    WellBracketed (trace ++ [event]) :=
  split_snoc h hevent

theorem Phase.Fits.slot {a b : Entry} {p : Phase} (h : p.Fits a) (hslot : Entry.SameSlot a b) :
    p.Fits b := by
  cases p with
  | fresh => exact hslot.warm.trans h
  | held c bound =>
    obtain ⟨hlive, x, hwarm, hx⟩ := h
    exact ⟨hslot.disposed.trans hlive, x, hslot.warm.trans hwarm, hx⟩
  | gone => exact ⟨hslot.disposed.trans h.1, hslot.warm.trans h.2⟩

theorem Phase.Fits.eq_fresh {e : Entry} {p : Phase} (h : p.Fits e) (hcold : e.warm = none)
    (hlive : e.disposed = false) : p = .fresh := by
  cases p with
  | fresh => rfl
  | held c bound =>
    obtain ⟨-, x, hwarm, -⟩ := h
    rw [hcold] at hwarm
    cases hwarm
  | gone =>
    have hdisposed := h.1
    rw [hlive] at hdisposed
    cases hdisposed

theorem Phase.Fits.eq_held {e : Entry} {p : Phase} (h : p.Fits e) {x : Warm}
    (hwarm : e.warm = some x) :
    p = .held x.component (x.bound.map (·.serial)) ∧ e.disposed = false := by
  cases p with
  | fresh =>
    rw [show e.warm = none from h] at hwarm
    cases hwarm
  | held c bound =>
    obtain ⟨hlive, y, hy, rfl, rfl⟩ := h
    rw [hy] at hwarm
    cases hwarm
    exact ⟨rfl, hlive⟩
  | gone =>
    rw [h.2] at hwarm
    cases hwarm

namespace Lifecycle

variable {σ δ : Type} {env : Environment σ} {view : σ → δ} {id : EntryId} {w w' : World σ}

structure OnCourse (id : EntryId) (w : World σ) : Prop where
  bracketed : WellBracketed (w.eventsOf id)
  fits : (phase (w.eventsOf id)).Fits (w.entry id)

theorem bracketed_recorded (h : WellBracketed (w.eventsOf id)) {event : EntryEvent}
    (hevent : Permitted (phase (w.eventsOf id)) event) :
    WellBracketed ((w.recorded id event).eventsOf id) := by
  rw [World.eventsOf_recorded_self]
  exact h.snoc hevent

theorem phase_recorded (event : EntryEvent) (w : World σ) :
    phase ((w.recorded id event).eventsOf id) = (phase (w.eventsOf id)).advance event := by
  rw [World.eventsOf_recorded_self, phase_snoc]

/-! ## Moves -/

theorem Idle.events (h : Idle view id w w') : w'.eventsOf id = w.eventsOf id := by
  cases h <;> rfl

theorem Idles.events (h : ReflTransGen (Idle view id) w w') : w'.eventsOf id = w.eventsOf id := by
  induction h with
  | refl => rfl
  | tail _ hstep ih => exact hstep.events.trans ih

theorem OnCourse.idle (h : OnCourse id w) (hidle : Idle view id w w') : OnCourse id w' := by
  constructor <;> rw [hidle.events]
  · exact h.bracketed
  · exact h.fits.slot hidle.slot

theorem OnCourse.recorded (h : OnCourse id w) {event : EntryEvent}
    (hevent : Permitted (phase (w.eventsOf id)) event)
    (hstay : (phase (w.eventsOf id)).advance event = phase (w.eventsOf id)) :
    OnCourse id (w.recorded id event) := by
  refine ⟨bracketed_recorded h.bracketed hevent, ?_⟩
  rw [phase_recorded, hstay]
  exact h.fits

theorem OnCourse.apart (h : OnCourse id w) {event : EntryEvent} (hapart : event.IsApart) :
    OnCourse id (w.recorded id event) :=
  h.recorded (permitted_apart hapart _) (advance_apart hapart _)

theorem Acquired.phase {c : Component} (h : Acquired env id c w w')
    (hbracketed : WellBracketed (w.eventsOf id)) :
    WellBracketed (w'.eventsOf id) ∧
      PluginConsole.phase (w'.eventsOf id) = PluginConsole.phase (w.eventsOf id) := by
  cases h with
  | plugin | handler | made => exact ⟨hbracketed, rfl⟩
  | activated object hsource =>
    have hapart : (EntryEvent.activated object).IsApart := trivial
    rw [World.eventsOf_modifyEntry]
    refine ⟨bracketed_recorded hbracketed trivial, ?_⟩
    rw [phase_recorded, advance_apart hapart]

theorem Naming.phase {c : Component} (h : ReflTransGen (Naming view id c) w w')
    (hbracketed : WellBracketed (w.eventsOf id)) {bound : Option Nat}
    (hphase : phase (w.eventsOf id) = .held c bound) :
    WellBracketed (w'.eventsOf id) ∧ PluginConsole.phase (w'.eventsOf id) = .held c bound := by
  induction h with
  | refl => exact ⟨hbracketed, hphase⟩
  | tail _ hstep ih =>
    obtain ⟨hb, hp⟩ := ih
    cases hstep with
    | idle h =>
      rw [h.events]
      exact ⟨hb, hp⟩
    | ask =>
      refine ⟨bracketed_recorded hb ⟨bound, hp⟩, ?_⟩
      rw [phase_recorded, hp]
      rfl

theorem Released.events {c : Component} (h : Released env id c w w') :
    ∃ handover : List EntryEvent, (∀ event ∈ handover, event.IsHandover) ∧
      w'.eventsOf id = w.eventsOf id ++ .released c :: handover := by
  cases h with
  | @directory r hsource => exact ⟨[.giveBack r], by simp [EntryEvent.IsHandover], by simp⟩
  | direct => exact ⟨[], by simp, by simp⟩
  | deactivated object hsource =>
    exact ⟨[.deactivate object], by simp [EntryEvent.IsHandover], by simp⟩

/-- A disposal does what is left to do, and then hands over what was borrowed. -/
theorem Parting.events (h : Parting env view id w w') (hcourse : OnCourse id w) :
    ∃ handover : List EntryEvent, (∀ event ∈ handover, event.IsHandover) ∧
      w'.eventsOf id = w.eventsOf id ++ (phase (w.eventsOf id)).farewell ++ handover := by
  cases h with
  | cold hcold =>
    refine ⟨[], by simp, ?_⟩
    have hfarewell : (phase (w.eventsOf id)).farewell = [] := by
      have hfits := hcourse.fits
      cases hp : phase (w.eventsOf id) with
      | fresh | gone => rfl
      | held c bound =>
        rw [hp] at hfits
        obtain ⟨-, x, hwarm, -⟩ := hfits
        rw [hcold] at hwarm
        cases hwarm
    rw [hfarewell]
    simp
  | unbound hwarm h =>
    obtain ⟨handover, hhandover, hevents⟩ := h.events
    rw [(hcourse.fits.eq_held hwarm).1]
    refine ⟨handover, hhandover, ?_⟩
    rw [hevents]
    simp [Phase.farewell]
  | bound hwarm hidle h =>
    obtain ⟨handover, hhandover, hevents⟩ := h.events
    rw [(hcourse.fits.eq_held hwarm).1]
    refine ⟨handover, hhandover, ?_⟩
    rw [hevents, Idles.events hidle, World.eventsOf_recorded_self]
    simp [Phase.farewell]

theorem bracketed_handover {trace handover : List EntryEvent} (h : WellBracketed trace)
    (hhandover : ∀ event ∈ handover, event.IsHandover) :
    WellBracketed (trace ++ handover) ∧ phase (trace ++ handover) = phase trace := by
  induction handover generalizing trace with
  | nil => simpa using h
  | cons event rest ih =>
    have hapart := (hhandover event List.mem_cons_self).isApart
    have hstay : phase (trace ++ [event]) = phase trace := by
      rw [phase_snoc, advance_apart hapart]
    rw [List.append_cons, ← hstay]
    exact ih (h.snoc (permitted_apart hapart _)) fun other hmem =>
      hhandover other (List.mem_cons_of_mem _ hmem)

theorem bracketed_farewell {trace : List EntryEvent} (h : WellBracketed trace) :
    WellBracketed (trace ++ (phase trace).farewell) ∧
      ∀ c bound, phase (trace ++ (phase trace).farewell) ≠ .held c bound := by
  cases hphase : phase trace with
  | fresh | gone => simpa [Phase.farewell, hphase] using h
  | held c bound =>
    cases bound with
    | none =>
      refine ⟨h.snoc hphase, ?_⟩
      rw [Phase.farewell, phase_snoc, hphase]
      rintro _ _ ⟨⟩
    | some serial =>
      have hpermitted : Permitted (phase trace) (.destroy c) := ⟨serial, hphase⟩
      have hdestroyed : phase (trace ++ [.destroy c]) = .held c none := by
        rw [phase_snoc, hphase]
        rfl
      have hsplit : trace ++ (Phase.held c (some serial)).farewell =
          trace ++ [.destroy c] ++ [.released c] := by simp [Phase.farewell]
      rw [hsplit]
      refine ⟨(h.snoc hpermitted).snoc hdestroyed, ?_⟩
      rw [phase_snoc, hdestroyed]
      rintro _ _ ⟨⟩

theorem Parting.onCourse (h : Parting env view id w w') (hid : id < w.entries.length)
    (hcourse : OnCourse id w) : OnCourse id w' := by
  have hover := h.ended hid
  obtain ⟨handover, hhandover, hevents⟩ := h.events hcourse
  obtain ⟨hfarewell, hleft⟩ := bracketed_farewell hcourse.bracketed
  obtain ⟨hbracketed, hphase⟩ := bracketed_handover hfarewell hhandover
  rw [← hevents] at hbracketed hphase
  rw [← hphase] at hleft
  refine ⟨hbracketed, ?_⟩
  cases hp : phase (w'.eventsOf id) with
  | fresh => exact hover.cold
  | held c bound => exact absurd hp (hleft c bound)
  | gone => exact ⟨hover.disposed, hover.cold⟩

/-- What one move does to the trace of its entry. -/
theorem Move.onCourse (h : Move env view id w w') (hid : id < w.entries.length)
    (hcourse : OnCourse id w) : OnCourse id w' := by
  cases h with
  | idle h => exact hcourse.idle h
  | create | activate => exact hcourse.apart trivial
  | miss => exact ⟨hcourse.bracketed, hcourse.fits⟩
  | @refuse r s =>
    have hgiven : OnCourse id (w.withOutside s) := ⟨hcourse.bracketed, hcourse.fits⟩
    have hback : OnCourse id ((w.withOutside s).recorded id (.giveBack r)) := hgiven.apart trivial
    exact ⟨hback.bracketed, hback.fits⟩
  | @acquire w₁ c hcold hlive h =>
    have hfresh := hcourse.fits.eq_fresh hcold hlive
    obtain ⟨hbracketed, hphase⟩ := h.phase hcourse.bracketed
    rw [hfresh] at hphase
    have hid' : id < (w₁.recorded id (.acquired c)).entries.length := by
      show id < w₁.entries.length
      rw [h.frame.length]
      exact hid
    constructor
    · exact bracketed_recorded hbracketed hphase
    · rw [World.eventsOf_modifyEntry, phase_recorded, hphase, World.entry_modifyEntry_self _ _ hid']
      exact ⟨h.entry.disposed.trans hlive, _, rfl, rfl, rfl⟩
  | @title x hwarm =>
    obtain ⟨hphase, -⟩ := hcourse.fits.eq_held hwarm
    refine hcourse.recorded ⟨_, hphase⟩ ?_
    rw [hphase]
    rfl
  | @category x hwarm =>
    obtain ⟨hphase, -⟩ := hcourse.fits.eq_held hwarm
    refine hcourse.recorded ⟨_, hphase⟩ ?_
    rw [hphase]
    rfl
  | @init w₁ x ref config hwarm hcontext hnew hname =>
    obtain ⟨hphase, hlive⟩ := hcourse.fits.eq_held hwarm
    obtain ⟨hbracketed, hphase'⟩ := Naming.phase hname hcourse.bracketed hphase
    have hslot := Naming.slot hname
    rw [World.entry_modifyEntry_self _ _ hid] at hslot
    have hother : x.bound.map (·.serial) ≠ some ref.serial := by
      intro heq
      obtain ⟨old, hold, hserial⟩ := Option.map_eq_some_iff.mp heq
      simp [hold, hserial] at hnew
    constructor
    · exact bracketed_recorded hbracketed ⟨_, hphase', hother⟩
    · rw [phase_recorded, hphase', World.entry_recorded]
      exact ⟨hslot.disposed.trans hlive, _, hslot.warm, rfl, rfl⟩
  | @destroy c ref hwarm =>
    obtain ⟨hphase, hlive⟩ := hcourse.fits.eq_held hwarm
    constructor
    · exact bracketed_recorded hcourse.bracketed ⟨_, hphase⟩
    · rw [phase_recorded, World.eventsOf_modifyEntry, hphase, World.entry_recorded,
        World.entry_modifyEntry_self _ _ hid]
      exact ⟨hlive, _, rfl, rfl, rfl⟩
  | part h => exact h.onCourse hid hcourse

end Lifecycle

end PluginConsole
