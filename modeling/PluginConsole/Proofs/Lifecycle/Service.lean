import Mathlib.Data.List.Induction
import PluginConsole.Proofs.Lifecycle.Account

/-!
# The service of a component

A component serves from when it is found until it is given up. As long as nobody tears it down,
its service is as far as its phase says. What ends a service is what is left to do.
-/

open Relation (ReflTransGen)

namespace PluginConsole

def EntryEvent.isService : EntryEvent → Bool
  | .acquired _ | .init .. | .destroy _ | .released _ => true
  | _ => false

def EntryEvent.IsEnding : EntryEvent → Prop
  | .destroy _ | .released _ | .deactivate _ | .giveBack _ => True
  | _ => False

def service (trace : List EntryEvent) : List EntryEvent :=
  trace.filter EntryEvent.isService

variable {trace rest : List EntryEvent} {event : EntryEvent} {ref : ContextRef}

theorem service_append : service (trace ++ rest) = service trace ++ service rest :=
  List.filter_append trace rest

theorem EntryEvent.IsHandover.isEnding (h : event.IsHandover) : event.IsEnding := by
  cases event <;> first | exact trivial | exact absurd h id

/-! ## Well bracketed traces -/

theorem WellBracketed.left (h : WellBracketed (trace ++ rest)) : WellBracketed trace :=
  fun before event after hsplit => h before event (after ++ rest) (by simp [hsplit])

theorem WellBracketed.next (h : WellBracketed (trace ++ event :: rest)) :
    Permitted (phase trace) event :=
  h trace event rest rfl

theorem phase_gone (h : phase trace = .gone) : phase (trace ++ rest) = .gone := by
  induction rest generalizing trace with
  | nil => simpa using h
  | cons event rest ih =>
    rw [List.append_cons]
    refine ih ?_
    rw [phase_snoc, h]
    cases event <;> rfl

theorem WellBracketed.gone_of_released (h : WellBracketed trace) {c : Component}
    (hmem : .released c ∈ trace) : phase trace = .gone := by
  obtain ⟨before, after, rfl⟩ := List.append_of_mem hmem
  have hheld : phase before = .held c none := h.next
  rw [List.append_cons]
  refine phase_gone ?_
  rw [phase_snoc, hheld]
  rfl

/-! ## How far a service is -/

/-- The service that leads to a phase, if nothing was torn down and there is one context. -/
def Phase.Served (ref : ContextRef) (done : List EntryEvent) : Phase → Prop
  | .fresh => done = []
  | .held c none => done = [.acquired c]
  | .held c (some serial) =>
    serial = ref.serial ∧ ∃ config, done = [.acquired c, .init c ref config]
  | .gone => True

theorem Phase.Served.snoc {p : Phase} {done : List EntryEvent} (h : p.Served ref done)
    (hpermitted : Permitted p event) (hwhole : ∀ c, event ≠ .destroy c)
    (hone : ∀ c r config, event = .init c r config → r = ref) :
    (p.advance event).Served ref (done ++ service [event]) := by
  cases event with
  | acquired c =>
    obtain rfl : p = .fresh := hpermitted
    rw [show done = [] from h]
    rfl
  | init c r config =>
    obtain rfl := hone c r config rfl
    obtain ⟨bound, rfl, hother⟩ := hpermitted
    cases bound with
    | none =>
      rw [show done = [.acquired c] from h]
      exact ⟨rfl, config, rfl⟩
    | some serial => exact absurd (congrArg some h.1) hother
  | destroy c => exact absurd rfl (hwhole c)
  | released c =>
    obtain rfl : p = .held c none := hpermitted
    exact trivial
  | create | activate | activated | title | category | deactivate | giveBack =>
    rw [show service [_] = [] from rfl, List.append_nil]
    cases p <;> exact h

theorem WellBracketed.served (h : WellBracketed trace) (hwhole : ∀ c, .destroy c ∉ trace)
    (hone : ∀ c r config, .init c r config ∈ trace → r = ref) :
    (phase trace).Served ref (service trace) := by
  induction trace using List.reverseRecOn with
  | nil => rfl
  | append_singleton before event ih =>
    have hlast : event ∈ before ++ [event] := List.mem_append_right _ (List.mem_singleton_self _)
    have hserved := ih h.left (fun c hmem => hwhole c (List.mem_append_left _ hmem))
      fun c r config hmem => hone c r config (List.mem_append_left _ hmem)
    rw [phase_snoc, service_append]
    exact hserved.snoc h.next (fun c heq => hwhole c (heq ▸ hlast))
      fun c r config heq => hone c r config (heq ▸ hlast)

/-! ## How a service ends -/

/-- If only endings follow, they are what is left to do. -/
theorem WellBracketed.farewell (h : WellBracketed (trace ++ rest))
    (hending : ∀ event ∈ rest, event.IsEnding)
    (hleft : ∀ c bound, phase (trace ++ rest) ≠ .held c bound) :
    service rest = (phase trace).farewell := by
  induction rest generalizing trace with
  | nil =>
    rw [List.append_nil] at hleft
    cases hp : phase trace with
    | fresh | gone => rfl
    | held c bound => exact absurd hp (hleft c bound)
  | cons event rest ih =>
    have hpermitted := h.next
    have hends := hending event List.mem_cons_self
    rw [List.append_cons] at h hleft
    have hrest := ih h (fun other hmem => hending other (List.mem_cons_of_mem _ hmem)) hleft
    rw [phase_snoc] at hrest
    cases event with
    | destroy c =>
      obtain ⟨serial, hphase⟩ := hpermitted
      rw [hphase] at hrest ⊢
      exact congrArg (EntryEvent.destroy c :: ·) hrest
    | released c =>
      have hphase : phase trace = .held c none := hpermitted
      rw [hphase] at hrest ⊢
      exact congrArg (EntryEvent.released c :: ·) hrest
    | deactivate | giveBack =>
      cases hp : phase trace <;> rw [hp] at hrest <;> exact hrest
    | acquired | init | create | activate | activated | title | category => exact absurd hends id

/-! ## From use to the end -/

theorem activated_unique (h : trace.countP EntryEvent.isActivated = 1) {object other : Instance}
    (hmem : .activated object ∈ trace) (hother : .activated other ∈ trace) : object = other := by
  rw [List.countP_eq_length_filter, List.length_eq_one_iff] at h
  obtain ⟨event, hevent⟩ := h
  have hin : .activated object ∈ trace.filter EntryEvent.isActivated :=
    List.mem_filter.mpr ⟨hmem, rfl⟩
  have hin' : .activated other ∈ trace.filter EntryEvent.isActivated :=
    List.mem_filter.mpr ⟨hother, rfl⟩
  rw [hevent, List.mem_singleton] at hin hin'
  rw [← hin'] at hin
  exact EntryEvent.activated.inj hin

theorem destroyed_of_released {c : Component} {config : InitConfig}
    (hdone : trace ++ rest = [.acquired c, .init c ref config, .destroy c, .released c])
    (hin : .released c ∈ trace) : .destroy c ∈ trace := by
  rcases trace with _ | ⟨_, _ | ⟨_, _ | ⟨_, later⟩⟩⟩ <;> simp_all

variable {activatable : Instance → Bool} {e e' : Entry}

theorem Accounted.deactivated_late (h : Accounted activatable e trace)
    (honce : trace.countP EntryEvent.isActivated = 1)
    (hundone : trace.countP EntryEvent.isDeactivate = 1) {object : Instance}
    (hmem : .activated object ∈ trace) :
    ∃ before after, trace = before ++ .deactivate object :: after ∧
      .released (.plugin object) ∈ before := by
  obtain ⟨event, hevent, hkind⟩ := List.countP_pos_iff.mp (hundone ▸ Nat.one_pos)
  cases event with
  | deactivate other =>
    obtain ⟨before, after, hsplit⟩ := List.append_of_mem hevent
    obtain rfl : other = object := activated_unique honce (h.undone hevent) hmem
    exact ⟨before, after, hsplit, (h.admitted before _ after hsplit).2⟩
  | create | activate | activated | acquired | title | category | init | destroy | released
  | giveBack => cases hkind

/-- An entry while it is asked under one context: nothing was torn down, what it has is bound to the
context, and its account is even. -/
structure InUse (activatable : Instance → Bool) (ref : ContextRef) (e : Entry)
    (trace : List EntryEvent) : Prop where
  bracketed : WellBracketed trace
  fits : (phase trace).Fits e
  bound : ∀ x, e.warm = some x → x.bound = some ref
  whole : ∀ c, .destroy c ∉ trace
  told : ∀ c r config, .init c r config ∈ trace → r = ref
  unused : e.disposed = true → trace = []
  accounted : Accounted activatable e trace
  even : balance activatable e trace = 0

/-- Every component was initialized once, torn down once for that context and then given up. What
was activated was deactivated once after that. -/
structure Finished (ref : ContextRef) (trace : List EntryEvent) : Prop where
  served : ∀ c, .acquired c ∈ trace → ∃ config,
    service trace = [.acquired c, .init c ref config, .destroy c, .released c]
  deactivated : ∀ object, .activated object ∈ trace →
    .acquired (.plugin object) ∈ trace ∧ trace.countP EntryEvent.isDeactivate = 1 ∧
      ∃ before after, trace = before ++ .deactivate object :: after ∧
        .destroy (.plugin object) ∈ before

namespace InUse

theorem phase (h : InUse activatable ref e trace) : PluginConsole.phase trace = .fresh ∨
    ∃ x, e.warm = some x ∧ PluginConsole.phase trace = .held x.component (some ref.serial) := by
  have hfits := h.fits
  cases hphase : PluginConsole.phase trace with
  | fresh => exact Or.inl rfl
  | held c bound =>
    rw [hphase] at hfits
    obtain ⟨-, x, hwarm, rfl, rfl⟩ := hfits
    rw [h.bound x hwarm]
    exact Or.inr ⟨x, hwarm, rfl⟩
  | gone =>
    rw [hphase] at hfits
    rw [h.unused hfits.1] at hphase
    cases hphase

theorem not_deactivated (h : InUse activatable ref e trace) :
    trace.countP EntryEvent.isDeactivate = 0 := by
  rw [List.countP_eq_zero]
  intro event hmem hevent
  cases event with
  | deactivate object =>
    have hgone := h.bracketed.gone_of_released (h.accounted.givenBack hmem)
    rcases h.phase with hphase | ⟨x, -, hphase⟩ <;> rw [hgone] at hphase <;> cases hphase
  | create | activate | activated | acquired | title | category | init | destroy | released
  | giveBack => cases hevent

theorem service_eq (h : InUse activatable ref e trace) (hbracketed : WellBracketed (trace ++ rest))
    (hending : ∀ event ∈ rest, event.IsEnding)
    (hleft : ∀ c bound, PluginConsole.phase (trace ++ rest) ≠ .held c bound) :
    service (trace ++ rest) = [] ∨ ∃ c config,
      service (trace ++ rest) = [.acquired c, .init c ref config, .destroy c, .released c] := by
  have hserved := h.bracketed.served h.whole h.told
  rw [service_append, hbracketed.farewell hending hleft]
  rcases h.phase with hphase | ⟨x, -, hphase⟩ <;> rw [hphase] at hserved ⊢
  · rw [show service trace = [] from hserved]
    exact Or.inl rfl
  · obtain ⟨-, config, hdone⟩ := hserved
    rw [hdone]
    exact Or.inr ⟨x.component, config, rfl⟩

theorem activated (h : InUse activatable ref e trace) {object : Instance}
    (hmem : .activated object ∈ trace) :
    trace.countP EntryEvent.isActivated = 1 ∧ .acquired (.plugin object) ∈ trace := by
  have heven := h.even
  unfold balance at heven
  rw [h.not_deactivated] at heven
  have hpos : 0 < trace.countP EntryEvent.isActivated := List.countP_pos_iff.mpr ⟨_, hmem, rfl⟩
  cases hwarm : e.warm with
  | none =>
    rw [Entry.owes_of_cold hwarm] at heven
    omega
  | some x =>
    rw [Entry.owes_of_warm hwarm] at heven
    have howes : 0 < e.source.owes activatable x.component := by omega
    obtain ⟨hdirect, hwants, hone⟩ := Source.owes_pos howes
    have hacquired := h.accounted.warm x hwarm
    have honce : trace.countP EntryEvent.isActivated = 1 := by omega
    refine ⟨honce, ?_⟩
    obtain ⟨other, hother, hvouched⟩ := h.accounted.vouched hacquired hdirect
    rw [hother] at hwants hacquired
    have hsame : other = object := activated_unique honce (hvouched hwants) hmem
    rwa [hsame] at hacquired

theorem activated_once (h : InUse activatable ref e trace)
    (hending : ∀ event ∈ rest, event.IsEnding) {object : Instance}
    (hmem : .activated object ∈ trace ++ rest) :
    (trace ++ rest).countP EntryEvent.isActivated = 1 ∧
      .acquired (.plugin object) ∈ trace ++ rest := by
  have hlate : rest.countP EntryEvent.isActivated = 0 := by
    rw [List.countP_eq_zero]
    intro event hmem hactivated
    have hends := hending event hmem
    cases event <;> first | exact hends | cases hactivated
  have hbefore : .activated object ∈ trace :=
    (List.mem_append.mp hmem).resolve_right fun hlate => hending _ hlate
  obtain ⟨honce, hacquired⟩ := h.activated hbefore
  rw [List.countP_append, honce, hlate]
  exact ⟨rfl, List.mem_append_left _ hacquired⟩

theorem finished (h : InUse activatable ref e trace) (hbracketed : WellBracketed (trace ++ rest))
    (hending : ∀ event ∈ rest, event.IsEnding)
    (hleft : ∀ c bound, PluginConsole.phase (trace ++ rest) ≠ .held c bound)
    (haccounted : Accounted activatable e' (trace ++ rest))
    (heven : balance activatable e' (trace ++ rest) = 0) (hcold : e'.warm = none) :
    Finished ref (trace ++ rest) := by
  have hservice := h.service_eq hbracketed hending hleft
  have hactivated (object : Instance) (hmem : .activated object ∈ trace ++ rest) :=
    h.activated_once hending hmem
  generalize trace ++ rest = whole at *
  have hserved (c : Component) (hmem : .acquired c ∈ whole) : ∃ config,
      service whole = [.acquired c, .init c ref config, .destroy c, .released c] := by
    have hin : .acquired c ∈ service whole := List.mem_filter.mpr ⟨hmem, rfl⟩
    rcases hservice with hnone | ⟨c', config, hdone⟩
    · rw [hnone] at hin
      cases hin
    · rw [hdone] at hin
      obtain rfl : c = c' := by simpa using hin
      exact ⟨config, hdone⟩
  refine ⟨hserved, fun object hmem => ?_⟩
  obtain ⟨honce, hacquired⟩ := hactivated object hmem
  have hundone : whole.countP EntryEvent.isDeactivate = 1 := by
    unfold balance at heven
    rw [Entry.owes_of_cold hcold, honce] at heven
    omega
  obtain ⟨before, after, hsplit, hreleased⟩ := haccounted.deactivated_late honce hundone hmem
  refine ⟨hacquired, hundone, before, after, hsplit, ?_⟩
  -- The whole service stands before its last event, which is the release.
  obtain ⟨config, hdone⟩ := hserved _ hacquired
  have hin : .released (.plugin object) ∈ service before := List.mem_filter.mpr ⟨hreleased, rfl⟩
  rw [hsplit, service_append] at hdone
  exact (List.mem_filter.mp (destroyed_of_released hdone hin)).1

end InUse

/-! ## Moves -/

namespace Lifecycle

variable {σ δ : Type} {env : Environment σ} {view : σ → δ} {id : EntryId} {w w' : World σ}

theorem Parting.endings (h : Parting env view id w w') : ∃ added : List EntryEvent,
    (∀ event ∈ added, event.IsEnding) ∧ w'.eventsOf id = w.eventsOf id ++ added := by
  have hgiven {c : Component} {handover : List EntryEvent}
      (hhandover : ∀ event ∈ handover, event.IsHandover) :
      ∀ event ∈ EntryEvent.released c :: handover, event.IsEnding := by
    intro event hmem
    rcases List.mem_cons.mp hmem with rfl | hmem
    · exact trivial
    · exact (hhandover event hmem).isEnding
  cases h with
  | cold => exact ⟨[], by simp, by simp⟩
  | @unbound w' c _ h =>
    obtain ⟨handover, hhandover, hevents⟩ := h.events
    exact ⟨.released c :: handover, hgiven hhandover, by simpa using hevents⟩
  | @bound w₁ _ c ref _ hidle h =>
    obtain ⟨handover, hhandover, hevents⟩ := h.events
    refine ⟨.destroy c :: .released c :: handover, fun event hmem => ?_, ?_⟩
    · rcases List.mem_cons.mp hmem with rfl | hmem
      · exact trivial
      · exact hgiven hhandover event hmem
    · rw [hevents, Idles.events hidle]
      simp

/-- Whatever is initialized is so against the context that is attached. -/
theorem Move.told (h : Move env view id w w') {c : Component} {ref : ContextRef}
    {config : InitConfig} (hmem : .init c ref config ∈ w'.eventsOf id) :
    .init c ref config ∈ w.eventsOf id ∨ w.context = some ref := by
  cases h with
  | idle h =>
    rw [h.events] at hmem
    exact Or.inl hmem
  | create | activate | title | category | destroy | refuse => exact Or.inl (by simpa using hmem)
  | miss => exact Or.inl hmem
  | acquire _ _ h =>
    rw [World.eventsOf_modifyEntry, World.eventsOf_recorded_self, List.mem_append,
      List.mem_singleton] at hmem
    replace hmem := hmem.resolve_right nofun
    cases h with
    | plugin | handler | made => exact Or.inl hmem
    | activated => exact Or.inl (by simpa using hmem)
  | init _ _ hcontext _ hname =>
    rw [World.eventsOf_recorded_self, List.mem_append, List.mem_singleton] at hmem
    rcases hmem with hmem | heq
    · left
      clear hcontext
      induction hname with
      | refl => simpa using hmem
      | tail _ hstep ih =>
        cases hstep with
        | idle h =>
          rw [h.events] at hmem
          exact ih hmem
        | ask => exact ih (by simpa using hmem)
    · cases heq
      exact Or.inr hcontext
  | part h =>
    obtain ⟨added, hending, hevents⟩ := h.endings
    rw [hevents, List.mem_append] at hmem
    exact Or.inl (hmem.resolve_right fun hadded => hending _ hadded)

end Lifecycle

end PluginConsole
