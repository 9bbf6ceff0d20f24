import PluginConsole.Proofs.Lifecycle.Respect
import PluginConsole.Proofs.Lifecycle.Trace

/-!
# The account of an entry

The account of an entry weighs its activations against its deactivations and against the one that it
still owes. Nothing is handed out or deactivated without an activation behind it.
-/

namespace PluginConsole

/-! ## Events -/

namespace EntryEvent

def isActivated : EntryEvent → Bool
  | .activated _ => true
  | _ => false

def isDeactivate : EntryEvent → Bool
  | .deactivate _ => true
  | _ => false

def tries (object : Instance) : EntryEvent → Bool
  | .activate other => other = object
  | _ => false

def succeeds (object : Instance) : EntryEvent → Bool
  | .activated other => other = object
  | _ => false

end EntryEvent

open EntryEvent

variable (activatable : Instance → Bool)

/-- Only a plugin is ever activated, and only if it has the capability. -/
def Component.wants : Component → Bool
  | .plugin object => activatable object
  | .adapted .. => false

/-- How many deactivations a source will owe for a component. -/
def Source.owes (s : Source) (c : Component) : Nat :=
  match s with
  | .directory _ => 0
  | .direct .. => if c.wants activatable then 1 else 0

def Entry.owes (e : Entry) : Nat :=
  match e.warm with
  | none => 0
  | some x => e.source.owes activatable x.component

/-- Activations that are neither undone nor owed to be. -/
def balance (e : Entry) (trace : List EntryEvent) : Int :=
  trace.countP isActivated - trace.countP isDeactivate - e.owes activatable

/-- A component of a direct source is an object that was activated, if it wants that. -/
def Vouched (s : Source) (trace : List EntryEvent) (c : Component) : Prop :=
  s.kind = .direct →
    ∃ object, c = .plugin object ∧ (activatable object = true → .activated object ∈ trace)

def EntryEvent.Admitted (s : Source) (before : List EntryEvent) : EntryEvent → Prop
  | .acquired c => Vouched activatable s before c
  | .activate object => activatable object = true
  | .deactivate object => .activated object ∈ before ∧ .released (.plugin object) ∈ before
  | _ => True

/-- The trace accounts for what the entry has and for what it did. -/
structure Accounted (e : Entry) (trace : List EntryEvent) : Prop where
  warm : ∀ x, e.warm = some x → .acquired x.component ∈ trace
  admitted : ∀ before event after, trace = before ++ event :: after →
    event.Admitted activatable e.source before

variable {activatable} {e e' : Entry} {trace longer : List EntryEvent} {event : EntryEvent}

theorem Vouched.mono {s : Source} {c : Component} (h : Vouched activatable s trace c)
    (hlonger : trace ⊆ longer) : Vouched activatable s longer c := by
  intro hdirect
  obtain ⟨object, rfl, hactivated⟩ := h hdirect
  exact ⟨object, rfl, fun hwants => hlonger (hactivated hwants)⟩

namespace Accounted

theorem fresh (hcold : e.warm = none) : Accounted activatable e [] := by
  constructor <;> simp [hcold]

theorem snoc (h : Accounted activatable e trace)
    (hevent : event.Admitted activatable e.source trace) :
    Accounted activatable e (trace ++ [event]) :=
  ⟨fun x hwarm => List.mem_append_left _ (h.warm x hwarm), split_snoc h.admitted hevent⟩

theorem vouched (h : Accounted activatable e trace) {c : Component} (hmem : .acquired c ∈ trace) :
    Vouched activatable e.source trace c := by
  obtain ⟨before, after, rfl⟩ := List.append_of_mem hmem
  exact Vouched.mono (h.admitted before _ after rfl) (List.subset_append_left _ _)

theorem tried (h : Accounted activatable e trace) {object : Instance}
    (hmem : .activate object ∈ trace) : activatable object = true := by
  obtain ⟨before, after, rfl⟩ := List.append_of_mem hmem
  exact h.admitted before _ after rfl

theorem undone (h : Accounted activatable e trace) {object : Instance}
    (hmem : .deactivate object ∈ trace) : .activated object ∈ trace := by
  obtain ⟨before, after, rfl⟩ := List.append_of_mem hmem
  exact List.mem_append_left _ (h.admitted before _ after rfl).1

theorem givenBack (h : Accounted activatable e trace) {object : Instance}
    (hmem : .deactivate object ∈ trace) : .released (.plugin object) ∈ trace := by
  obtain ⟨before, after, rfl⟩ := List.append_of_mem hmem
  exact List.mem_append_left _ (h.admitted before _ after rfl).2

theorem entry (h : Accounted activatable e trace) (hsource : e'.source = e.source)
    (hwarm : ∀ x, e'.warm = some x → .acquired x.component ∈ trace) :
    Accounted activatable e' trace := by
  refine ⟨hwarm, ?_⟩
  rw [hsource]
  exact h.admitted

theorem hold (h : Accounted activatable e trace) (hsource : e'.source = e.source)
    (hhold : Entry.SameHold e e') : Accounted activatable e' trace := by
  refine h.entry hsource fun x hx => ?_
  have hsame := hhold.component
  rw [hx, Option.map_some, eq_comm, Option.map_eq_some_iff] at hsame
  obtain ⟨y, hy, hcomponent⟩ := hsame
  rw [← hcomponent]
  exact h.warm y hy

end Accounted

/-! ## The balance -/

theorem Source.owes_pos {s : Source} {c : Component} (h : 0 < s.owes activatable c) :
    s.kind = .direct ∧ c.wants activatable = true ∧ s.owes activatable c = 1 := by
  unfold Source.owes at h ⊢
  cases s with
  | directory => cases h
  | direct =>
    dsimp only at h ⊢
    split at h
    · rename_i hwants
      exact ⟨rfl, hwants, if_pos hwants⟩
    · cases h

theorem Entry.owes_hold (hsource : e'.source = e.source) (hhold : Entry.SameHold e e') :
    e'.owes activatable = e.owes activatable := by
  have hsame := hhold.component
  unfold Entry.owes
  rw [hsource]
  cases he : e.warm <;> cases he' : e'.warm <;> simp_all

theorem Entry.owes_of_cold (hcold : e.warm = none) : e.owes activatable = 0 := by
  unfold Entry.owes
  rw [hcold]

theorem Entry.owes_of_warm {x : Warm} (hwarm : e.warm = some x) :
    e.owes activatable = e.source.owes activatable x.component := by
  unfold Entry.owes
  rw [hwarm]

theorem Entry.owes_of_direct (h : e.kind = .direct) :
    (e.owes activatable : Int) =
      if e.warm.any (·.component.wants activatable) then 1 else 0 := by
  cases hsource : e.source with
  | directory r =>
    unfold Entry.kind at h
    rw [hsource] at h
    cases h
  | direct factory known =>
    cases hwarm : e.warm with
    | none => rw [Entry.owes_of_cold hwarm]; rfl
    | some x =>
      rw [Entry.owes_of_warm hwarm, hsource]
      show ((if x.component.wants activatable then 1 else 0 : Nat) : Int) =
        if x.component.wants activatable then 1 else 0
      split <;> rfl

theorem balance_snoc (e : Entry) (trace : List EntryEvent) (event : EntryEvent) :
    balance activatable e (trace ++ [event]) = balance activatable e trace +
      (if event.isActivated then 1 else 0) - (if event.isDeactivate then 1 else 0) := by
  unfold balance
  rw [List.countP_append, List.countP_append, List.countP_singleton, List.countP_singleton]
  split <;> split <;> omega

end PluginConsole
