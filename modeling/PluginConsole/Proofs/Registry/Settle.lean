import Mathlib.Algebra.Group.Pi.Lemmas
import Mathlib.Algebra.Ring.Int.Defs
import PluginConsole.Proofs.Lifecycle.Account
import PluginConsole.Proofs.Registry.Govern

/-!
# Squared accounts

Whatever an entry is asked for, its account is settled before it answers. In between it may be out
of balance, and `Settling` says by how much.
-/

namespace PluginConsole

open Lifecycle

variable {σ α : Type} {activatable : Instance → Bool}

namespace World

def attempts (object : Instance) (w : World σ) : Nat :=
  w.history.countP fun r => r.event.tries object

def successes (object : Instance) (w : World σ) : Nat :=
  w.history.countP fun r => r.event.succeeds object

theorem attempts_recorded (id : EntryId) (event : EntryEvent) (object : Instance) (w : World σ) :
    (w.recorded id event).attempts object =
      w.attempts object + if event.tries object then 1 else 0 := by
  unfold attempts recorded
  rw [List.countP_append, List.countP_singleton]

theorem successes_recorded (id : EntryId) (event : EntryEvent) (object : Instance) (w : World σ) :
    (w.recorded id event).successes object =
      w.successes object + if event.succeeds object then 1 else 0 := by
  unfold successes recorded
  rw [List.countP_append, List.countP_singleton]

end World

namespace Registry

open Act

variable {env : Environment σ} {w w' w'' : World σ} {id : EntryId}

/-- The table leads to entries, and each entry is accounted for. -/
structure Sound (activatable : Instance → Bool) (w : World σ) : Prop where
  ranged : Ranged w
  unborn : ∀ id, w.entries.length ≤ id → w.eventsOf id = []
  accounted : ∀ id, Accounted activatable (w.entry id) (w.eventsOf id)

/-- Nothing is forgotten, every activation has a try of its own, and the accounts move by what is
named. -/
structure Settling (activatable : Instance → Bool) (moved : EntryId → Int) (w w' : World σ) :
    Prop where
  sound : Sound activatable w'
  length : w.entries.length ≤ w'.entries.length
  source : ∀ id < w.entries.length, (w'.entry id).source = (w.entry id).source
  events : ∀ id, w.eventsOf id <+: w'.eventsOf id
  tried : ∀ object,
    w'.successes object + w.attempts object ≤ w'.attempts object + w.successes object
  balance : ∀ id, balance activatable (w'.entry id) (w'.eventsOf id) =
    balance activatable (w.entry id) (w.eventsOf id) + moved id

/-- From any sound world the accounts come out even. -/
def Squared (activatable : Instance → Bool) (w w' : World σ) : Prop :=
  Sound activatable w → Settling activatable 0 w w'

namespace Settling

variable {moved moved' : EntryId → Int}

theorem refl (hsound : Sound activatable w) : Settling activatable 0 w w where
  sound := hsound
  length := Nat.le_refl _
  source _ _ := rfl
  events _ := List.prefix_rfl
  tried _ := Nat.le_of_eq (Nat.add_comm _ _)
  balance _ := (Int.add_zero _).symm

theorem trans (h : Settling activatable moved w w') (h' : Settling activatable moved' w' w'') :
    Settling activatable (moved + moved') w w'' where
  sound := h'.sound
  length := h.length.trans h'.length
  source id hid := (h'.source id (hid.trans_le h.length)).trans (h.source id hid)
  events id := (h.events id).trans (h'.events id)
  tried object := by
    have htried := h.tried object
    have htried' := h'.tried object
    omega
  balance id := by
    rw [h'.balance, h.balance, Pi.add_apply, Int.add_assoc]

theorem even (h : Settling activatable moved w w') (h' : Settling activatable 0 w' w'') :
    Settling activatable moved w w'' := by
  have hboth := h.trans h'
  rw [add_zero] at hboth
  exact hboth

theorem first (h : Settling activatable (0 + moved) w w') : Settling activatable moved w w' := by
  rw [zero_add] at h
  exact h

theorem settle {n : Int} (h : Settling activatable (Pi.single id n) w w')
    (h' : Settling activatable (Pi.single id (-n)) w' w'') : Settling activatable 0 w w'' := by
  have hboth := h.trans h'
  rw [← Pi.single_add, add_neg_cancel, Pi.single_zero] at hboth
  exact hboth

theorem ofSame (hsound : Sound activatable w) (hentries : w'.entries = w.entries)
    (hhistory : w'.history = w.history) (hranged : Ranged w') : Settling activatable 0 w w' := by
  have hentry := World.entry_congr hentries
  have hevents := World.eventsOf_congr hhistory
  refine ⟨⟨hranged, fun id hid => ?_, fun id => ?_⟩, hentries ▸ Nat.le_refl _, fun id _ => ?_,
    fun id => ?_, fun object => ?_, fun id => ?_⟩
  · rw [hevents]
    exact hsound.unborn id (hentries ▸ hid)
  · rw [hentry, hevents]
    exact hsound.accounted id
  · rw [hentry]
  · exact hevents id ▸ List.prefix_rfl
  · unfold World.successes World.attempts
    rw [hhistory, Nat.add_comm]
  · rw [hentry, hevents]
    exact (Int.add_zero _).symm

theorem ofFrame (h : Settling activatable moved w w') (hframe : Frame id w' w'')
    (hid : id < w'.entries.length) (hevents : w'.eventsOf id <+: w''.eventsOf id)
    (htried : ∀ object,
      w''.successes object + w.attempts object ≤ w''.attempts object + w.successes object)
    (haccounted : Accounted activatable (w''.entry id) (w''.eventsOf id)) {n : Int}
    (hbalance : PluginConsole.balance activatable (w''.entry id) (w''.eventsOf id) =
      PluginConsole.balance activatable (w'.entry id) (w'.eventsOf id) + n) :
    Settling activatable (moved + Pi.single id n) w w'' where
  sound := by
    refine ⟨?_, fun other hother => ?_, fun other => ?_⟩
    · unfold Ranged snapshot
      rw [hframe.table, hframe.length]
      exact h.sound.ranged
    · rw [hframe.length] at hother
      have hne : other ≠ id := by
        rintro rfl
        exact absurd hid (Nat.not_lt.mpr hother)
      rw [hframe.events other hne]
      exact h.sound.unborn other hother
    · by_cases ho : other = id
      · exact ho ▸ haccounted
      · rw [hframe.others other ho, hframe.events other ho]
        exact h.sound.accounted other
  length := h.length.trans hframe.length.ge
  source other hother := by
    by_cases ho : other = id
    · subst ho
      exact hframe.source.trans (h.source other hother)
    · rw [hframe.others other ho]
      exact h.source other hother
  events other := by
    by_cases ho : other = id
    · subst ho
      exact (h.events other).trans hevents
    · rw [hframe.events other ho]
      exact h.events other
  tried := htried
  balance other := by
    by_cases ho : other = id
    · subst ho
      rw [hbalance, h.balance, Pi.add_apply, Pi.single_eq_same, Int.add_assoc]
    · rw [hframe.others other ho, hframe.events other ho, h.balance, Pi.add_apply,
        Pi.single_eq_of_ne ho, Int.add_zero]

theorem snoc (h : Settling activatable moved w w') (hid : id < w'.entries.length)
    {event : EntryEvent}
    (hadmitted : event.Admitted activatable (w'.entry id).source (w'.eventsOf id))
    (htried : ∀ object, (w'.recorded id event).successes object + w.attempts object ≤
      (w'.recorded id event).attempts object + w.successes object) {n : Int}
    (hn : n = (if event.isActivated then 1 else 0) - (if event.isDeactivate then 1 else 0)) :
    Settling activatable (moved + Pi.single id n) w (w'.recorded id event) := by
  refine h.ofFrame (Frame.recorded event w') hid ?_ htried ?_ ?_
  · rw [World.eventsOf_recorded_self]
    exact List.prefix_append _ _
  · rw [World.eventsOf_recorded_self]
    exact (h.sound.accounted id).snoc hadmitted
  · rw [World.eventsOf_recorded_self, World.entry_recorded, balance_snoc, hn]
    omega

end Settling

theorem Squared.behaved (hcode : env.code.Respects (Squared env.code.activatable)) :
    Behaved env (Squared env.code.activatable) where
  refl _ := .refl
  trans h h' hsound := (h hsound).even (h' (h hsound).sound)
  code := hcode

/-! ## Single steps -/

section Steps

variable (hsound : Sound activatable w) (hid : id < w.entries.length)
include hsound

theorem settling_withOutside (s : σ) : Settling activatable 0 w (w.withOutside s) :=
  .ofSame hsound rfl rfl hsound.ranged

theorem settling_log (log : List Notice) : Settling activatable 0 w { w with log } :=
  .ofSame hsound rfl rfl hsound.ranged

include hid

theorem settling_recorded (event : EntryEvent)
    (hadmitted : event.Admitted activatable (w.entry id).source (w.eventsOf id))
    (hnot : event.isActivated = false) {n : Int} (hn : n = if event.isDeactivate then -1 else 0) :
    Settling activatable (Pi.single id n) w (w.recorded id event) := by
  have hfails (object : Instance) : event.succeeds object = false := by
    cases event <;> first | rfl | cases hnot
  refine ((Settling.refl hsound).snoc hid hadmitted (fun object => ?_) ?_).first
  · rw [World.successes_recorded, World.attempts_recorded, hfails]
    simp only [Bool.false_eq_true, if_false]
    omega
  · rw [hn, hnot]
    simp only [Bool.false_eq_true, if_false]
    split <;> rfl

theorem settling_noted (event : EntryEvent)
    (hadmitted : event.Admitted activatable (w.entry id).source (w.eventsOf id))
    (hnot : event.isActivated = false) (hkeeps : event.isDeactivate = false) :
    Settling activatable 0 w (w.recorded id event) := by
  rw [← Pi.single_zero id]
  exact settling_recorded hsound hid event hadmitted hnot (by rw [hkeeps]; rfl)

theorem settling_activated {object : Instance} (hwants : activatable object = true)
    (h : Settling activatable 0 (w.recorded id (.activate object)) w') :
    Settling activatable (Pi.single id 1) w (w'.recorded id (.activated object)) := by
  have htry : Settling activatable 0 w (w.recorded id (.activate object)) :=
    settling_noted hsound hid _ hwants rfl rfl
  have hadmitted : (EntryEvent.activated object).Admitted activatable (w'.entry id).source
      (w'.eventsOf id) := trivial
  refine ((htry.even h).snoc (hid.trans_le h.length) hadmitted (fun other => ?_) rfl).first
  have hmatch : (EntryEvent.activated object).succeeds other =
      (EntryEvent.activate object).tries other := rfl
  have hsuccess : (EntryEvent.activate object).succeeds other = false := rfl
  have htries : (EntryEvent.activated object).tries other = false := rfl
  have hcount := h.tried other
  simp only [World.successes_recorded, World.attempts_recorded, hmatch, hsuccess, htries,
    Bool.false_eq_true, if_false, Nat.add_zero] at hcount ⊢
  omega

theorem settling_deactivated {object : Instance} (hdirect : (w.entry id).kind = .direct)
    (hwants : activatable object = true) (hfound : .acquired (.plugin object) ∈ w.eventsOf id) :
    Settling activatable (Pi.single id (-1)) w
      ((w.recorded id (.released (.plugin object))).recorded id (.deactivate object)) := by
  have hreleased : Settling activatable 0 w (w.recorded id (.released (.plugin object))) :=
    settling_noted hsound hid _ trivial rfl rfl
  have hadmitted : (EntryEvent.deactivate object).Admitted activatable (w.entry id).source
      ((w.recorded id (.released (.plugin object))).eventsOf id) := by
    rw [World.eventsOf_recorded_self]
    obtain ⟨_, ⟨⟩, hvouched⟩ := (hsound.accounted id).vouched hfound hdirect
    exact ⟨List.mem_append_left _ (hvouched hwants),
      List.mem_append_right _ (List.mem_singleton_self _)⟩
  have hundone := settling_recorded hreleased.sound hid (.deactivate object) hadmitted rfl rfl
  exact (hreleased.trans hundone).first

theorem settling_written {f : Entry → Entry}
    (hlabel : (f (w.entry id)).label = (w.entry id).label)
    (hsource : (f (w.entry id)).source = (w.entry id).source)
    (hdisposed : (w.entry id).disposed = true → (f (w.entry id)).disposed = true)
    (hwarm : ∀ x, (f (w.entry id)).warm = some x → .acquired x.component ∈ w.eventsOf id) {n : Int}
    (hn : (w.entry id).owes activatable = (f (w.entry id)).owes activatable + n) :
    Settling activatable (Pi.single id n) w (w.modifyEntry id f) := by
  have hentry := World.entry_modifyEntry_self f w hid
  refine ((Settling.refl hsound).ofFrame (Frame.modifyEntry hlabel hsource hdisposed) hid
    List.prefix_rfl (fun object => Nat.le_of_eq (Nat.add_comm _ _)) ?_ ?_).first
  · rw [World.eventsOf_modifyEntry, hentry]
    exact (hsound.accounted id).entry hsource hwarm
  · rw [World.eventsOf_modifyEntry, hentry]
    unfold balance
    omega

theorem settling_held {f : Entry → Entry}
    (hlabel : (f (w.entry id)).label = (w.entry id).label)
    (hsource : (f (w.entry id)).source = (w.entry id).source)
    (hhold : Entry.SameHold (w.entry id) (f (w.entry id))) :
    Settling activatable 0 w (w.modifyEntry id f) := by
  rw [← Pi.single_zero id]
  refine settling_written hsound hid hlabel hsource hhold.disposed.trans ?_ ?_
  · exact ((hsound.accounted id).hold hsource hhold).warm
  · rw [Entry.owes_hold hsource hhold, Int.add_zero]

end Steps

/-! ## Taking a component and giving it back -/

/-- A component is brought, and will be owed for once it is in its place. -/
def Brought (activatable : Instance → Bool) (id : EntryId) (w : World σ)
    (found : Option Component) (w' : World σ) : Prop :=
  match found with
  | none => Settling activatable 0 w w'
  | some c =>
    Settling activatable (Pi.single id ((w.entry id).source.owes activatable c : Int)) w w' ∧
      Vouched activatable (w.entry id).source (w'.eventsOf id) c

theorem Settling.brought_of_directory {r : Reference} (hsource : (w.entry id).source = .directory r)
    (h : Settling activatable 0 w w') (c : Component) :
    Brought activatable id w (some c) w' := by
  have howes : (((w.entry id).source.owes activatable c : Nat) : Int) = 0 := by
    rw [hsource]
    rfl
  refine ⟨?_, fun hdirect => ?_⟩
  · rw [howes, Pi.single_zero]
    exact h
  · rw [hsource] at hdirect
    cases hdirect

section Entries

variable (hsound : Sound env.code.activatable w) (hid : id < w.entries.length)
include hsound hid

theorem report_settling (n : Notice) :
    Ends (report id n) w fun _ w' => Settling env.code.activatable 0 w w' := by
  unfold report
  simp only [ends_bind, ends_entry]
  split
  · simp only [ends_bind, ends_modifyEntry, ends_note]
    have hflag : Settling env.code.activatable 0 w
        (w.modifyEntry id fun e => { e with armed := false }) :=
      settling_held hsound hid rfl rfl ⟨rfl, rfl⟩
    exact hflag.even (settling_log hflag.sound _)
  · exact .refl hsound

theorem acquireService_brought {r : Reference} (hsource : (w.entry id).source = .directory r)
    (label : String) :
    Ends (acquireService env id label r) w (Brought env.code.activatable id w) := by
  unfold acquireService
  simp only [ends_bind, ends_outside]
  rcases env.directory.getService r w.outside with ⟨given, s⟩
  have hgiven : Settling env.code.activatable 0 w (w.withOutside s) := settling_withOutside hsound s
  rcases given with _ | object | object | _
  · exact hgiven
  · exact hgiven.brought_of_directory hsource _
  · have hserial : Settling env.code.activatable 0 w
        { w.withOutside s with serial := w.serial + 1 } := .ofSame hsound rfl rfl hsound.ranged
    exact hserial.brought_of_directory hsource _
  · simp only [ends_bind, ends_record, ends_outside]
    have hback := hgiven.even (settling_noted hgiven.sound hid (.giveBack r) trivial rfl rfl)
    exact hback.even (settling_withOutside hback.sound _)

variable (hcode : env.code.Respects (Squared env.code.activatable))
include hcode

theorem instantiate_brought {factory : String} {known : Bool}
    (hsource : (w.entry id).source = .direct factory known) :
    Ends (instantiate env id factory known) w fun made w' =>
      Brought env.code.activatable id w made.toOption w' := by
  have howes (object : Instance) : (w.entry id).source.owes env.code.activatable (.plugin object) =
      if env.code.activatable object then 1 else 0 := by
    rw [hsource]
    rfl
  unfold instantiate
  split
  · exact .refl hsound
  simp only [ends_bind, ends_record]
  have hcreate := settling_noted hsound hid (.create factory) trivial rfl rfl
  refine ((hcode.create factory).ends _).imp fun made w₁ hcreated => ?_
  have hmade := hcreate.even (hcreated hcreate.sound)
  rcases made with f | object
  · exact hmade
  dsimp only
  split
  · rename_i hplain
    have hplain : env.code.activatable object = false := by simpa using hplain
    refine ⟨?_, fun _ => ⟨object, rfl, fun hwants => ?_⟩⟩
    · rw [howes, hplain]
      show Settling env.code.activatable (Pi.single id 0) w w₁
      rw [Pi.single_zero]
      exact hmade
    · rw [hplain] at hwants
      cases hwants
  rename_i hwants
  have hwants : env.code.activatable object = true := by simpa using hwants
  have hid₁ : id < w₁.entries.length := hid.trans_le hmade.length
  simp only [ends_bind, ends_record]
  have htry := settling_noted hmade.sound hid₁ (.activate object) hwants rfl rfl
  refine ((hcode.activate object).ends _).imp fun done w₂ hactivated => ?_
  rcases done with f | _
  · exact hmade.even (htry.even (hactivated htry.sound))
  · simp only [ends_bind, ends_record, ends_pure]
    have hdone := settling_activated hmade.sound hid₁ hwants (hactivated htry.sound)
    refine ⟨?_, fun _ => ⟨object, rfl, fun _ => ?_⟩⟩
    · rw [howes, hwants]
      exact (hmade.trans hdone).first
    · rw [World.eventsOf_recorded_self]
      exact List.mem_append_right _ (List.mem_singleton_self _)

theorem acquireDirect_brought {factory : String} {known : Bool}
    (hsource : (w.entry id).source = .direct factory known) :
    Ends (acquireDirect env id factory known) w (Brought env.code.activatable id w) := by
  unfold acquireDirect
  simp only [ends_bind, ends_get]
  split
  · simp only [ends_bind]
    exact report_settling hsound hid _
  simp only [ends_bind]
  refine (instantiate_brought hsound hid hcode hsource).imp ?_
  rintro (f | c) w₁ h
  · have h : Settling env.code.activatable 0 w w₁ := h
    simp only [ends_bind]
    refine (report_settling h.sound (hid.trans_le h.length) _).imp fun _ _ hreport => ?_
    exact h.even hreport
  · obtain ⟨hbrought, hvouched⟩ := h
    refine ⟨?_, hvouched⟩
    have hid' := hid.trans_le hbrought.length
    exact hbrought.even (settling_held hbrought.sound hid' rfl rfl ⟨rfl, rfl⟩)

theorem acquire_brought : Ends (acquire env id) w (Brought env.code.activatable id w) := by
  unfold acquire
  simp only [ends_bind, ends_entry]
  split
  · rename_i r hsource
    exact acquireService_brought hsound hid hsource _
  · rename_i factory known hsource
    exact acquireDirect_brought hsound hid hcode hsource

/-- Whoever gives a component back undoes what is owed for it. -/
theorem release_settling {c : Component} (hfound : .acquired c ∈ w.eventsOf id) :
    Ends (release env id c) w fun _ w' => Settling env.code.activatable
      (Pi.single id (-((w.entry id).source.owes env.code.activatable c : Int))) w w' := by
  have hreleased := settling_noted hsound hid (.released c) trivial rfl rfl
  have hnothing {w' : World σ} (hnone : (w.entry id).source.owes env.code.activatable c = 0)
      (h : Settling env.code.activatable 0 w w') : Settling env.code.activatable
        (Pi.single id (-((w.entry id).source.owes env.code.activatable c : Int))) w w' := by
    rw [hnone]
    show Settling env.code.activatable (Pi.single id 0) w w'
    rw [Pi.single_zero]
    exact h
  unfold release
  simp only [ends_bind, ends_record, ends_entry, World.entry_recorded]
  split
  · rename_i r hsource
    have hback := hreleased.even
      (settling_noted hreleased.sound hid (.giveBack r) trivial rfl rfl)
    refine hnothing ?_ (hback.even (settling_withOutside hback.sound _))
    rw [hsource]
    rfl
  rename_i factory known hsource
  cases c with
  | adapted =>
    refine hnothing ?_ hreleased
    rw [hsource]
    rfl
  | plugin object =>
    have howes : (w.entry id).source.owes env.code.activatable (.plugin object) =
        if env.code.activatable object then 1 else 0 := by
      rw [hsource]
      rfl
    dsimp only
    split
    · rename_i hwants
      have hdirect : (w.entry id).kind = .direct := by
        rw [Entry.kind, hsource]
        rfl
      have hundone := settling_deactivated hsound hid hdirect hwants hfound
      rw [howes, if_pos hwants]
      simp only [ends_bind, ends_record]
      refine ((hcode.deactivate object).ends _).imp fun done w₁ hdeactivated => ?_
      have hdone := hundone.even (hdeactivated hundone.sound)
      rcases done with f | _
      · exact hdone.even (settling_log hdone.sound _)
      · exact hdone
    · rename_i hplain
      refine hnothing ?_ hreleased
      rw [howes, if_neg hplain]

/-- Whatever is found has been acquired. -/
theorem resolve_settling : Ends (resolve env id) w fun found w' =>
    Settling env.code.activatable 0 w w' ∧ ∀ c, found = some c → .acquired c ∈ w'.eventsOf id := by
  unfold resolve
  simp only [ends_bind, ends_entry]
  split
  · exact ⟨.refl hsound, by rintro _ ⟨⟩⟩
  split
  · rename_i x hwarm
    refine ⟨.refl hsound, ?_⟩
    rintro _ ⟨⟩
    exact (hsound.accounted id).warm x hwarm
  simp only [ends_bind]
  refine (acquire_brought hsound hid hcode).imp ?_
  rintro (_ | c) w₁ h
  · have h : Settling env.code.activatable 0 w w₁ := h
    simp only [ends_bind, ends_modifyEntry, ends_pure]
    refine ⟨h.even ?_, by rintro _ ⟨⟩⟩
    exact settling_held h.sound (hid.trans_le h.length) rfl rfl ⟨rfl, rfl⟩
  obtain ⟨hbrought, hvouched⟩ := h
  have hid₁ : id < w₁.entries.length := hid.trans_le hbrought.length
  have hsource := hbrought.source id hid
  rw [← hsource] at hvouched
  have htaken := hbrought.even (settling_noted hbrought.sound hid₁ (.acquired c) hvouched rfl rfl)
  simp only [ends_bind, ends_record, ends_entry]
  have hmem : .acquired c ∈ (w₁.recorded id (.acquired c)).eventsOf id := by
    rw [World.eventsOf_recorded_self]
    exact List.mem_append_right _ (List.mem_singleton_self _)
  generalize w₁.recorded id (.acquired c) = w₂ at htaken hmem ⊢
  have hid₂ : id < w₂.entries.length := hid.trans_le htaken.length
  have hsource₂ := htaken.source id hid
  -- What was taken in vain is given back at once.
  have hreturned : Ends (release env id c) w₂ fun _ w' => Settling env.code.activatable 0 w w' ∧
      w₂.eventsOf id <+: w'.eventsOf id := by
    refine (release_settling htaken.sound hid₂ hcode hmem).imp fun _ w' hreleased => ?_
    rw [hsource₂] at hreleased
    exact ⟨htaken.settle hreleased, hreleased.events id⟩
  split
  · rw [ends_bind]
    exact hreturned.imp fun _ _ h => ⟨h.1, by rintro _ ⟨⟩⟩
  split
  · rename_i x hwarm
    rw [ends_bind]
    refine hreturned.imp fun _ w' h => ⟨h.1, ?_⟩
    rintro _ ⟨⟩
    exact h.2.subset ((htaken.sound.accounted id).warm x hwarm)
  · rename_i hcold
    simp only [ends_bind, ends_modifyEntry, ends_pure]
    refine ⟨htaken.settle (settling_written htaken.sound hid₂ rfl rfl (fun h => h) ?_ ?_), ?_⟩
    · rintro _ ⟨⟩
      exact hmem
    · rw [Entry.owes_of_cold hcold, Entry.owes_of_warm rfl, hsource₂]
      exact (Int.add_right_neg _).symm
    · rintro _ ⟨⟩
      exact hmem

def SquaredAt (activatable : Instance → Bool) (id : EntryId) (w w' : World σ) : Prop :=
  Sound activatable w → id < w.entries.length → Settling activatable 0 w w'

omit hsound hid in
theorem squared_asked (id : EntryId) : Asked env id (SquaredAt env.code.activatable id) where
  refl _ hsound _ := .refl hsound
  trans h h' hsound hid :=
    (h hsound hid).even (h' (h hsound hid).sound (hid.trans_le (h hsound hid).length))
  code := hcode.mono fun _ _ h hsound _ => h hsound
  log _ log hsound _ := settling_log hsound log
  turn _ {event} hturn hsound hid := by
    cases event <;> first | exact hturn.elim | exact settling_noted hsound hid _ trivial rfl rfl
  write _ _ hlabel hsource hhold hsound hid := settling_held hsound hid (hlabel _) (hsource _) hhold
  resolve _ hsound hid := (resolve_settling hsound hid hcode).1

theorem component_settling : Ends (component env id) w fun found w' =>
    Settling env.code.activatable 0 w w' ∧ ∀ c, found = some c → .acquired c ∈ w'.eventsOf id := by
  have hasked := squared_asked hcode id
  have hresolved : Settling env.code.activatable 0 w (resolve env id w).2 ∧
      ∀ c, (resolve env id w).1 = some c → .acquired c ∈ (resolve env id w).2.eventsOf id :=
    resolve_settling hsound hid hcode
  refine (hasked.initiated.componentNamed_found hasked.title w).imp ?_
  rintro _ w' ⟨rfl, hlater⟩
  have hsettling := hlater hresolved.1.sound (hid.trans_le hresolved.1.length)
  exact ⟨hresolved.1.even hsettling, fun c hc => (hsettling.events id).subset (hresolved.2 c hc)⟩

/-! ## Being disposed -/

theorem destroy_settling : Ends (destroy env id) w fun _ w' =>
    Settling env.code.activatable 0 w w' := by
  unfold destroy
  simp only [ends_bind, ends_entry]
  split
  · exact .refl hsound
  rename_i x hwarm
  split
  · exact .refl hsound
  simp only [ends_bind, ends_modifyEntry, ends_record]
  have hfree : Settling env.code.activatable 0 w
      (w.modifyEntry id fun e => { e with warm := some { x with bound := none } }) :=
    settling_held hsound hid rfl rfl ⟨by rw [hwarm]; rfl, rfl⟩
  have hdone := hfree.even (settling_noted hfree.sound (hid.trans_le hfree.length)
    (.destroy x.component) trivial rfl rfl)
  refine (((Squared.behaved hcode).callDestroy x.component).ends _).imp fun done w₁ hcalled => ?_
  rcases done with f | _ <;> exact hdone.even (hcalled hdone.sound)

theorem dispose_settling : Ends (dispose env id) w fun _ w' =>
    Settling env.code.activatable 0 w w' := by
  unfold dispose
  simp only [ends_bind, ends_entry, ends_modifyEntry]
  have hshut : Settling env.code.activatable
      (Pi.single id ((w.entry id).owes env.code.activatable : Int)) w
      (w.modifyEntry id fun e => { e with disposed := true, warm := none }) := by
    refine settling_written hsound hid rfl rfl (fun _ => rfl) (by rintro _ ⟨⟩) ?_
    exact (Int.zero_add _).symm
  generalize w.modifyEntry id (fun e => { e with disposed := true, warm := none }) = w₀ at hshut ⊢
  split
  · rename_i hcold
    rw [Entry.owes_of_cold hcold, Int.natCast_zero, Pi.single_zero] at hshut
    exact hshut
  rename_i x hwarm
  rw [Entry.owes_of_warm hwarm] at hshut
  -- What the entry had is gone from it, and has to be given back.
  have hrelease {w₁ : World σ} (h : Settling env.code.activatable 0 w₀ w₁) :
      Ends (release env id x.component) w₁ fun _ w' => Settling env.code.activatable 0 w w' := by
    have hshut₁ := hshut.even h
    have hid₁ : id < w₁.entries.length := hid.trans_le hshut₁.length
    have hfound : .acquired x.component ∈ w₁.eventsOf id :=
      (hshut₁.events id).subset ((hsound.accounted id).warm x hwarm)
    refine (release_settling hshut₁.sound hid₁ hcode hfound).imp fun _ w' hreleased => ?_
    rw [hshut₁.source id hid] at hreleased
    exact hshut₁.settle hreleased
  split
  · simp only [ends_bind, ends_record]
    have hid₀ : id < w₀.entries.length := hid.trans_le hshut.length
    have htold := settling_noted hshut.sound hid₀ (.destroy x.component) trivial rfl rfl
    refine (((Squared.behaved hcode).callDestroy x.component).ends _).imp fun done w₁ hcalled => ?_
    have hdone := htold.even (hcalled htold.sound)
    rcases done with f | _
    · simp only [ends_bind, ends_note]
      exact hrelease (hdone.even (settling_log hdone.sound _))
    · exact hrelease hdone
  · exact hrelease (.refl hshut.sound)

end Entries

/-! ## Everything else -/

theorem settling_entered (hsound : Sound activatable w) (label : String) (source : Source) :
    Settling activatable 0 w (w.entered { label, source }) := by
  have hunborn : w.eventsOf w.entries.length = [] := hsound.unborn _ (Nat.le_refl _)
  refine ⟨⟨ranged_entered hsound.ranged _, fun id hid => ?_, fun id => ?_⟩, ?_, fun id hid => ?_,
    fun id => List.prefix_rfl, fun object => Nat.le_of_eq (Nat.add_comm _ _), fun id => ?_⟩
  · rw [World.length_entered] at hid
    exact hsound.unborn id (Nat.le_of_succ_le hid)
  · rw [World.entry_entered]
    split
    · rename_i h
      rw [h, show (w.entered { label, source }).eventsOf w.entries.length = [] from hunborn]
      exact .fresh rfl
    · exact hsound.accounted id
  · rw [World.length_entered]
    exact Nat.le_succ _
  · rw [World.entry_entered_of_lt hid]
  · show balance activatable _ (w.eventsOf id) = balance activatable _ (w.eventsOf id) + 0
    rw [World.entry_entered, Int.add_zero]
    split
    · rename_i h
      have hdefault : w.entry id = default := World.entry_of_le h.ge
      have hcold : (w.entry id).warm = none := by
        rw [hdefault]
        rfl
      unfold balance
      rw [Entry.owes_of_cold hcold, Entry.owes_of_cold rfl]
    · rfl

theorem squared_governed {own : σ → σ → Prop} (hwithin : env.directory.Within own)
    (hcode : env.code.Respects (Squared env.code.activatable)) :
    Governed env own (Sound env.code.activatable)
      (fun w id => Sound env.code.activatable w ∧ id < w.entries.length)
      (Squared env.code.activatable) where
  refl _ := .refl
  trans h h' hsound := (h hsound).even (h' (h hsound).sound)
  aside _ _ hsound := .ofSame hsound rfl rfl hsound.ranged
  stays h hmay := ⟨(h hmay.1).sound, hmay.2.trans_le (h hmay.1).length⟩
  keeps h hready := (h hready).sound
  listed hready id hmem := ⟨hready, hready.ranged id hmem⟩
  component {w _} hmay := (component_settling hmay.1 hmay.2 hcode).imp fun _ _ h _ => h.1
  title {w id} hmay := ((squared_asked hcode id).title.ends w).imp fun _ _ h _ => h hmay.1 hmay.2
  category {w id} hmay :=
    ((squared_asked hcode id).category.ends w).imp fun _ _ h _ => h hmay.1 hmay.2
  init {w id} hmay ref :=
    (((squared_asked hcode id).init ref).ends w).imp fun _ _ h _ => h hmay.1 hmay.2
  destroy hmay := (destroy_settling hmay.1 hmay.2 hcode).imp fun _ _ h _ => h
  dispose hmay := (dispose_settling hmay.1 hmay.2 hcode).imp fun _ _ h _ => h
  log _ log hsound := settling_log hsound log
  count _ hsound := .ofSame hsound rfl rfl hsound.ranged
  within := hwithin
  settings _ _ _ _ hsound := .ofSame hsound rfl rfl hsound.ranged
  forgets _ hsound := .ofSame hsound rfl rfl hsound.ranged
  attaches _ _ hsound := .ofSame hsound rfl rfl hsound.ranged
  outside _ hsound := settling_withOutside hsound _
  enter _ label source hsound := settling_entered hsound label source
  entered {w} hready label source := by
    refine ⟨(settling_entered hready label source).sound, ?_⟩
    rw [World.length_entered]
    exact Nat.lt_succ_self _
  table _ hmay hsound := .ofSame hsound rfl rfl fun id hmem => (hmay id hmem).2

end Registry

end PluginConsole
