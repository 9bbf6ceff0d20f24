import Mathlib.Logic.Relation
import PluginConsole.Proofs.Act

/-!
# The moves of an entry

`Idle` is what does not concern the component of an entry, `Move` is one dealing with it from
beginning to end. `Frame` says what no move of an entry ever touches.
-/

open Relation (ReflTransGen)

namespace PluginConsole

variable {σ δ : Type}

/-! ## States of an entry -/

namespace Entry

/-- The same registration with the same component, alive or disposed alike. -/
structure SameSlot (a b : Entry) : Prop where
  label : b.label = a.label
  source : b.source = a.source
  warm : b.warm = a.warm
  disposed : b.disposed = a.disposed

def shut (e : Entry) : Entry :=
  { e with disposed := true, warm := none }

def install (c : Component) (e : Entry) : Entry :=
  { e with broken := false, warm := some ⟨c, none⟩ }

def bindTo (c : Component) (ref : Option ContextRef) (e : Entry) : Entry :=
  { e with warm := some ⟨c, ref⟩ }

def arm (e : Entry) : Entry :=
  { e with armed := true }

theorem SameSlot.refl (e : Entry) : SameSlot e e := ⟨rfl, rfl, rfl, rfl⟩

theorem SameSlot.trans {a b c : Entry} (h : SameSlot a b) (h' : SameSlot b c) : SameSlot a c :=
  ⟨h'.label.trans h.label, h'.source.trans h.source, h'.warm.trans h.warm,
    h'.disposed.trans h.disposed⟩

end Entry

namespace Lifecycle

variable (env : Environment σ) (view : σ → δ) (id : EntryId)

/-! ## Moves -/

/-- What an entry may do at any time: run code that does not come back, write the log, or
remember something that says nothing of its component. -/
inductive Idle : World σ → World σ → Prop where
  | call {w : World σ} {s : σ} (h : view s = view w.outside) : Idle w (w.withOutside s)
  | aside (w : World σ) (log : List Notice) (serial : Nat) (inHand : List EntryId) :
    Idle w { w with log, serial, inHand }
  | remember {f : Entry → Entry} (w : World σ) (h : ∀ e, Entry.SameSlot e (f e)) :
    Idle w (w.modifyEntry id f)

inductive Naming (c : Component) : World σ → World σ → Prop where
  | idle {w w' : World σ} (h : Idle view id w w') : Naming c w w'
  | ask (w : World σ) : Naming c w (w.recorded id (.title c))

/-- A component is found, but not yet in its place. -/
inductive Acquired : Component → World σ → World σ → Prop where
  | plugin {w : World σ} {r : Reference} {object : Instance} {s : σ}
    (hsource : (w.entry id).source = .directory r)
    (hget : env.directory.getService r w.outside = (some (.plugin object), s)) :
    Acquired (.plugin object) w (w.withOutside s)
  | handler {w : World σ} {r : Reference} {object : Instance} {s : σ}
    (hsource : (w.entry id).source = .directory r)
    (hget : env.directory.getService r w.outside = (some (.handler object), s)) :
    Acquired (.adapted w.serial object (w.entry id).label r) w
      { w.withOutside s with serial := w.serial + 1 }
  | made {w : World σ} {factory : String} {known : Bool} (object : Instance)
    (hsource : (w.entry id).source = .direct factory known) :
    Acquired (.plugin object) w (w.modifyEntry id Entry.arm)
  | activated {w : World σ} {factory : String} {known : Bool} (object : Instance)
    (hsource : (w.entry id).source = .direct factory known) :
    Acquired (.plugin object) w
      ((w.recorded id (.activated object)).modifyEntry id Entry.arm)

inductive Released (c : Component) : World σ → World σ → Prop where
  | directory {w : World σ} {r : Reference} (hsource : (w.entry id).source = .directory r) :
    Released c w ((w.recorded id (.released c)).recorded id (.giveBack r) |>.withOutside
      (env.directory.releaseService r w.outside).2)
  | direct {w : World σ} {factory : String} {known : Bool}
    (hsource : (w.entry id).source = .direct factory known) :
    Released c w (w.recorded id (.released c))
  | deactivated {w : World σ} {factory : String} {known : Bool} (object : Instance)
    (hsource : (w.entry id).source = .direct factory known) :
    Released c w ((w.recorded id (.released c)).recorded id (.deactivate object))

/-- The entry is disposed: a component that is bound is torn down, then it is released. -/
inductive Parting : World σ → World σ → Prop where
  | cold {w : World σ} (hcold : (w.entry id).warm = none) :
    Parting w (w.modifyEntry id Entry.shut)
  | unbound {w w' : World σ} {c : Component} (hwarm : (w.entry id).warm = some ⟨c, none⟩)
    (h : Released env id c (w.modifyEntry id Entry.shut) w') : Parting w w'
  | bound {w w' w'' : World σ} {c : Component} {ref : ContextRef}
    (hwarm : (w.entry id).warm = some ⟨c, some ref⟩)
    (hidle : ReflTransGen (Idle view id)
      ((w.modifyEntry id Entry.shut).recorded id (.destroy c)) w')
    (h : Released env id c w' w'') : Parting w w''

/-- One dealing of an entry with its component, or with whoever may give it one. -/
inductive Move : World σ → World σ → Prop where
  | idle {w w' : World σ} (h : Idle view id w w') : Move w w'
  | create {w : World σ} (factory : String) (hlive : (w.entry id).disposed = false) :
    Move w (w.recorded id (.create factory))
  | activate {w : World σ} (object : Instance) (hlive : (w.entry id).disposed = false) :
    Move w (w.recorded id (.activate object))
  /-- The directory does not have the service. -/
  | miss {w : World σ} {r : Reference} {s : σ}
    (hsource : (w.entry id).source = .directory r)
    (hget : env.directory.getService r w.outside = (none, s)) : Move w (w.withOutside s)
  /-- The service is of no use, and its hold is given back at once. -/
  | refuse {w : World σ} {r : Reference} {s : σ} (hlive : (w.entry id).disposed = false)
    (hsource : (w.entry id).source = .directory r)
    (hget : env.directory.getService r w.outside = (some .other, s)) :
    Move w (((w.withOutside s).recorded id (.giveBack r)).withOutside
      (env.directory.releaseService r s).2)
  | acquire {w w' : World σ} {c : Component} (hcold : (w.entry id).warm = none)
    (hlive : (w.entry id).disposed = false) (h : Acquired env id c w w') :
    Move w ((w'.recorded id (.acquired c)).modifyEntry id (Entry.install c))
  | title {w : World σ} {x : Warm} (hwarm : (w.entry id).warm = some x) :
    Move w (w.recorded id (.title x.component))
  | category {w : World σ} {x : Warm} (hwarm : (w.entry id).warm = some x) :
    Move w (w.recorded id (.category x.component))
  /-- The context is claimed first, then the title is found, then the component is called. -/
  | init {w w' : World σ} {x : Warm} {ref : ContextRef} (config : InitConfig)
    (hwarm : (w.entry id).warm = some x) (hcontext : w.context = some ref)
    (hnew : x.bound.any (·.serial == ref.serial) = false)
    (hname : ReflTransGen (Naming view id x.component)
      (w.modifyEntry id (Entry.bindTo x.component (some ref))) w') :
    Move w (w'.recorded id (.init x.component ref config))
  | destroy {w : World σ} {c : Component} {ref : ContextRef}
    (hwarm : (w.entry id).warm = some ⟨c, some ref⟩) :
    Move w ((w.modifyEntry id (Entry.bindTo c none)).recorded id (.destroy c))
  | part {w w' : World σ} (h : Parting env view id w w') : Move w w'

abbrev Moves : World σ → World σ → Prop :=
  ReflTransGen (Move env view id)

/-! ## What moves leave alone -/

variable {env view id} {w w' w'' : World σ}

/-- All that is not about this entry stays, and it keeps its registration. -/
structure Frame (id : EntryId) (w w' : World σ) : Prop where
  table : w'.table = w.table
  defaultLabel : w'.defaultLabel = w.defaultLabel
  subscription : w'.subscription = w.subscription
  context : w'.context = w.context
  keepers : w'.keepers = w.keepers
  length : w'.entries.length = w.entries.length
  others : ∀ other, other ≠ id → w'.entry other = w.entry other
  events : ∀ other, other ≠ id → w'.eventsOf other = w.eventsOf other
  label : (w'.entry id).label = (w.entry id).label
  source : (w'.entry id).source = (w.entry id).source
  disposed : (w.entry id).disposed = true → (w'.entry id).disposed = true

namespace Frame

theorem refl (w : World σ) : Frame id w w := by
  constructor <;> simp

theorem trans (h : Frame id w w') (h' : Frame id w' w'') : Frame id w w'' where
  table := h'.table.trans h.table
  defaultLabel := h'.defaultLabel.trans h.defaultLabel
  subscription := h'.subscription.trans h.subscription
  context := h'.context.trans h.context
  keepers := h'.keepers.trans h.keepers
  length := h'.length.trans h.length
  others other ho := (h'.others other ho).trans (h.others other ho)
  events other ho := (h'.events other ho).trans (h.events other ho)
  label := h'.label.trans h.label
  source := h'.source.trans h.source
  disposed hd := h'.disposed (h.disposed hd)

theorem ofCourse {R : World σ → World σ → Prop} (hstep : ∀ {a b}, R a b → Frame id a b)
    (h : ReflTransGen R w w') : Frame id w w' := by
  induction h with
  | refl => exact refl _
  | tail _ hab ih => exact ih.trans (hstep hab)

theorem recorded (event : EntryEvent) (w : World σ) : Frame id w (w.recorded id event) := by
  constructor
  case events => exact fun other ho => World.eventsOf_recorded_of_ne ho event w
  all_goals simp [World.recorded, World.entry]

theorem withOutside (s : σ) (w : World σ) : Frame id w (w.withOutside s) := by
  constructor <;> simp [World.withOutside, World.entry, World.eventsOf]

theorem aside (log : List Notice) (serial : Nat) (inHand : List EntryId) (w : World σ) :
    Frame id w { w with log, serial, inHand } := by
  constructor <;> simp [World.entry, World.eventsOf]

theorem modifyEntry {f : Entry → Entry} {w : World σ}
    (hlabel : (f (w.entry id)).label = (w.entry id).label)
    (hsource : (f (w.entry id)).source = (w.entry id).source)
    (hdisposed : (w.entry id).disposed = true → (f (w.entry id)).disposed = true) :
    Frame id w (w.modifyEntry id f) where
  table := rfl
  defaultLabel := rfl
  subscription := rfl
  context := rfl
  keepers := rfl
  length := World.length_modifyEntry id f w
  others other ho := World.entry_modifyEntry_of_ne ho f w
  events _ _ := rfl
  label := by rcases World.entry_modifyEntry_cases id f w with h | h <;> rw [h]; exact hlabel
  source := by rcases World.entry_modifyEntry_cases id f w with h | h <;> rw [h]; exact hsource
  disposed hd := by
    rcases World.entry_modifyEntry_cases id f w with h | h <;> rw [h]
    · exact hdisposed hd
    · exact hd

end Frame

theorem frame_arm (w : World σ) : Frame id w (w.modifyEntry id Entry.arm) :=
  Frame.modifyEntry rfl rfl fun h => h

theorem frame_install (c : Component) (w : World σ) :
    Frame id w (w.modifyEntry id (Entry.install c)) :=
  Frame.modifyEntry rfl rfl fun h => h

theorem frame_shut (w : World σ) : Frame id w (w.modifyEntry id Entry.shut) :=
  Frame.modifyEntry rfl rfl fun _ => rfl

theorem frame_bindTo (c : Component) (ref : Option ContextRef) (w : World σ) :
    Frame id w (w.modifyEntry id (Entry.bindTo c ref)) :=
  Frame.modifyEntry rfl rfl fun h => h

theorem Idle.frame (h : Idle view id w w') : Frame id w w' := by
  cases h with
  | call => exact Frame.withOutside _ w
  | aside => exact Frame.aside _ _ _ w
  | remember _ hf =>
    exact Frame.modifyEntry (hf _).label (hf _).source (hf _).disposed.trans

theorem Naming.frame {c : Component} (h : Naming view id c w w') : Frame id w w' := by
  cases h with
  | idle h => exact h.frame
  | ask => exact Frame.recorded _ w

theorem Acquired.frame {c : Component} (h : Acquired env id c w w') : Frame id w w' := by
  cases h with
  | plugin | handler => constructor <;> simp [World.withOutside, World.entry, World.eventsOf]
  | made => exact frame_arm w
  | activated => exact (Frame.recorded _ w).trans (frame_arm _)

theorem Released.frame {c : Component} (h : Released env id c w w') : Frame id w w' := by
  cases h with
  | directory =>
    exact ((Frame.recorded _ w).trans (Frame.recorded _ _)).trans (Frame.withOutside _ _)
  | direct => exact Frame.recorded _ w
  | deactivated => exact (Frame.recorded _ w).trans (Frame.recorded _ _)

theorem Parting.frame (h : Parting env view id w w') : Frame id w w' := by
  cases h with
  | cold => exact frame_shut w
  | unbound _ h => exact (frame_shut w).trans h.frame
  | bound _ hidle h =>
    exact (((frame_shut w).trans (Frame.recorded _ _)).trans
      (Frame.ofCourse Idle.frame hidle)).trans h.frame

theorem Move.frame (h : Move env view id w w') : Frame id w w' := by
  cases h with
  | idle h => exact h.frame
  | create | activate | title | category => exact Frame.recorded _ w
  | miss => exact Frame.withOutside _ w
  | refuse =>
    exact ((Frame.withOutside _ w).trans (Frame.recorded _ _)).trans (Frame.withOutside _ _)
  | acquire _ _ h =>
    exact (h.frame.trans (Frame.recorded _ _)).trans (frame_install _ _)
  | init _ _ _ _ hname =>
    exact ((frame_bindTo _ _ w).trans (Frame.ofCourse Naming.frame hname)).trans
      (Frame.recorded _ _)
  | destroy => exact (frame_bindTo _ _ w).trans (Frame.recorded _ _)
  | part h => exact h.frame

theorem Moves.frame (h : Moves env view id w w') : Frame id w w' :=
  Frame.ofCourse Move.frame h

/-! ## The slot while nothing is done to it -/

theorem Idle.slot (h : Idle view id w w') : Entry.SameSlot (w.entry id) (w'.entry id) := by
  cases h with
  | call | aside => exact .refl _
  | remember _ hf =>
    rcases World.entry_modifyEntry_cases id _ w with h | h <;> rw [h]
    · exact hf _
    · exact .refl _

theorem Naming.slot {c : Component} (h : ReflTransGen (Naming view id c) w w') :
    Entry.SameSlot (w.entry id) (w'.entry id) := by
  induction h with
  | refl => exact .refl _
  | tail _ hstep ih =>
    cases hstep with
    | idle h => exact ih.trans h.slot
    | ask => exact ih

/-! ## The surroundings while the directory is not asked -/

theorem Idle.view_eq (h : Idle view id w w') : view w'.outside = view w.outside := by
  cases h with
  | call h => exact h
  | aside | remember => rfl

theorem Idles.view_eq (h : ReflTransGen (Idle view id) w w') :
    view w'.outside = view w.outside := by
  induction h with
  | refl => rfl
  | tail _ hstep ih => exact hstep.view_eq.trans ih

theorem Naming.view_eq {c : Component} (h : ReflTransGen (Naming view id c) w w') :
    view w'.outside = view w.outside := by
  induction h with
  | refl => rfl
  | tail _ hstep ih =>
    cases hstep with
    | idle h => exact h.view_eq.trans ih
    | ask => exact ih

/-! ## The end of an entry -/

structure Over (id : EntryId) (w : World σ) : Prop where
  disposed : (w.entry id).disposed = true
  cold : (w.entry id).warm = none

theorem Over.slot (h : Over id w) (hslot : Entry.SameSlot (w.entry id) (w'.entry id)) :
    Over id w' :=
  ⟨hslot.disposed.trans h.disposed, hslot.warm.trans h.cold⟩

theorem over_modifyEntry {f : Entry → Entry} (h : Over id w)
    (hf : ∀ e, e.disposed = true → e.warm = none → (f e).disposed = true ∧ (f e).warm = none) :
    Over id (w.modifyEntry id f) := by
  obtain ⟨hdisposed, hcold⟩ := hf _ h.disposed h.cold
  rcases World.entry_modifyEntry_cases id f w with he | he
  · exact ⟨by rw [he]; exact hdisposed, by rw [he]; exact hcold⟩
  · exact ⟨by rw [he]; exact h.disposed, by rw [he]; exact h.cold⟩

/-- An entry that is over stays so, and does nothing any more. -/
theorem Move.ended (h : Move env view id w w') (hover : Over id w) :
    Over id w' ∧ w'.eventsOf id = w.eventsOf id := by
  have hdead : (w.entry id).disposed ≠ false := by simp [hover.disposed]
  have hcold := hover.cold
  cases h with
  | idle h =>
    refine ⟨hover.slot h.slot, ?_⟩
    cases h <;> rfl
  | create _ hlive | activate _ hlive | refuse hlive | acquire _ hlive => exact absurd hlive hdead
  | miss => exact ⟨⟨hover.disposed, hover.cold⟩, rfl⟩
  | title hwarm | category hwarm | init _ hwarm | destroy hwarm => simp [hcold] at hwarm
  | part h =>
    cases h with
    | cold => exact ⟨over_modifyEntry hover fun _ _ _ => ⟨rfl, rfl⟩, rfl⟩
    | unbound hwarm | bound hwarm => simp [hcold] at hwarm

end Lifecycle

end PluginConsole
