import PluginConsole.Proofs.Registry.Attend
import PluginConsole.Proofs.Registry.Lifetime
import PluginConsole.Proofs.Registry.Retreat
import PluginConsole.Proofs.Registry.Settle
import PluginConsole.Proofs.Site.Outcome

/-!
# A registry in use, and how it is left

While a context is attached and entries are only asked, each of them serves under that context. At
the end every service comes to its end.
-/

namespace PluginConsole

theorem InUse.fresh {activatable : Instance → Bool} {ref : ContextRef} {e : Entry}
    (hcold : e.warm = none) : InUse activatable ref e [] where
  bracketed := .nil
  fits := hcold
  bound x hx := by
    rw [hcold] at hx
    cases hx
  whole _ := List.not_mem_nil
  told _ _ _ hmem := absurd hmem List.not_mem_nil
  unused _ := rfl
  accounted := .fresh hcold
  even := by
    unfold balance
    rw [Entry.owes_of_cold hcold]
    rfl

namespace Site

open Act Registry Lifecycle

variable {π δ : Type} {code : PluginCode (Site π)} {w w' : World (Site π)} {ref : ContextRef}
variable {references : List Reference}

/-! ## In use -/

/-- What a registry is asked for while it is used: look-ups, label maps and listings. What is
switched off may change meanwhile. -/
def Action.IsUse (view : Site π → δ) : Action π → Prop
  | .registry op => op.Asks ∧ op.Calm view
  | .setDisabled _ => True
  | .publish .. | .modify .. | .withdraw _ | .observe .. => False

/-- A registry under one context, over the services of these references. Nobody else listens to
them. -/
structure Underway (code : PluginCode (Site π)) (ref : ContextRef) (references : List Reference)
    (w : World (Site π)) : Prop extends Ready w where
  context : w.context = some ref
  traced : Traced w
  sound : Sound code.activatable w
  inUse : ∀ id, InUse code.activatable ref (w.entry id) (w.eventsOf id)
  published : w.outside.directory.services.map (·.reference) = references
  alone : ∀ s ∈ w.outside.directory.subscriptions, s.listener = .registry

theorem Underway.outside (h : Underway code ref references w) {s : Site π}
    (hs : s.directory = w.outside.directory) : Underway code ref references (w.withOutside s) where
  toTidy := ⟨⟨h.sorted, h.filed⟩, fun id hid =>
    (h.settled id hid).imp_right fun hover => ⟨hover.disposed, hover.cold⟩⟩
  kept := h.kept
  subscriptions := hs ▸ h.subscriptions
  context := h.context
  traced := ⟨h.traced.ranged, fun id => ⟨(h.inUse id).bracketed, (h.inUse id).fits⟩,
    h.traced.unborn⟩
  sound := ⟨h.sound.ranged, h.sound.unborn, h.sound.accounted⟩
  inUse := h.inUse
  published := hs ▸ h.published
  alone := hs ▸ h.alone

section Code

variable (hcode : code.Spares Site.directory)
include hcode

theorem squared_respects : code.Respects (Squared code.activatable) :=
  hcode.respects fun _ s _ hsound => settling_withOutside hsound s

theorem Underway.asked (h : Underway code ref references w) {op : Operation (Site π)}
    (hasks : op.Asks) (hcalm : op.Calm Site.directory) :
    Ends (perform (environment code) op) w fun _ w' => Underway code ref references w' := by
  have hspares : (environment code).code.Spares Site.directory := hcode
  have hact := act_ready hcode h.toReady (.registry op) hcalm
  have hvisits := perform_visits hspares h.ranged hasks hcalm
  have hattended := perform_attended hspares h.ranged hasks
  have hsettled : Ends (perform (environment code) op) w
      fun _ w' => Squared code.activatable w w' :=
    (squared_governed (environment code).directory.within_any (squared_respects hcode)).perform
      h.sound op
  have hwhole : Ends (perform (environment code) op) w fun _ w' => Whole w w' :=
    (whole_inquired hspares).queried.perform
      (fun _ _ _ _ _ _ => fun _ _ hmem => hmem) trivial hasks op.calm_blind
  refine ((((hact.and hvisits).and hattended).and hsettled).and hwhole).imp ?_
  rintro _ w' ⟨⟨⟨⟨⟨hready, -⟩, hvisits⟩, hattended⟩, hsettled⟩, hwhole⟩
  have halike := alike_visits hvisits
  have hsettling := hsettled h.sound
  have hsteps : Steps (environment code) Site.directory Turns w w' := Visits.steps hvisits
  have htraced := hsteps.traced h.traced
  have hcontext := hattended.kept.context.trans h.context
  refine ⟨hready, hcontext, htraced, hsettling.sound, fun id => ?_, ?_, ?_⟩
  · have hbefore := h.inUse id
    have hconsulted := hattended.consulted id
    refine ⟨(htraced.onCourse id).bracketed, (htraced.onCourse id).fits, fun x hx => ?_,
      fun c hmem => hbefore.whole c (hwhole id c hmem), fun c r config hmem => ?_,
      fun hdisposed => ?_, hsettling.sound.accounted id, ?_⟩
    · rcases hconsulted.slot.bound_or hx with hbound | hsame
      · exact hbound.trans h.context
      · exact hbefore.bound x hsame
    · rcases Visits.told hvisits hmem with hmem | hsome
      · exact hbefore.told c r config hmem
      · exact Option.some.inj (hsome.symm.trans h.context)
    · rw [hconsulted.disposed] at hdisposed
      have hnone := hbefore.unused hdisposed
      have hcold : (w.entry id).warm = none := by
        have hfits := hbefore.fits
        rw [hnone] at hfits
        exact hfits
      by_cases hid : id < w.entries.length
      · rw [(hsteps.grown.ended id hid ⟨hdisposed, hcold⟩).2, hnone]
      · rw [not_lt, ← hattended.kept.length] at hid
        exact htraced.unborn id hid
    · rw [hsettling.balance id, hbefore.even]
      rfl
  · rw [halike.shape.references]
    exact h.published
  · rw [halike.shape.subscriptions]
    exact h.alone

theorem Underway.use (h : Underway code ref references w) {action : Action π}
    (huse : action.IsUse Site.directory) :
    Ends (act (environment code) action) w fun _ w' => Underway code ref references w' := by
  cases action with
  | registry op => exact h.asked hcode huse.1 huse.2
  | setDisabled factories => exact h.outside rfl
  | publish | modify | withdraw | observe => exact absurd huse id

end Code

/-! ## The end -/

def farewell (references : List Reference) : List (Action π) :=
  .registry (.setContext none) :: references.map .withdraw ++ [.registry .close]

def Action.IsFarewell : Action π → Prop
  | .registry .close | .registry (.setContext none) | .withdraw _ => True
  | _ => False

theorem isFarewell_of_withdraw {action : Action π} (h : action ∈ references.map .withdraw) :
    action.IsFarewell := by
  obtain ⟨r, -, rfl⟩ := List.mem_map.mp h
  exact trivial

theorem isFarewell_of_mem {action : Action π} (h : action ∈ farewell references) :
    action.IsFarewell := by
  unfold farewell at h
  rcases List.mem_append.mp h with h | h
  · rcases List.mem_cons.mp h with rfl | h
    · exact trivial
    · exact isFarewell_of_withdraw h
  · rw [List.mem_singleton.mp h]
    exact trivial

theorem Action.IsFarewell.calm {action : Action π} (h : action.IsFarewell) : action.Calm := by
  unfold Action.IsFarewell at h
  split at h <;> first | exact trivial | exact absurd h id

theorem directory_withdrawn (id : Nat) (w : World (Site π)) :
    (withdrawn id w).outside.directory = w.outside.directory.remove id := by
  unfold withdrawn
  split
  · rename_i hnone
    unfold Directory.reference? Directory.find? at hnone
    rw [Option.map_eq_none_iff, List.find?_eq_none] at hnone
    unfold Directory.remove
    rw [List.filter_eq_self.mpr fun s hs => ?_]
    simpa using hnone s hs
  · rfl

theorem subscription_withdrawn (id : Nat) (w : World (Site π)) :
    (withdrawn id w).subscription = w.subscription := by
  unfold withdrawn
  split
  · rfl
  · split
    · exact (tableOnly_dismissed _ w).subscription
    · rfl

theorem services_closed (w : World (Site π)) :
    (closed w).outside.directory.services = w.outside.directory.services := by
  unfold closed
  cases w.subscription <;> rfl

theorem subscriptions_closed (w : World (Site π)) :
    (closed w).outside.directory.subscriptions ⊆ w.outside.directory.subscriptions := by
  unfold closed
  cases w.subscription with
  | none => exact fun _ hs => hs
  | some n => exact fun _ hs => (List.mem_filter.mp hs).1

/-- A closed registry without a context, over an empty directory. -/
structure Vacated (w : World (Site π)) : Prop where
  services : w.outside.directory.services = []
  subscriptions : w.outside.directory.subscriptions = []
  closed : isOpen w = false
  table : w.table = []
  defaultLabel : w.defaultLabel = none
  context : w.context = none

section Code

variable (hcode : code.Spares Site.directory)
include hcode

theorem act_squared (hsound : Sound code.activatable w) (action : Action π) :
    Ends (act (environment code) action) w fun _ w' => Settling code.activatable 0 w w' := by
  have hgoverned : Governed (environment code) Turns _ _ (Squared code.activatable) :=
    squared_governed environment_within (squared_respects hcode)
  have hobserve (name : String) (event : DirectoryEvent) :
      (code.observe name event).Respects (Squared code.activatable) :=
    (hcode.observe name event).respects fun _ s _ hsound => settling_withOutside hsound s
  have hstable : Stable code fun w' => Squared code.activatable w w' :=
    stable_managed hobserve hsound hgoverned.toManaged
  have hact : Ends (act (environment code) action) w fun _ w' => Squared code.activatable w w' :=
    hstable.act (hgoverned.refl w) fun op _ =>
      (squared_governed (environment code).directory.within_any (squared_respects hcode)).perform
        hsound op
  exact hact.imp fun _ _ h => h hsound

theorem act_retreats {action : Action π} (h : action.IsFarewell) :
    Ends (act (environment code) action) w fun _ w' => Retreats w w' := by
  have hspares : (environment code).code.Spares Site.directory := hcode
  have hmanaged := retreats_managed hspares environment_within
  have hobserve (name : String) (event : DirectoryEvent) :
      (code.observe name event).Respects Retreats :=
    (hcode.observe name event).respects fun _ _ _ => .ofSame (fun h => h) rfl
  unfold Action.IsFarewell at h
  split at h
  · exact hmanaged.closeRegistry trivial
  · exact hmanaged.detach trivial
  · rw [act, ends_discard]
    exact (stable_managed hobserve trivial hmanaged).withdraw (hmanaged.refl w) _
  · exact absurd h id

theorem act_traced (htidy : Tidy w) (htraced : Traced w) {action : Action π} (hcalm : action.Calm) :
    Ends (act (environment code) action) w fun _ w' => Tidy w' ∧ Traced w' :=
  (act_changes hcode htidy hcalm).imp fun _ _ h =>
    ⟨h.tidy htidy, (h.steps htidy.ranged).traced htraced⟩

/-! ### Runs that only take away -/

section Farewell

variable {actions : List (Action π)} (hactions : ∀ action ∈ actions, action.IsFarewell)
include hactions

theorem runActions_retreats : Retreats w (runActions (environment code) actions w) :=
  runActions_keeps (fun w' => Retreats w w')
    (fun _ _ haction h => (act_retreats hcode haction).imp fun _ _ => h.trans) hactions
    (.ofSame (fun h => h) rfl)

/-- Who is in use comes to an end when the table is empty afterwards. -/
theorem Underway.finished (h : Underway code ref references w)
    (hempty : (runActions (environment code) actions w).table = []) (id : EntryId) :
    Finished ref ((runActions (environment code) actions w).eventsOf id) := by
  obtain ⟨htidy, htraced⟩ : Tidy (runActions (environment code) actions w) ∧
      Traced (runActions (environment code) actions w) :=
    runActions_keeps (fun w' => Tidy w' ∧ Traced w')
      (fun _ _ haction ⟨htidy, htraced⟩ => act_traced hcode htidy htraced haction.calm) hactions
      ⟨h.toTidy, h.traced⟩
  have hsettling : Settling code.activatable 0 w (runActions (environment code) actions w) :=
    runActions_keeps (fun w' => Settling code.activatable 0 w w')
      (fun _ action _ hw' => (act_squared hcode hw'.sound action).imp fun _ _ => hw'.even) hactions
      (.refl h.sound)
  obtain ⟨added, hending, hevents⟩ := (runActions_retreats hcode hactions).endings id
  generalize runActions (environment code) actions w = w' at *
  have hcold : (w'.entry id).warm = none := by
    by_cases hid : id < w'.entries.length
    · refine ((htidy.settled id hid).resolve_left fun hmem => ?_).cold
      unfold snapshot at hmem
      rw [hempty] at hmem
      exact absurd hmem List.not_mem_nil
    · rw [World.entry_of_le (not_lt.mp hid)]
      rfl
  have hbracketed := (htraced.onCourse id).bracketed
  have hleft (c : Component) (bound : Option Nat) : phase (w'.eventsOf id) ≠ .held c bound := by
    intro hphase
    have hfits := (htraced.onCourse id).fits
    rw [hphase] at hfits
    obtain ⟨-, x, hwarm, -⟩ := hfits
    rw [hcold] at hwarm
    cases hwarm
  have haccounted := hsettling.sound.accounted id
  have heven : balance code.activatable (w'.entry id) (w'.eventsOf id) = 0 := by
    rw [hsettling.balance id, (h.inUse id).even]
    rfl
  rw [hevents] at hbracketed hleft haccounted heven ⊢
  exact (h.inUse id).finished hbracketed hending hleft haccounted heven hcold

end Farewell

/-! ### The farewell -/

/-- Whatever is published afterwards was so before and is none of those that were withdrawn. -/
structure Withdrawn (gone : List Reference) (w w' : World (Site π)) : Prop where
  subscription : w'.subscription = w.subscription
  subscriptions : w'.outside.directory.subscriptions = w.outside.directory.subscriptions
  published : ∀ r ∈ w'.outside.directory.services.map (·.reference),
    r ∈ w.outside.directory.services.map (·.reference) ∧ ∀ other ∈ gone, r.id ≠ other.id

theorem withdraw_ready (h : Ready w) (r : Reference) :
    Ends (act (environment code) (.withdraw r)) w fun _ w' => Ready w' ∧ Withdrawn [r] w w' := by
  refine (act_ready hcode h (.withdraw r) trivial).imp fun _ w' ⟨hready, halike⟩ => ⟨hready, ?_⟩
  have hdirectory := directory_withdrawn r.id w
  refine ⟨halike.subscription.trans (subscription_withdrawn r.id w), ?_, fun other hmem => ?_⟩
  · rw [halike.shape.subscriptions, outcome, hdirectory]
    rfl
  · rw [halike.shape.references, outcome, hdirectory] at hmem
    obtain ⟨s, hs, rfl⟩ := List.mem_map.mp hmem
    obtain ⟨hold, hother⟩ := List.mem_filter.mp hs
    refine ⟨List.mem_map_of_mem hold, fun gone hgone => ?_⟩
    rw [List.mem_singleton.mp hgone]
    simpa using hother

theorem runActions_withdraw (h : Ready w) (gone : List Reference) :
    Ready (runActions (environment code) (gone.map .withdraw) w) ∧
      Withdrawn gone w (runActions (environment code) (gone.map .withdraw) w) := by
  induction gone generalizing w with
  | nil => exact ⟨h, rfl, rfl, fun r hmem => ⟨hmem, fun _ hother => absurd hother List.not_mem_nil⟩⟩
  | cons r rest ih =>
    obtain ⟨hready, hfirst⟩ : Ready (act (environment code) (.withdraw r) w).2 ∧
        Withdrawn [r] w (act (environment code) (.withdraw r) w).2 := withdraw_ready hcode h r
    obtain ⟨hready', hrest⟩ := ih hready
    rw [List.map_cons, runActions_cons]
    refine ⟨hready', hrest.subscription.trans hfirst.subscription,
      hrest.subscriptions.trans hfirst.subscriptions, fun other hmem => ?_⟩
    obtain ⟨hmem, hothers⟩ := hrest.published other hmem
    obtain ⟨hmem, hother⟩ := hfirst.published other hmem
    exact ⟨hmem, List.forall_mem_cons.mpr ⟨hother r (List.mem_singleton_self r), hothers⟩⟩

theorem detach_ready (h : Ready w) :
    Ends (act (environment code) (.registry (.setContext none))) w fun _ w' =>
      Ready w' ∧ Alike w w' ∧ w'.context = none := by
  have hact := act_ready hcode h (.registry (.setContext none)) trivial
  have hspares : (environment code).code.Spares Site.directory := hcode
  refine (hact.and (detach_spec hspares h.ranged)).imp ?_
  rintro _ w' ⟨⟨hready, halike⟩, w₁, log, -, rfl⟩
  exact ⟨hready, halike, rfl⟩

theorem close_ready (h : Ready w) :
    Ends (act (environment code) (.registry .close)) w fun _ w' =>
      Ready w' ∧ Alike (closed w) w' ∧ w'.defaultLabel = none := by
  have hact := act_ready hcode h (.registry .close) trivial
  have hspares : (environment code).code.Spares Site.directory := hcode
  refine (hact.and (closeRegistry_spec hspares h.ranged)).imp ?_
  rintro _ w' ⟨⟨hready, halike⟩, w₁, hcloses⟩
  obtain ⟨log, rfl⟩ := hcloses.last
  exact ⟨hready, halike, rfl⟩

theorem Underway.vacated (h : Underway code ref references w) :
    Vacated (runActions (environment code) (farewell references) w) := by
  unfold farewell
  rw [runActions_concat, runActions_cons]
  obtain ⟨hready₁, halike₁, hdetached⟩ := detach_ready hcode h.toReady
  generalize (act (environment code) (.registry (.setContext none)) w).2 = w₁ at *
  obtain ⟨hready₂, hwithdrawn⟩ := runActions_withdraw hcode hready₁ references
  have hparted : Retreats w₁ (runActions (environment code) (references.map .withdraw) w₁) :=
    runActions_retreats hcode fun _ hmem => isFarewell_of_withdraw hmem
  generalize runActions (environment code) (references.map .withdraw) w₁ = w₂ at *
  obtain ⟨hready₃, halike₃, hdefault⟩ := close_ready hcode hready₂
  have hclosed : Retreats w₂ (act (environment code) (.registry .close) w₂).2 :=
    act_retreats hcode trivial
  generalize (act (environment code) (.registry .close) w₂).2 = w₃ at *
  have hnone : w₂.outside.directory.services = [] := by
    rw [← List.map_eq_nil_iff (f := (·.reference)), List.eq_nil_iff_forall_not_mem]
    intro r hmem
    obtain ⟨hbefore, hother⟩ := hwithdrawn.published r hmem
    rw [halike₁.shape.references, h.published] at hbefore
    exact hother r hbefore rfl
  have hshut : w₃.subscription = none := halike₃.subscription
  have halone : ∀ s ∈ w₃.outside.directory.subscriptions, s.listener = .registry := by
    intro s hs
    rw [halike₃.shape.subscriptions] at hs
    have hs := subscriptions_closed w₂ hs
    rw [hwithdrawn.subscriptions, halike₁.shape.subscriptions] at hs
    exact h.alone s hs
  refine ⟨?_, ?_, ?_, halike₃.table, hdefault, hclosed.context (hparted.context hdetached)⟩
  · rw [← List.map_eq_nil_iff (f := (·.reference)), halike₃.shape.references, services_closed,
      hnone]
    rfl
  · have hlistening := hready₃.subscriptions
    rw [hshut, List.filter_eq_self.mpr (by simpa using halone)] at hlistening
    exact hlistening
  · unfold isOpen
    rw [hshut]
    rfl

end Code

end Site

end PluginConsole
