import Mathlib.Data.List.Induction
import PluginConsole.Proofs.Directory
import PluginConsole.Proofs.Lifecycle.Respect
import PluginConsole.Proofs.Registry.Govern
import PluginConsole.Proofs.Registry.Tidy
import PluginConsole.Site

/-!
# Runs of a registry over its directory

What may happen to the directory in memory and to the registry over it, in any order.
-/

open Relation (ReflTransGen)

namespace PluginConsole.Site

open Act Registry

variable {π : Type}

inductive Action (π : Type) where
  | registry (op : Operation (Site π))
  | publish (origin : String) (properties : Dict Json) (object : ServiceObject)
  | modify (id : Nat) (properties : Dict Json)
  | withdraw (reference : Reference)
  /-- The application listens to the directory itself. -/
  | observe (name filter : String)
  | setDisabled (factories : List String)

def observe (name filter : String) : StateM (Site π) Unit :=
  onDirectory fun d =>
    match d.subscribe filter (.observer name) with
    | .ok (_, d) => ((), d)
    | .error _ => ((), d)

def act (env : Environment (Site π)) : Action π → Act (Site π) Unit
  | .registry op => perform env op
  | .publish origin properties object => discard (publish env origin properties object)
  | .modify id properties => discard (Site.modifyService env id properties)
  | .withdraw reference => discard (withdraw env reference)
  | .observe name filter => outside (observe name filter)
  | .setDisabled factories => setDisabled factories

def runActions (env : Environment (Site π)) (actions : List (Action π)) (w : World (Site π)) :
    World (Site π) :=
  actions.foldl (fun w action => (act env action w).2) w

def start (host : Host) (own : π) : World (Site π) :=
  { outside := { directory := {}, host, own } }

def Action.Calm : Action π → Prop
  | .registry op => op.Calm Site.directory
  | _ => True

theorem runActions_cons (env : Environment (Site π)) (action : Action π) (rest : List (Action π))
    (w : World (Site π)) :
    runActions env (action :: rest) w = runActions env rest (act env action w).2 := rfl

theorem runActions_concat (env : Environment (Site π)) (done : List (Action π)) (action : Action π)
    (w : World (Site π)) :
    runActions env (done ++ [action]) w = (act env action (runActions env done w)).2 := by
  unfold runActions
  rw [List.foldl_concat]

theorem runActions_along {env : Environment (Site π)} {w : World (Site π)}
    (inv : List (Action π) → World (Site π) → Prop) {admits : Action π → Prop} (hnil : inv [] w)
    (hstep : ∀ done action w, admits action → inv done w →
      Ends (act env action) w fun _ w' => inv (done ++ [action]) w')
    {actions : List (Action π)} (hactions : ∀ action ∈ actions, admits action) :
    inv actions (runActions env actions w) := by
  induction actions using List.reverseRecOn with
  | nil => exact hnil
  | append_singleton done action ih =>
    have hbefore := ih fun other hmem => hactions other (List.mem_append_left _ hmem)
    have haction := hactions action (List.mem_append_right _ (List.mem_singleton_self _))
    rw [runActions_concat]
    exact hstep done action _ haction hbefore

theorem runActions_keeps {env : Environment (Site π)} (inv : World (Site π) → Prop)
    {admits : Action π → Prop}
    (hstep : ∀ w action, admits action → inv w → Ends (act env action) w fun _ w' => inv w')
    {actions : List (Action π)} (hactions : ∀ action ∈ actions, admits action)
    {w : World (Site π)} (h : inv w) : inv (runActions env actions w) :=
  runActions_along (fun _ w => inv w) h (fun _ action w => hstep w action) hactions

/-- A step around the registry, which takes no hold and gives none back. -/
def Turns (s s' : Site π) : Prop :=
  s.directory.Turn s'.directory

variable {code : PluginCode (Site π)} {w w' : World (Site π)}

theorem environment_within : (environment code).directory.Within Turns where
  subscribe filter s := by
    show s.directory.Turn _
    have hturn := Directory.turn_subscribe filter .registry s.directory
    unfold environment directoryAccess onDirectory
    dsimp only
    cases hsubscribe : s.directory.subscribe filter .registry with
    | ok granted =>
      rw [hsubscribe] at hturn
      exact hturn
    | error f => exact Directory.turn_refl _
  unsubscribe subscription s := Directory.turn_unsubscribe subscription s.directory
  references _ s := Directory.turn_refl s.directory

theorem observe_turns (name filter : String) (s : Site π) : Turns s (observe name filter s).2 := by
  show s.directory.Turn _
  have hturn := Directory.turn_subscribe filter (.observer name) s.directory
  unfold observe onDirectory
  dsimp only
  cases hsubscribe : s.directory.subscribe filter (.observer name) with
  | ok granted =>
    rw [hsubscribe] at hturn
    exact hturn
  | error f => exact Directory.turn_refl _

/-! ## What actions keep -/

/-- Neither a step around the registry nor news from the directory breaks the invariant. -/
structure Stable (code : PluginCode (Site π)) (inv : World (Site π) → Prop) : Prop where
  turns {w : World (Site π)} {s : Site π} (h : inv w) (hs : Turns w.outside s) :
    inv (w.withOutside s)
  deliver {w : World (Site π)} (h : inv w) (event : DirectoryEvent) (listener : Listener) :
    Ends (deliver (environment code) event listener) w fun _ w' => inv w'

namespace Stable

variable {inv : World (Site π) → Prop} (h : Stable code inv) (hinv : inv w)
include h hinv

theorem announce (event : DirectoryEvent) (listeners : List Listener) :
    Ends (listeners.forM (Site.deliver (environment code) event)) w fun _ w' => inv w' := by
  induction listeners generalizing w with
  | nil => exact hinv
  | cons listener rest ih =>
    show Ends (Site.deliver (environment code) event listener >>= fun _ =>
      rest.forM (Site.deliver (environment code) event)) w _
    rw [ends_bind]
    exact (h.deliver hinv event listener).imp fun _ _ hinv₁ => ih hinv₁

theorem publish (origin : String) (properties : Dict Json) (object : ServiceObject) :
    Ends (publish (environment code) origin properties object) w fun _ w' => inv w' := by
  unfold Site.publish current
  simp only [ends_bind, ends_outside, ends_get, ends_pure]
  refine h.announce (h.turns hinv ?_) _ _
  exact Directory.turn_add origin properties object w.outside.directory

theorem modifyService (id : Nat) (properties : Dict Json) :
    Ends (Site.modifyService (environment code) id properties) w fun _ w' => inv w' := by
  unfold Site.modifyService current
  simp only [ends_bind, ends_get, ends_pure]
  split
  · exact hinv
  rename_i r d hreplace
  simp only [ends_bind, ends_outside]
  exact h.announce (h.turns hinv (Directory.turn_replace hreplace)) _ _

theorem withdraw (reference : Reference) :
    Ends (withdraw (environment code) reference) w fun _ w' => inv w' := by
  unfold Site.withdraw current
  simp only [ends_bind, ends_get, ends_pure]
  split
  · exact hinv
  simp only [ends_bind]
  refine (h.announce hinv _ _).imp fun _ w₁ hinv₁ => ?_
  simp only [ends_get, ends_outside]
  exact h.turns hinv₁ (.remove w₁.outside.directory reference.id)

theorem act {action : Action π}
    (hregistry : ∀ op, action = .registry op →
      Ends (perform (environment code) op) w fun _ w' => inv w') :
    Ends (act (environment code) action) w fun _ w' => inv w' := by
  cases action with
  | registry op => exact hregistry op rfl
  | publish origin properties object =>
    rw [Site.act, ends_discard]
    exact h.publish hinv origin properties object
  | modify id properties =>
    rw [Site.act, ends_discard]
    exact h.modifyService hinv id properties
  | withdraw reference =>
    rw [Site.act, ends_discard]
    exact h.withdraw hinv reference
  | observe name filter => exact h.turns hinv (observe_turns name filter w.outside)
  | setDisabled factories => exact h.turns hinv (Directory.turn_refl _)

end Stable

section News

variable {own : Site π → Site π → Prop} {ready : World (Site π) → Prop}
variable {may : World (Site π) → EntryId → Prop} {R : World (Site π) → World (Site π) → Prop}
variable (hobserve : ∀ name event, (code.observe name event).Respects R) (hready : ready w)
include hobserve hready

theorem managed_deliver (h : Managed (environment code) own ready may R) (event : DirectoryEvent)
    (listener : Listener) :
    Ends (deliver (environment code) event listener) w fun _ w' => R w w' := by
  cases listener with
  | registry => exact h.directoryChanged hready event
  | observer name => exact hobserve name event w

theorem managed_announce (h : Managed (environment code) own ready may R) (event : DirectoryEvent)
    (listeners : List Listener) :
    Ends (listeners.forM (deliver (environment code) event)) w fun _ w' => R w w' :=
  h.forM fun listener _ _ hw₁ => managed_deliver hobserve (h.keeps hw₁ hready) h event listener

theorem stable_managed (h : Managed (environment code) Turns ready may R) :
    Stable code fun w' => R w w' where
  turns hR hs := h.trans hR (h.outside hs)
  deliver hR event listener :=
    (managed_deliver hobserve (h.keeps hR hready) h event listener).imp fun _ _ => h.trans hR

end News

/-! ## Actions come down to changes -/

abbrev SiteChanges (code : PluginCode (Site π)) : World (Site π) → World (Site π) → Prop :=
  Changes (environment code) Site.directory Turns fun _ => True

theorem deliver_changes (hcode : code.Spares Site.directory) (htidy : Tidy w)
    (event : DirectoryEvent) (listener : Listener) :
    Ends (deliver (environment code) event listener) w fun _ w' => SiteChanges code w w' := by
  cases listener with
  | registry => exact changes_rearranged.directoryChanged hcode htidy.ranged trivial
  | observer name =>
    refine (hcode.observe name event).ends fun _ s hs => ?_
    exact .single (.visits (.single (.call hs)))

theorem stable_changes (hcode : code.Spares Site.directory) (w : World (Site π)) :
    Stable code fun w' => Tidy w' ∧ SiteChanges code w w' where
  turns h hs := by
    have hstep : SiteChanges code _ _ := .single (.outside hs)
    exact ⟨hstep.tidy h.1, h.2.trans hstep⟩
  deliver h event listener :=
    (deliver_changes hcode h.1 event listener).imp fun _ _ hnext =>
      ⟨hnext.tidy h.1, h.2.trans hnext⟩

theorem act_changes (hcode : code.Spares Site.directory) (htidy : Tidy w) {action : Action π}
    (hcalm : action.Calm) :
    Ends (act (environment code) action) w fun _ w' => SiteChanges code w w' := by
  refine ((stable_changes hcode w).act ⟨htidy, .refl⟩ ?_).imp fun _ _ h => h.2
  rintro op rfl
  refine (perform_changes environment_within hcode htidy.ranged op hcalm).imp fun _ _ h => ?_
  have hchanges : SiteChanges code w _ := h.mono fun _ _ => trivial
  exact ⟨hchanges.tidy htidy, hchanges⟩

end PluginConsole.Site
