import PluginConsole.Proofs.Console.Start
import PluginConsole.Proofs.Registry.Cold
import PluginConsole.Proofs.Registry.Lifetime

/-!
# A console before it is used

Services are published and plugins are added without a question to anybody. When the context is
attached, there is nobody yet who could be told of it.
-/

namespace PluginConsole

def Directory.Handling (d : Directory) : Prop :=
  ∀ s ∈ d.services, ∃ object, s.object = .handler object

namespace Console

open Act Registry Site Lifecycle

variable {π : Type} {code : PluginCode (Site π)} {w w' w'' : World (Site π)}

/-! ## Nobody is asked -/

/-- Nobody has a component, nothing was done, and the services are as they were. -/
structure Unasked (w w' : World (Site π)) : Prop where
  cold : Cold w'
  history : w'.history = w.history
  services : w'.outside.directory.services = w.outside.directory.services

theorem Unasked.trans (h : Unasked w w') (h' : Unasked w' w'') : Unasked w w'' where
  cold := h'.cold
  history := h'.history.trans h.history
  services := h'.services.trans h.services

def SameServices (s s' : Site π) : Prop :=
  s'.directory.services = s.directory.services

theorem within_sameServices : (environment code).directory.Within SameServices where
  subscribe filter s := by
    show (onDirectory _ s).2.directory.services = s.directory.services
    unfold onDirectory Directory.subscribe
    dsimp only
    cases Directory.parseFilter filter <;> rfl
  unsubscribe _ _ := rfl
  references _ _ := rfl

theorem unasked_managed : Managed (environment code) SameServices (fun _ => True)
    (fun _ _ => True) fun w w' => Cold w → Unasked w w' where
  refl _ hcold := ⟨hcold, rfl, rfl⟩
  trans h h' hcold := (h hcold).trans (h' (h hcold).cold)
  aside _ _ hcold := ⟨hcold, rfl, rfl⟩
  stays _ _ := trivial
  keeps _ _ := trivial
  listed _ _ _ := trivial
  within := within_sameServices
  destroy {w id} _ hcold := by
    show Ends (destroy (environment code) id) w fun _ w' => Unasked w w'
    unfold destroy
    simp only [ends_bind, ends_entry, hcold id, ends_pure]
    exact ⟨hcold, rfl, rfl⟩
  dispose {w id} _ hcold := by
    rw [dispose_cold (environment code) (hcold id)]
    exact ⟨cold_modifyEntry hcold id fun _ => rfl, rfl, rfl⟩
  log _ _ hcold := ⟨hcold, rfl, rfl⟩
  settings _ _ _ _ hcold := ⟨hcold, rfl, rfl⟩
  forgets _ hcold := ⟨hcold, rfl, rfl⟩
  outside hs hcold := ⟨hcold, rfl, hs⟩
  enter _ label source hcold := ⟨cold_entered hcold label source, rfl, rfl⟩
  entered _ _ _ := trivial
  table _ _ hcold := ⟨hcold, rfl, rfl⟩

theorem attach_unasked (hcold : Cold w) (context : Context) :
    Ends (attach (environment code) context) w fun _ w' => Unasked w w' := by
  have h : Managed (environment code) SameServices _ _ _ := unasked_managed
  unfold attach
  simp only [ends_bind, ends_get, ends_newContext, ends_modify, ends_note]
  generalize hset : ({ w with
    serial := w.serial + 1, context := some ⟨w.serial, context⟩ } : World (Site π)) = w₁
  have hcold₁ : Cold w₁ := by
    subst hset
    exact hcold
  have hunasked : Unasked w w₁ := by
    subst hset
    exact ⟨hcold, rfl, rfl⟩
  have hinit (id : EntryId) (v : World (Site π)) (hv : Cold v) :
      Ends (Lifecycle.init (environment code) id ⟨w.serial, context⟩) v fun _ w' => Unasked v w' :=
    (init_of_cold (hv id) _).imp fun _ w' hw' => by
      rw [hw']
      exact ⟨hv, rfl, rfl⟩
  refine (h.holding (snapshot w) (h.noted (fun {v id} _ hv => hinit id v hv) _
    fun _ _ => trivial)).imp fun _ w₂ hinit => ?_
  have hdone := hunasked.trans (hinit hcold₁)
  exact ⟨hdone.cold, hdone.history, hdone.services⟩

/-! ## A console is prepared -/

/-- These services were published, and nobody was asked for anything. -/
structure Prepared (references : List Reference) (w : World (Site π)) : Prop extends Ready w where
  cold : Cold w
  history : w.history = []
  published : w.outside.directory.services.map (·.reference) = references
  handling : w.outside.directory.Handling
  alone : ∀ s ∈ w.outside.directory.subscriptions, s.listener = .registry

variable {references : List Reference}

theorem Prepared.next (h : Prepared references w) (hready : Ready w') (hunasked : Unasked w w')
    (hsubscriptions : w'.outside.directory.subscriptions = w.outside.directory.subscriptions) :
    Prepared references w' where
  toReady := hready
  cold := hunasked.cold
  history := hunasked.history.trans h.history
  published := by
    rw [hunasked.services]
    exact h.published
  handling := by
    unfold Directory.Handling
    rw [hunasked.services]
    exact h.handling
  alone := by
    rw [hsubscriptions]
    exact h.alone

theorem Prepared.added (h : Prepared references w) (origin : String) (properties : Dict Json)
    (object : Instance) :
    Prepared (references ++ [(w.outside.directory.add origin properties (.handler object)).1])
      (withDirectory (w.outside.directory.add origin properties (.handler object)).2 w) where
  toReady := ready_withDirectory h.toReady rfl
  cold := h.cold
  history := h.history
  published := by
    rw [← h.published]
    exact List.map_append
  handling s hs := by
    rcases List.mem_append.mp hs with hs | hs
    · exact h.handling s hs
    · rw [List.mem_singleton.mp hs]
      exact ⟨object, rfl⟩
  alone := h.alone

theorem Prepared.outside (h : Prepared references w) {s : Site π}
    (hs : s.directory = w.outside.directory) : Prepared references (w.withOutside s) where
  toReady := ready_outside h.toReady hs
  cold := h.cold
  history := h.history
  published := hs ▸ h.published
  handling := hs ▸ h.handling
  alone := hs ▸ h.alone

theorem Prepared.settings (h : Prepared references w) (defaultLabel : Option String)
    (log : List Notice) : Prepared references { w with defaultLabel, log } where
  toReady :=
    have htidy : Tidy { w with defaultLabel, log } := ⟨⟨h.sorted, h.filed⟩, fun id hid =>
      (h.settled id hid).imp_right fun hover => ⟨hover.disposed, hover.cold⟩⟩
    ⟨htidy, ⟨h.kept, h.subscriptions⟩⟩
  cold := h.cold
  history := h.history
  published := h.published
  handling := h.handling
  alone := h.alone

section Start

variable {store : Builtin.Store (Site π)} (host : Site π → String)
variable (hstore : ∀ all s, (store.write all s).directory = s.directory)
include hstore

theorem open_prepared (h : Host) (own : π) :
    Ends (openRegistry (environment (Builtin.code store host))) (Site.start h own)
      fun result w' => result = .ok () ∧ Prepared [] w' := by
  have hworld : Ends (act (environment (Builtin.code store host)) (.registry .openUp))
      (Site.start h own) fun _ w' =>
        w' = { subscribed (Site.start h own) with log := [.registryOpened 0] } :=
    openUp_start h own
  rw [act, perform, ends_discard] at hworld
  refine ((opened_assembled host hstore h own).and hworld).imp ?_
  rintro result w' ⟨⟨hresult, hready, -⟩, rfl⟩
  refine ⟨hresult, hready, fun _ => rfl, rfl, rfl, fun _ hs => absurd hs List.not_mem_nil, ?_⟩
  intro s hs
  rw [show s = _ from List.mem_singleton.mp hs]

theorem publish_prepared (h : Prepared references w) (origin : String) (properties : Dict Json)
    (object : Instance) :
    Ends (publish (environment (Builtin.code store host)) origin properties (.handler object)) w
      fun r w' => Prepared (references ++ [r]) w' := by
  have hcode := builtin_spares host hstore
  have hact := act_ready hcode h.toReady (.publish origin properties (.handler object)) trivial
  rw [act, ends_discard] at hact
  have hadded := h.added origin properties object
  have hannounced : Ends (publish (environment (Builtin.code store host)) origin properties
      (.handler object)) w fun r w' =>
        r = (w.outside.directory.add origin properties (.handler object)).1 ∧
          Unasked (withDirectory (w.outside.directory.add origin properties (.handler object)).2 w)
            w' := by
    unfold publish current
    simp only [ends_bind, ends_outside, ends_get, ends_pure]
    refine (managed_announce (fun name event => ?_) trivial unasked_managed _ _).imp fun _ w' hw' =>
      ⟨rfl, hw' hadded.cold⟩
    exact (hcode.observe name event).respects fun v s hs hcold =>
      ⟨hcold, rfl, congrArg Directory.services hs⟩
  refine (hact.and hannounced).imp ?_
  rintro _ w' ⟨⟨hready, halike⟩, rfl, hunasked⟩
  refine hadded.next hready hunasked ?_
  rw [halike.shape.subscriptions, outcome, (tableOnly_published origin properties _ w).outside]

theorem publishService_prepared (h : Prepared references w) (s : ServiceSpec) :
    Ends (publishService (environment (Builtin.code store host)) store s) w fun r w' =>
      Prepared (references ++ [r]) w' := by
  unfold publishService Builtin.Store.make
  simp only [ends_bind, ends_outside]
  generalize hobject : Instance.made _ _ = object
  have hmade := h.outside (hstore (store.read w.outside ++ [(Builtin.fresh? s.handler).getD default])
    w.outside)
  generalize w.withOutside (store.write _ w.outside) = w₁ at hmade ⊢
  exact publish_prepared host hstore hmade s.origin (serviceProperties s) object

theorem publishServices_prepared (h : Prepared references w) (services : List ServiceSpec) :
    Ends (services.mapM (publishService (environment (Builtin.code store host)) store)) w
      fun added w' => Prepared (references ++ added) w' := by
  induction services generalizing references w with
  | nil =>
    show Prepared (references ++ []) w
    rw [List.append_nil]
    exact h
  | cons s rest ih =>
    rw [List.mapM_cons, ends_bind]
    refine (publishService_prepared host hstore h s).imp fun r w₁ h₁ => ?_
    rw [ends_bind]
    refine (ih h₁).imp fun added w₂ h₂ => ?_
    rw [ends_pure, List.append_cons]
    exact h₂

theorem addPlugins_prepared (h : Prepared references w) (plugins : List PluginSpec) :
    Ends (plugins.forM fun p =>
      addDirect (environment (Builtin.code store host)) p.factory p.label) w
      fun _ w' => Prepared references w' := by
  induction plugins generalizing w with
  | nil => exact h
  | cons p rest ih =>
    show Ends (addDirect (environment (Builtin.code store host)) p.factory p.label >>= fun _ =>
      rest.forM fun p => addDirect (environment (Builtin.code store host)) p.factory p.label) w _
    have hact := act_ready (builtin_spares host hstore) h.toReady
      (.registry (.addDirect p.factory p.label)) trivial
    rw [ends_bind]
    refine (hact.and (unasked_managed.addDirect trivial p.factory p.label)).imp ?_
    rintro _ w₁ ⟨⟨hready, halike⟩, hunasked⟩
    exact ih (h.next hready (hunasked h.cold) halike.shape.subscriptions)

theorem attach_prepared (h : Prepared references w) (context : Context) :
    Ends (attach (environment (Builtin.code store host)) context) w fun _ w' =>
      ∃ ref, w'.context = some ref ∧ ref.context = context ∧ Prepared references w' := by
  have hcode := builtin_spares host hstore
  have hspares : (environment (Builtin.code store host)).code.Spares Site.directory := hcode
  have hact := act_ready hcode h.toReady (.registry (.setContext (some context))) trivial
  rw [act, perform, setContext] at hact
  have hspec := attach_spec hspares h.ranged context
  refine ((hact.and hspec).and (attach_unasked h.cold context)).imp ?_
  rintro _ w' ⟨⟨⟨hready, halike⟩, hvisits⟩, hunasked⟩
  have hkept := Visits.kept hvisits
  exact ⟨_, hkept.context, rfl, h.next hready hunasked halike.shape.subscriptions⟩

/-- A console that knows all of its handlers starts. It holds the references of its services, and
its context is attached before anybody was asked for anything. -/
theorem start_prepared {c : Config} (own : π)
    (hhandlers : ∀ s ∈ c.services, s.handler ∈ Builtin.handlerIds) :
    Ends (start (environment (Builtin.code store host)) store c) { outside := site c own }
      fun result w' => ∃ console ref, result = .ok console ∧ w'.context = some ref ∧
        ref.context = context c ∧ Prepared console.services w' := by
  have hknown : unknownHandler? c = none := by
    unfold unknownHandler?
    rw [Option.map_eq_none_iff, List.find?_eq_none]
    exact fun s hs => by simpa using hhandlers s hs
  unfold start
  rw [hknown]
  simp only [ends_bind]
  refine (open_prepared host hstore (Host.make builtinOrigin c.console.disabledPlugins) own).imp ?_
  rintro _ w₁ ⟨rfl, h₁⟩
  simp only [ends_bind]
  refine (publishServices_prepared host hstore h₁ c.services).imp fun references w₂ h₂ => ?_
  refine (addPlugins_prepared host hstore h₂ c.console.plugins).imp fun _ w₃ h₃ => ?_
  simp only [setDefaultLabel, ends_modify]
  have hset := h₃.settings c.console.defaultLabel w₃.log
  refine (attach_prepared host hstore hset (context c)).imp ?_
  rintro _ w₄ ⟨ref, hcontext, href, h₄⟩
  simp only [ends_get, ends_note, ends_pure]
  exact ⟨_, ref, rfl, hcontext, href, h₄.settings w₄.defaultLabel _⟩

end Start

end Console

end PluginConsole
