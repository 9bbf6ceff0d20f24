import PluginConsole.Proofs.Console.Objects
import PluginConsole.Proofs.Site.Usage

/-!
# A console that was shut down

A shutdown leaves nothing behind: no service, no subscription, no label and no context, and nobody
who was initialized and not torn down, or activated and not deactivated.
-/

namespace PluginConsole

open Act Registry Site Lifecycle

variable {σ π : Type}

/-! ## Shutting down -/

theorem Registry.closeRegistry_of_closed {env : Environment σ} {w : World σ}
    (hsubscription : w.subscription = none) (htable : w.table = [])
    (hdefault : w.defaultLabel = none) :
    Ends (closeRegistry env) w fun _ w' => w' = w := by
  unfold closeRegistry cancel takeSubscription
  simp only [ends_bind, ends_get, ends_modify, ends_pure, hsubscription, htable]
  show { w with subscription := none, table := [], defaultLabel := none } = w
  rw [← hsubscription, ← htable, ← hdefault]

namespace Console

section Farewell

variable {code : PluginCode (Site π)} {w : World (Site π)}

theorem forM_withdraw (references : List Reference) (w : World (Site π)) :
    Ends (references.forM fun r => discard (withdraw (environment code) r)) w fun _ w' =>
      w' = runActions (environment code) (references.map .withdraw) w := by
  induction references generalizing w with
  | nil => rfl
  | cons r rest ih => exact ih (withdraw (environment code) r w).2

/-- A shutdown is the farewell to the services of the console, and only the keeper is gone after
it. -/
theorem shutdown_farewell (console : Console)
    (hvacated : Vacated (runActions (environment code) (farewell console.services) w)) :
    Ends (shutdown (environment code) console) w fun _ w' => ∃ keepers log,
      w' = { runActions (environment code) (farewell console.services) w with keepers, log } := by
  unfold farewell at hvacated ⊢
  rw [runActions_concat, runActions_cons] at hvacated ⊢
  have hdetach : Ends (detach (environment code)) w fun _ w' =>
      w' = (act (environment code) (.registry (.setContext none)) w).2 := rfl
  have hclose (w : World (Site π)) : Ends (closeRegistry (environment code)) w fun _ w' =>
      w' = (act (environment code) (.registry .close) w).2 := rfl
  unfold shutdown letGo
  rw [ends_bind]
  refine hdetach.imp fun _ w₁ hw₁ => ?_
  rw [← hw₁] at hvacated ⊢
  rw [ends_bind]
  refine (forM_withdraw console.services w₁).imp fun _ w₂ hw₂ => ?_
  rw [← hw₂] at hvacated ⊢
  rw [ends_bind]
  refine (hclose w₂).imp fun _ w₃ hw₃ => ?_
  rw [← hw₃] at hvacated ⊢
  have hsubscription : w₃.subscription = none := Option.not_isSome_iff_eq_none.mp
    (Bool.eq_false_iff.mp hvacated.closed)
  simp only [ends_bind, ends_note, ends_get, ends_modify]
  split
  · have hagain (keepers : Nat) (log : List Notice) :
        Ends (closeRegistry (environment code)) { w₃ with keepers, log } fun _ w' =>
          w' = { w₃ with keepers, log } :=
      closeRegistry_of_closed hsubscription hvacated.table hvacated.defaultLabel
    exact (hagain _ _).imp fun _ _ h => ⟨_, _, h⟩
  · exact ⟨_, _, rfl⟩

end Farewell

/-! ## From start to shutdown -/

section Start

variable {code : PluginCode (Site π)} {w : World (Site π)} {references : List Reference}

theorem Prepared.underway {ref : ContextRef} (h : Prepared references w)
    (hcontext : w.context = some ref) : Underway code ref references w := by
  have hevents (id : EntryId) : w.eventsOf id = [] := by
    unfold World.eventsOf
    rw [h.history]
    rfl
  refine ⟨h.toReady, hcontext, ⟨h.ranged, fun id => ?_, fun id _ => hevents id⟩,
    ⟨h.ranged, fun id _ => hevents id, fun id => ?_⟩, fun id => ?_, h.published, h.alone⟩
  · refine ⟨?_, ?_⟩ <;> rw [hevents]
    · exact .nil
    · exact h.cold id
  · rw [hevents]
    exact .fresh (h.cold id)
  · rw [hevents]
    exact .fresh (h.cold id)

variable {store : Builtin.Store (Site π)}

theorem Prepared.numbered (h : Prepared references w) : Numbered store w := by
  have hnone (id : EntryId) (c : Component) : .acquired c ∉ w.eventsOf id := by
    unfold World.eventsOf
    rw [h.history]
    exact List.not_mem_nil
  exact ⟨h.handling, fun id c hmem => absurd hmem (hnone id c),
    fun id _ c _ hmem => absurd hmem (hnone id c)⟩

theorem isUse_of_finer {δ δ' : Type} {view : Site π → δ} {action : Action π}
    (h : action.IsUse view) (f : δ → δ') : action.IsUse fun s => f (view s) := by
  cases action with
  | registry op =>
    refine ⟨h.1, ?_⟩
    have hcalm := h.2
    cases op <;>
      first | exact trivial | exact fun origin locale s => congrArg f (hcalm origin locale s)
  | setDisabled => exact trivial
  | publish | modify | withdraw | observe => exact absurd h id

variable (hstore : store.Apart) (host : Site π → String)
include hstore

theorem use_numbered (h : Numbered store w) {action : Action π}
    (huse : action.IsUse fun s => (s.directory, store.read s)) :
    Ends (act (environment (Builtin.code store host)) action) w fun _ w' => Numbered store w' := by
  have hcalm {s : Site π} (v : World (Site π)) (hdirectory : s.directory = v.outside.directory)
      (hread : store.read s = store.read v.outside) : Advances store v (v.withOutside s) :=
    .ofSame hdirectory (Nat.le_refl _) (Nat.le_of_eq (congrArg List.length hread.symm)) rfl
  cases action with
  | registry op =>
    have hperform : Ends (perform (environment (Builtin.code store host)) op) w fun _ w' =>
        Numbered store w → Numbered store w' := by
      refine (numbered_queried hstore host).perform ?_ trivial huse.1 huse.2
      intro messages hmessages title origin locale v hnumbered
      have hsame := localize_calm hmessages title origin locale v.outside
      exact hnumbered.advances (hcalm v (congrArg Prod.fst hsame) (congrArg Prod.snd hsame))
    exact hperform.imp fun _ _ hnext => hnext h
  | setDisabled factories => exact h.advances (hcalm w rfl (hstore.read_own rfl))
  | publish | modify | withdraw | observe => exact absurd huse id

/-- Whatever a console with built-in handlers was asked for, after its shutdown the registry is
closed and empty and nothing is left in the directory. Every component that was found was torn down
once, for the context that it was initialized against, and whatever was activated was deactivated
once after that. No component belongs to two entries. -/
theorem shutdown_leaves_nothing {c : Config} (own : π)
    (hhandlers : ∀ s ∈ c.services, s.handler ∈ Builtin.handlerIds) {uses : List (Action π)}
    (huses : ∀ action ∈ uses, action.IsUse fun s => (s.directory, store.read s)) :
    let env := environment (Builtin.code store host)
    let started := start env store c { outside := site c own }
    ∃ console ref, started.1 = .ok console ∧ started.2.context = some ref ∧
      ref.context = context c ∧
      let w := (shutdown env console (runActions env uses started.2)).2
      Vacated w ∧ (∀ id, Finished ref (w.eventsOf id)) ∧
        ∀ id other a b, .acquired a ∈ w.eventsOf id → .acquired b ∈ w.eventsOf other →
          a.same b = true → id = other := by
  intro env started
  have hcode := builtin_spares host hstore.directory
  obtain ⟨console, ref, hok, hcontext, href, hprepared⟩ :=
    start_prepared host hstore.directory own hhandlers
  refine ⟨console, ref, hok, hcontext, href, ?_⟩
  have hunderway : Underway (Builtin.code store host) ref console.services
      (runActions env uses started.2) :=
    runActions_keeps _ (fun _ _ huse h => h.use hcode huse)
      (fun action hmem => isUse_of_finer (huses action hmem) Prod.fst)
      (hprepared.underway hcontext)
  have hnumbered : Numbered store (runActions env uses started.2) :=
    runActions_keeps _ (fun _ _ huse h => use_numbered hstore host h huse) huses hprepared.numbered
  generalize runActions env uses started.2 = used at *
  have hvacated := hunderway.vacated hcode
  have hfarewell : ∀ action : Action π, action ∈ farewell console.services → action.IsFarewell :=
    fun _ => isFarewell_of_mem
  have hretreats : Retreats used (runActions env (farewell console.services) used) :=
    runActions_retreats hcode hfarewell
  obtain ⟨keepers, log, hlast⟩ := shutdown_farewell console hvacated
  -- Nothing is found any more, so that no component is shared if none was in use.
  have hfound (id : EntryId) (a : Component)
      (hmem : .acquired a ∈ (runActions env (farewell console.services) used).eventsOf id) :
      .acquired a ∈ used.eventsOf id := by
    obtain ⟨added, hending, hevents⟩ := hretreats.endings id
    rw [hevents] at hmem
    exact (List.mem_append.mp hmem).resolve_right fun hadded => hending _ hadded
  intro w
  have hw : w = { runActions env (farewell console.services) used with keepers, log } := hlast
  clear_value w
  subst hw
  refine ⟨?_, hunderway.finished hcode hfarewell hvacated.table, fun id other a b ha hb hsame => ?_⟩
  · exact ⟨hvacated.services, hvacated.subscriptions, hvacated.closed, hvacated.table,
      hvacated.defaultLabel, hvacated.context⟩
  · exact hnumbered.apart id other a b (hfound id a ha) (hfound other b hb) hsame

end Start

/-- Two services share a label, so that one has none, and two plugins have labels of their own. -/
def attended : Config where
  console := { plugins := [⟨"status", "state"⟩, ⟨"licenses", "notes"⟩] }
  services := [{ label := "logs", handler := "echo" }, { label := "logs", handler := "health" }]

def visit : List (Action CommandLine.Own) :=
  [.registry (.lookup "state"), .registry (.lookup "logs"), .setDisabled ["licenses", "status"],
    .registry (.labelMap (Catalog.localizer []) "en" "misc"), .registry .describe]

theorem attended_shutdown :
    let env := environment (Builtin.code CommandLine.builtins fun s => s.host.origin)
    let started := start env CommandLine.builtins attended { outside := site attended [] }
    CommandLine.builtins.Apart ∧ (∀ s ∈ attended.services, s.handler ∈ Builtin.handlerIds) ∧
      (∀ action ∈ visit, action.IsUse fun s => (s.directory, CommandLine.builtins.read s)) ∧
      ∃ console ref, started.1 = .ok console ∧ started.2.context = some ref ∧
        let w := (shutdown env console (runActions env visit started.2)).2
        Vacated w ∧ (∀ id, Finished ref (w.eventsOf id)) ∧
          (w.eventsOf 2).countP EntryEvent.isActivated = 1 ∧
          (w.eventsOf 2).countP EntryEvent.isDeactivate = 1 := by
  have hstore : CommandLine.builtins.Apart := ⟨fun _ _ => rfl, fun _ _ => rfl, fun h => h⟩
  have hhandlers : ∀ s ∈ attended.services, s.handler ∈ Builtin.handlerIds := by decide +kernel
  have huses : ∀ action ∈ visit,
      action.IsUse fun s => (s.directory, CommandLine.builtins.read s) := by
    simp only [visit, List.forall_mem_cons]
    exact ⟨⟨trivial, trivial⟩, ⟨trivial, trivial⟩, trivial, ⟨trivial, fun _ _ _ => rfl⟩,
      ⟨trivial, trivial⟩, fun _ hmem => absurd hmem List.not_mem_nil⟩
  obtain ⟨console, ref, hok, hcontext, -, hvacated, hfinished, -⟩ :=
    shutdown_leaves_nothing hstore (fun s => s.host.origin) [] hhandlers huses
  have hevery :
      let env := environment (Builtin.code CommandLine.builtins fun s => s.host.origin)
      let started := start env CommandLine.builtins attended { outside := site attended [] }
      ∀ console ∈ started.1.toOption,
        ((shutdown env console (runActions env visit started.2)).2.eventsOf 2).countP
          EntryEvent.isActivated = 1 := by decide +kernel
  have hactivated := hevery console (congrArg Except.toOption hok)
  refine ⟨hstore, hhandlers, huses, console, ref, hok, hcontext, hvacated, hfinished,
    hactivated, ?_⟩
  obtain ⟨event, hmem, hkind⟩ := List.countP_pos_iff.mp (hactivated ▸ Nat.one_pos)
  cases event with
  | activated object => exact ((hfinished 2).deactivated object hmem).2.1
  | create | activate | acquired | title | category | init | destroy | released | deactivate
  | giveBack => cases hkind

end Console

end PluginConsole
