import PluginConsole.Proofs.Site.Alike

/-!
# What an action does to the table

Each action as a plain function of the world, without components and notices. What the
action really leaves is alike.
-/

open Relation (ReflTransGen)

namespace PluginConsole.Site

open Act Registry Lifecycle

variable {π : Type} {code : PluginCode (Site π)} {w w' : World (Site π)}

/-! ## Who listens -/

/-- The directory tells the registry of the console's services as long as it is open. -/
structure Linked (w : World (Site π)) : Prop where
  kept : 0 < w.keepers
  subscriptions : w.outside.directory.subscriptions.filter (fun s => s.listener = .registry) =
    (w.subscription.map fun n => ⟨n, consoleCapability, .registry⟩).toList

structure Ready (w : World (Site π)) : Prop extends Tidy w, Linked w

def hears (r : Reference) (w : World (Site π)) : Bool :=
  isOpen w && r.hasCapability consoleCapability

theorem count_listenersFor (h : Linked w) (r : Reference) :
    (w.outside.directory.listenersFor r).count .registry = if hears r w then 1 else 0 := by
  have hown : (w.outside.directory.listenersFor r).count .registry =
      (w.outside.directory.subscriptions.filter fun s => s.listener = .registry).countP
        fun s => r.hasCapability s.capability := by
    unfold Directory.listenersFor
    rw [List.count_eq_countP, List.countP_map, List.countP_filter, List.countP_filter]
    refine List.countP_congr fun s _ => ?_
    simp [and_comm]
  rw [hown, h.subscriptions]
  unfold hears isOpen
  cases w.subscription with
  | none => rfl
  | some n => simp [List.countP_cons]

theorem mem_listenersFor (h : Linked w) (r : Reference) :
    .registry ∈ w.outside.directory.listenersFor r ↔ hears r w = true := by
  rw [← List.count_pos_iff, count_listenersFor h]
  split
  · rename_i hhears
    simp [hhears]
  · rename_i hdeaf
    simp [hdeaf]

/-! ## Outcomes -/

def withDirectory (d : Directory) (w : World (Site π)) : World (Site π) :=
  w.withOutside { w.outside with directory := d }

def published (origin : String) (properties : Dict Json) (object : ServiceObject)
    (w : World (Site π)) : World (Site π) :=
  let added := w.outside.directory.add origin properties object
  if hears added.1 w then enlisted added.1 (withDirectory added.2 w)
  else withDirectory added.2 w

def modified (id : Nat) (properties : Dict Json) (w : World (Site π)) : World (Site π) :=
  match w.outside.directory.replace id properties with
  | none => w
  | some (_, d) => withDirectory d w

/-- The registry lets go of a service that it hears of, as it is when it goes. -/
def withdrawn (id : Nat) (w : World (Site π)) : World (Site π) :=
  match w.outside.directory.reference? id with
  | none => w
  | some now =>
    withDirectory (w.outside.directory.remove id) (if hears now w then dismissed now w else w)

def capable (d : Directory) : List Reference :=
  (d.services.map (·.reference)).filter (·.hasCapability consoleCapability)

def subscribed (w : World (Site π)) : World (Site π) :=
  let d := w.outside.directory
  let n := d.lastSubscription + 1
  { withDirectory { d with
      subscriptions := d.subscriptions ++ [⟨n, consoleCapability, .registry⟩]
      lastSubscription := n } w with
    subscription := some n }

def opened (w : World (Site π)) : World (Site π) :=
  if isOpen w then w
  else enlistedAll (capable w.outside.directory) (subscribed w)

def closed (w : World (Site π)) : World (Site π) :=
  { withDirectory (match w.subscription with
      | some n => w.outside.directory.unsubscribe n
      | none => w.outside.directory) w with
    subscription := none
    table := [] }

def performed (code : PluginCode (Site π)) (op : Operation (Site π)) (w : World (Site π)) :
    World (Site π) :=
  match op with
  | .openUp => opened w
  | .close => closed w
  | .addService r => enlisted r w
  | .removeService r => dismissed r w
  | .addDirect factory label => joined label (.direct factory (code.hasFactory factory)) w
  | .unregister label => { w with table := Dict.erase label w.table }
  | .hear event => heeded event w
  | .lookup _ | .lookupDefault | .setDefaultLabel _ | .labelMap .. | .describe
  | .setContext _ => w

def outcome (code : PluginCode (Site π)) (action : Action π) (w : World (Site π)) :
    World (Site π) :=
  match action with
  | .registry op => performed code op w
  | .publish origin properties object => published origin properties object w
  | .modify id properties => modified id properties w
  | .withdraw reference => withdrawn reference.id w
  | .observe name filter => w.withOutside (observe name filter w.outside).2
  | .setDisabled _ => w

theorem tableOnly_published (origin : String) (properties : Dict Json) (object : ServiceObject)
    (w : World (Site π)) :
    TableOnly (withDirectory (w.outside.directory.add origin properties object).2 w)
      (published origin properties object w) := by
  unfold published
  dsimp only
  split
  · exact tableOnly_enlisted _ _
  · exact .refl _

/-! ## Actions come to their outcome -/

theorem linked_withDirectory (h : Linked w) {d : Directory}
    (hsubscriptions : d.subscriptions = w.outside.directory.subscriptions) :
    Linked (withDirectory d w) := by
  refine ⟨h.kept, ?_⟩
  show d.subscriptions.filter _ = _
  rw [hsubscriptions]
  exact h.subscriptions

theorem ready_withDirectory (h : Ready w) {d : Directory}
    (hsubscriptions : d.subscriptions = w.outside.directory.subscriptions) :
    Ready (withDirectory d w) := by
  have hlinked := linked_withDirectory h.toLinked hsubscriptions
  refine ⟨⟨⟨h.sorted, h.filed⟩, fun id hid => ?_⟩, hlinked⟩
  rcases h.settled id hid with hmem | hover
  · exact Or.inl hmem
  · exact Or.inr ⟨hover.disposed, hover.cold⟩

theorem subscriptions_replace {d d' : Directory} {id : Nat} {properties : Dict Json}
    {r : Reference} (h : d.replace id properties = some (r, d')) :
    d'.subscriptions = d.subscriptions := by
  unfold Directory.replace at h
  obtain ⟨s, -, hs⟩ := Option.map_eq_some_iff.mp h
  cases hs
  rfl

/-! The directory in memory never refuses the registry. -/

theorem parseFilter_console :
    Directory.parseFilter (capabilityFilter consoleCapability) = .ok consoleCapability :=
  Directory.parseFilter_capabilityFilter (by decide)

theorem subscribe_site (w : World (Site π)) :
    (environment code).directory.subscribe (capabilityFilter consoleCapability) w.outside =
      (.ok (w.outside.directory.lastSubscription + 1), (subscribed w).outside) := by
  unfold environment directoryAccess onDirectory Directory.subscribe
  dsimp only
  rw [parseFilter_console]
  rfl

theorem references_site (s : Site π) :
    (environment code).directory.references (capabilityFilter consoleCapability) s =
      (.ok (capable s.directory), s) := by
  unfold environment directoryAccess onDirectory Directory.references
  dsimp only
  rw [parseFilter_console]
  rfl

section Actions

variable (hcode : code.Spares Site.directory)
include hcode

theorem announce_alike (h : Ready w) (event : DirectoryEvent) (r : Reference) :
    Ends ((w.outside.directory.listenersFor r).forM (deliver (environment code) event)) w
      fun _ w' => Alike (if hears r w then heeded event w else w) w' := by
  have honce : (w.outside.directory.listenersFor r).count .registry ≤ 1 := by
    rw [count_listenersFor h.toLinked]
    split <;> omega
  refine (forM_deliver_alike hcode h.toTidy h.kept event honce).imp fun _ w' halike => ?_
  simpa only [mem_listenersFor h.toLinked] using halike

theorem publish_alike (h : Ready w) (origin : String) (properties : Dict Json)
    (object : ServiceObject) :
    Ends (publish (environment code) origin properties object) w fun _ w' =>
      Alike (published origin properties object w) w' := by
  have hadded := ready_withDirectory h (d := (w.outside.directory.add origin properties object).2)
    rfl
  unfold publish current
  simp only [ends_bind, ends_outside, ends_get, ends_pure]
  exact announce_alike hcode hadded _ _

theorem modifyService_alike (h : Ready w) (id : Nat) (properties : Dict Json) :
    Ends (Site.modifyService (environment code) id properties) w fun _ w' =>
      Alike (modified id properties w) w' := by
  unfold Site.modifyService current modified
  simp only [ends_bind, ends_get, ends_pure]
  cases hreplace : w.outside.directory.replace id properties with
  | none => exact .refl w
  | some replaced =>
    obtain ⟨r, d⟩ := replaced
    have hreplaced := ready_withDirectory h (subscriptions_replace hreplace)
    simp only [ends_bind, ends_outside]
    refine (announce_alike hcode hreplaced (.modified r) r).imp fun _ w' halike => ?_
    have hsame : heeded (.modified r) (withDirectory d w) = withDirectory d w := rfl
    rw [hsame, ite_self] at halike
    exact halike

theorem withdraw_alike (h : Ready w) (reference : Reference) :
    Ends (withdraw (environment code) reference) w fun _ w' =>
      Alike (withdrawn reference.id w) w' := by
  unfold withdraw current withdrawn
  simp only [ends_bind, ends_get, ends_pure]
  cases hfound : w.outside.directory.reference? reference.id with
  | none => exact .refl w
  | some now =>
    simp only [ends_bind]
    refine (announce_alike hcode h (.unregistering now) now).imp fun _ w₁ halike => ?_
    have houtside : (if hears now w then heeded (.unregistering now) w else w).outside =
        w.outside := by
      split
      · exact (tableOnly_heeded _ w).outside
      · rfl
    have hshape := halike.shape
    rw [houtside] at hshape
    exact ⟨halike.table, halike.subscription, halike.keepers, halike.length, halike.label,
      halike.source, hshape.remove reference.id⟩

theorem openRegistry_alike (h : Ready w) :
    Ends (openRegistry (environment code)) w fun _ w' => Alike (opened w) w' := by
  refine (openRegistry_spec hcode h.ranged).imp fun result w' hopens => ?_
  unfold opened
  cases hopens with
  | already hopen =>
    rw [if_pos hopen]
    exact .refl w
  | refused _ hsubscribe =>
    rw [subscribe_site] at hsubscribe
    cases hsubscribe
  | @undone f s o o' hclosed hsubscribe hreferences =>
    rw [references_site] at hreferences
    cases hreferences
  | @opened w₁ _ s o o' references hclosed hsubscribe hreferences henlist hlast =>
    rw [subscribe_site] at hsubscribe
    cases hsubscribe
    rw [references_site] at hreferences
    cases hreferences
    obtain ⟨log, rfl⟩ := hlast
    rw [if_neg (by simp [hclosed])]
    exact (alike_enlistsAll henlist).trans
      (alike_settings w₁ w₁.defaultLabel w₁.context w₁.serial log)

theorem closeRegistry_alike (h : Ready w) :
    Ends (closeRegistry (environment code)) w fun _ w' => Alike (closed w) w' := by
  refine (closeRegistry_spec hcode h.ranged).imp fun _ w'' ⟨w', hcloses⟩ => ?_
  obtain ⟨hvisits, -, log, rfl⟩ := hcloses
  have hcancelled : { cancelled (environment code) w with table := [] } = closed w := by
    unfold cancelled closed
    cases w.subscription <;> rfl
  have halike := alike_visits hvisits
  rw [hcancelled] at halike
  exact halike.trans (alike_settings w' none w'.context w'.serial log)

theorem setContext_alike (h : Ready w) (context : Option Context) :
    Ends (setContext (environment code) context) w fun _ w' => Alike w w' := by
  cases context with
  | some context =>
    refine (attach_spec hcode h.ranged context).imp fun _ w' hvisits => ?_
    have hset := alike_settings w w.defaultLabel (some ⟨w.serial, context⟩) (w.serial + 1) w.log
    exact hset.trans (alike_visits hvisits)
  | none =>
    refine (detach_spec hcode h.ranged).imp fun _ w' hdetached => ?_
    obtain ⟨w₁, log, hvisits, rfl⟩ := hdetached
    exact (alike_visits hvisits).trans (alike_settings w₁ w₁.defaultLabel none w₁.serial log)

theorem perform_alike (h : Ready w) (op : Operation (Site π)) (hcalm : op.Calm Site.directory) :
    Ends (perform (environment code) op) w fun _ w' => Alike (performed code op w) w' := by
  have hranged : Ranged w := h.ranged
  cases op with
  | openUp =>
    rw [perform, ends_discard]
    exact openRegistry_alike hcode h
  | close => exact closeRegistry_alike hcode h
  | addService r =>
    exact (addService_spec hcode hranged r).imp fun _ _ henlists => alike_enlists henlists
  | removeService r =>
    exact (removeService_spec hcode hranged r).imp fun _ _ hdismisses => alike_dismisses hdismisses
  | addDirect factory label =>
    refine (addDirect_spec hcode hranged factory label).imp fun _ w' hadded => ?_
    obtain ⟨log, hjoins⟩ := hadded
    have hnoted := alike_settings w w.defaultLabel w.context w.serial log
    exact (hnoted.joined label _).trans (alike_joins hjoins)
  | unregister label =>
    rw [perform, ends_discard]
    exact (unregister_spec hcode hranged label).imp fun _ _ hleaves => alike_visits hleaves.visits
  | hear event => exact directoryChanged_alike hcode hranged h.kept event
  | lookup | lookupDefault | labelMap | describe =>
    refine Ends.imp (perform_visits hcode hranged ?_ hcalm) fun _ _ hvisits => alike_visits hvisits
    exact trivial
  | setDefaultLabel label => exact alike_settings w label w.context w.serial w.log
  | setContext context => exact setContext_alike hcode h context

theorem act_alike (h : Ready w) (action : Action π) (hcalm : action.Calm) :
    Ends (act (environment code) action) w fun _ w' => Alike (outcome code action w) w' := by
  cases action with
  | registry op => exact perform_alike hcode h op hcalm
  | publish origin properties object =>
    rw [act, ends_discard]
    exact publish_alike hcode h origin properties object
  | modify id properties =>
    rw [act, ends_discard]
    exact modifyService_alike hcode h id properties
  | withdraw reference =>
    rw [act, ends_discard]
    exact withdraw_alike hcode h reference
  | observe name filter => exact .refl _
  | setDisabled factories => exact alike_outside (.refl _)

end Actions

/-! ## Working order is kept -/

theorem Linked.alike (h : Alike w w') (hlinked : Linked w) : Linked w' := by
  refine ⟨h.keepers ▸ hlinked.kept, ?_⟩
  rw [h.shape.subscriptions, h.subscription]
  exact hlinked.subscriptions

theorem Linked.tableOnly (h : TableOnly w w') (hlinked : Linked w) : Linked w' := by
  refine ⟨h.keepers ▸ hlinked.kept, ?_⟩
  rw [h.outside, h.subscription]
  exact hlinked.subscriptions

theorem linked_published (h : Linked w) (origin : String) (properties : Dict Json)
    (object : ServiceObject) : Linked (published origin properties object w) := by
  have hadded := linked_withDirectory h
    (d := (w.outside.directory.add origin properties object).2) rfl
  exact hadded.tableOnly (tableOnly_published origin properties object w)

theorem linked_modified (h : Linked w) (id : Nat) (properties : Dict Json) :
    Linked (modified id properties w) := by
  unfold modified
  split
  · exact h
  · rename_i hreplace
    exact linked_withDirectory h (subscriptions_replace hreplace)

theorem linked_withdrawn (h : Linked w) (id : Nat) : Linked (withdrawn id w) := by
  unfold withdrawn
  split
  · exact h
  rename_i now _
  split
  · have hdismissed := tableOnly_dismissed now w
    refine linked_withDirectory (h.tableOnly hdismissed) ?_
    rw [hdismissed.outside]
    rfl
  · exact linked_withDirectory h rfl

theorem linked_opened (h : Linked w) : Linked (opened w) := by
  unfold opened
  split
  · exact h
  rename_i hclosed
  have hnone : w.subscription = none := by
    unfold isOpen at hclosed
    simpa using hclosed
  have hsubscribed : Linked (subscribed w) := by
    refine ⟨h.kept, ?_⟩
    have hbefore := h.subscriptions
    rw [hnone] at hbefore
    show List.filter _ (_ ++ [_]) = _
    rw [List.filter_append, hbefore]
    rfl
  exact hsubscribed.tableOnly (tableOnly_enlistedAll _ _)

theorem linked_closed (h : Linked w) : Linked (closed w) := by
  refine ⟨h.kept, ?_⟩
  have hbefore := h.subscriptions
  unfold closed
  cases hsubscription : w.subscription with
  | none =>
    rw [hsubscription] at hbefore
    exact hbefore
  | some n =>
    rw [hsubscription] at hbefore
    show List.filter _ (List.filter _ _) = []
    rw [List.filter_filter]
    simp only [Bool.and_comm]
    rw [← List.filter_filter, hbefore]
    simp

theorem services_observe (name filter : String) (s : Site π) :
    (observe name filter s).2.directory.services = s.directory.services := by
  unfold observe onDirectory Directory.subscribe
  dsimp only
  cases Directory.parseFilter filter with
  | error f => rfl
  | ok capability => rfl

theorem lastService_observe (name filter : String) (s : Site π) :
    (observe name filter s).2.directory.lastService = s.directory.lastService := by
  unfold observe onDirectory Directory.subscribe
  dsimp only
  cases Directory.parseFilter filter with
  | error f => rfl
  | ok capability => rfl

theorem linked_observe (h : Linked w) (name filter : String) :
    Linked (w.withOutside (observe name filter w.outside).2) := by
  refine ⟨h.kept, ?_⟩
  unfold observe onDirectory Directory.subscribe
  dsimp only
  cases Directory.parseFilter filter with
  | error f => exact h.subscriptions
  | ok capability =>
    show List.filter _ (_ ++ [_]) = _
    rw [List.filter_append, h.subscriptions]
    exact List.append_nil _

theorem linked_outcome (h : Linked w) (action : Action π) : Linked (outcome code action w) := by
  cases action with
  | registry op =>
    cases op with
    | openUp => exact linked_opened h
    | close => exact linked_closed h
    | addService r => exact h.tableOnly (tableOnly_enlisted r w)
    | removeService r => exact h.tableOnly (tableOnly_dismissed r w)
    | hear event => exact h.tableOnly (tableOnly_heeded event w)
    | addDirect | unregister | lookup | lookupDefault | setDefaultLabel | labelMap | describe
    | setContext => exact ⟨h.kept, h.subscriptions⟩
  | publish origin properties object => exact linked_published h origin properties object
  | modify id properties => exact linked_modified h id properties
  | withdraw reference => exact linked_withdrawn h reference.id
  | observe name filter => exact linked_observe h name filter
  | setDisabled factories => exact h

/-- No action takes or gives a hold of its own. -/
theorem turn_outcome (action : Action π) (w : World (Site π)) :
    w.outside.directory.Turn (outcome code action w).outside.directory := by
  have hrefl := Directory.turn_refl w.outside.directory
  cases action with
  | registry op =>
    cases op with
    | openUp =>
      show w.outside.directory.Turn (opened w).outside.directory
      unfold opened
      split
      · exact hrefl
      · rw [(tableOnly_enlistedAll _ _).outside]
        exact .watch _ _ _
    | close =>
      show w.outside.directory.Turn (closed w).outside.directory
      unfold closed
      cases w.subscription with
      | none => exact hrefl
      | some n => exact Directory.turn_unsubscribe n _
    | addService r =>
      show w.outside.directory.Turn (enlisted r w).outside.directory
      rw [(tableOnly_enlisted r w).outside]
      exact hrefl
    | removeService r =>
      show w.outside.directory.Turn (dismissed r w).outside.directory
      rw [(tableOnly_dismissed r w).outside]
      exact hrefl
    | hear event =>
      show w.outside.directory.Turn (heeded event w).outside.directory
      rw [(tableOnly_heeded event w).outside]
      exact hrefl
    | addDirect | unregister | lookup | lookupDefault | setDefaultLabel | labelMap | describe
    | setContext => exact hrefl
  | publish origin properties object =>
    show w.outside.directory.Turn (published origin properties object w).outside.directory
    rw [(tableOnly_published origin properties object w).outside]
    exact Directory.turn_add origin properties object w.outside.directory
  | modify id properties =>
    show w.outside.directory.Turn (modified id properties w).outside.directory
    unfold modified
    split
    · exact hrefl
    · rename_i hreplace
      exact Directory.turn_replace hreplace
  | withdraw reference =>
    show w.outside.directory.Turn (withdrawn reference.id w).outside.directory
    unfold withdrawn
    split
    · exact hrefl
    · exact .remove _ _
  | observe name filter => exact observe_turns name filter w.outside
  | setDisabled factories => exact hrefl

theorem ready_start (host : Host) (own : π) : Ready (start host own) :=
  ⟨tidy_fresh _, Nat.one_pos, rfl⟩

theorem openUp_start (host : Host) (own : π) :
    (act (environment code) (.registry .openUp) (start host own)).2 =
      { subscribed (start host own) with log := [.registryOpened 0] } := by
  have hopens : Ends (act (environment code) (.registry .openUp)) (start host own) fun _ w' =>
      w' = { subscribed (start host own) with log := [.registryOpened 0] } := by
    have hnone : capable (subscribed (start host own)).outside.directory = [] := rfl
    unfold act perform
    dsimp only
    rw [ends_discard]
    unfold openRegistry
    simp only [ends_bind, ends_get]
    rw [if_neg (by simp [isOpen, start])]
    simp only [ends_bind, ends_outside]
    rw [subscribe_site]
    simp only [ends_bind, ends_modify, ends_outside]
    rw [references_site]
    simp only [World.withOutside, hnone, ends_bind, ends_pure, ends_get, ends_note]
    rfl
  unfold Ends at hopens
  exact hopens

theorem act_ready (hcode : code.Spares Site.directory) (h : Ready w) (action : Action π)
    (hcalm : action.Calm) :
    Ends (act (environment code) action) w fun _ w' =>
      Ready w' ∧ Alike (outcome code action w) w' := by
  have hboth := (act_changes hcode h.toTidy hcalm).and (act_alike hcode h action hcalm)
  refine hboth.imp fun _ w' ⟨hchanges, halike⟩ => ⟨⟨hchanges.tidy h.toTidy, ?_⟩, halike⟩
  exact (linked_outcome h.toLinked action).alike halike

end PluginConsole.Site
