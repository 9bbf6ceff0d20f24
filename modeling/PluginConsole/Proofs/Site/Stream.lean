import Mathlib
import PluginConsole.Proofs.Directory.Story
import PluginConsole.Site

/-!
# What listeners hear

Services are published, changed and withdrawn, and listeners come and go. If they do not call back,
a listener hears what the log of all this tells to its subscriptions.
-/

namespace PluginConsole.Site

open Act Log

variable {π : Type}

/-! ## Runs with a log -/

def subscribe (filter name : String) : StateM (Site π) (Except Fault Nat) :=
  onDirectory fun d =>
    match d.subscribe filter (.observer name) with
    | .ok (n, d) => (.ok n, d)
    | .error f => (.error f, d)

def carry (env : Environment (Site π)) : Deed → Act (Site π) Deal
  | .publish origin properties object => do
    return .publish origin properties object (← publish env origin properties object)
  | .modify id properties => do
    return .modify id properties (← Site.modifyService env id properties)
  | .withdraw reference => do
    return .withdraw reference (← withdraw env reference)
  | .subscribe filter name => do
    return .subscribe filter name (← outside (subscribe filter name))
  | .unsubscribe n => do
    outside (env.directory.unsubscribe n)
    return .unsubscribe n

/-- Listeners write down what they hear, and leave the directory alone. -/
structure Recorder (code : PluginCode (Site π)) (heard : π → String → List DirectoryEvent) :
    Prop where
  directory (name : String) (event : DirectoryEvent) (w : World (Site π)) :
    (code.observe name event w).2.outside.directory = w.outside.directory
  hears (name : String) (event : DirectoryEvent) (w : World (Site π)) :
    heard (code.observe name event w).2.outside.own name = heard w.outside.own name ++ [event]
  others {name other : String} (h : other ≠ name) (event : DirectoryEvent) (w : World (Site π)) :
    heard (code.observe name event w).2.outside.own other = heard w.outside.own other

/-- The directory is as the log tells. -/
structure Accords (log : List Deal) (d : Directory) : Prop where
  services : d.services.map (·.reference) = living log
  lastService : d.lastService = (Log.published log).length
  subscriptions : d.subscriptions = Log.subscriptions log
  lastSubscription : d.lastSubscription = grants log

/-- Everybody heard just what was told to his subscriptions. -/
def Hears (heard : π → String → List DirectoryEvent)
    (deliveries : List (Subscription × DirectoryEvent)) (w w' : World (Site π)) : Prop :=
  ∀ name, heard w'.outside.own name = heard w.outside.own name ++
    (deliveries.filter (·.1.listener = .observer name)).map Prod.snd

/-- What a deal does: the answer is lawful, the directory is as the log tells, and the listeners have
heard of it. -/
structure Done (heard : π → String → List DirectoryEvent) (log : List Deal) (deed : Deed)
    (w : World (Site π)) (deal : Deal) (w' : World (Site π)) : Prop where
  deed : deal.deed = deed
  follows : Follows log deal
  accords : Accords (log ++ [deal]) w'.outside.directory
  hears : Hears heard (told log deal) w w'

variable {code : PluginCode (Site π)} {heard : π → String → List DirectoryEvent}
variable {w w' w'' : World (Site π)} {log : List Deal} {deal : Deal} {d : Directory}

theorem Hears.nothing (h : w'.outside.own = w.outside.own) : Hears heard [] w w' := by
  intro name
  rw [h]
  exact (List.append_nil _).symm

theorem Hears.append {first rest : List (Subscription × DirectoryEvent)}
    (h : Hears heard first w w') (h' : Hears heard rest w' w'') :
    Hears heard (first ++ rest) w w'' := by
  intro name
  rw [h' name, h name, List.filter_append, List.map_append, List.append_assoc]

theorem Accords.step (h : Accords log d) {d' : Directory}
    (hservices : d'.services.map (·.reference) = living (log ++ [deal]))
    (hlastService : d'.lastService = d.lastService + (Log.published [deal]).length)
    (hsubscriptions : d'.subscriptions = resubscribed d.subscriptions deal)
    (hlastSubscription : d'.lastSubscription = d.lastSubscription + grants [deal]) :
    Accords (log ++ [deal]) d' where
  services := hservices
  lastService := by
    rw [hlastService, published_append, List.length_append, h.lastService]
  subscriptions := by
    rw [hsubscriptions, subscriptions_snoc, h.subscriptions]
  lastSubscription := by
    rw [hlastSubscription, grants_append, h.lastSubscription]

theorem Accords.unchanged (h : Accords log d) (deal : Deal) (hpublished : Log.published [deal] = [])
    (hrenewals : ∀ id, renewals [deal] id = []) (hwithdrawn : ∀ id, Log.withdrawn [deal] id = false) :
    d.services.map (·.reference) = living (log ++ [deal]) := by
  rw [living_same hpublished hrenewals hwithdrawn]
  exact h.services

/-! ## Telling the listeners -/

theorem observer_of_mem {s : Subscription} (hs : s ∈ Log.subscriptions log) :
    ∃ name, s.listener = .observer name := by
  induction log using List.reverseRecOn with
  | nil => simp [Log.subscriptions] at hs
  | append_singleton log deal ih =>
    rw [subscriptions_snoc] at hs
    unfold resubscribed at hs
    split at hs
    · split at hs
      · rcases List.mem_append.mp hs with hs | hs
        · exact ih hs
        · rw [List.mem_singleton.mp hs]
          exact ⟨_, rfl⟩
      · exact ih hs
    · exact ih (List.mem_filter.mp hs).1
    · exact ih hs

section Recorded

variable (hrecorder : Recorder code heard)

section Telling

include hrecorder

theorem announce_hears (event : DirectoryEvent) {subscribers : List Subscription}
    (hobservers : ∀ s ∈ subscribers, ∃ name, s.listener = .observer name) (w : World (Site π)) :
    Ends ((subscribers.map (·.listener)).forM (deliver (environment code) event)) w fun _ w' =>
      w'.outside.directory = w.outside.directory ∧
        Hears heard (subscribers.map (·, event)) w w' := by
  induction subscribers generalizing w with
  | nil => exact ⟨rfl, .nothing rfl⟩
  | cons s rest ih =>
    obtain ⟨name, hname⟩ := hobservers s List.mem_cons_self
    show Ends (deliver (environment code) event s.listener >>= fun _ =>
      (rest.map (·.listener)).forM (deliver (environment code) event)) w _
    rw [ends_bind, hname]
    have hfirst : Hears heard [(s, event)] w (code.observe name event w).2 := by
      intro other
      by_cases ho : other = name
      · subst ho
        rw [hrecorder.hears]
        simp [hname]
      · rw [hrecorder.others ho]
        simp [hname, Ne.symm ho]
    have hrest := ih (fun other hmem => hobservers other (List.mem_cons_of_mem _ hmem))
      (code.observe name event w).2
    exact ⟨hrest.1.trans (hrecorder.directory name event w), hfirst.append hrest.2⟩

theorem tell_hears (h : w.outside.directory.subscriptions = Log.subscriptions log)
    {event : DirectoryEvent} (hevent : event? log deal = some event) :
    Ends ((w.outside.directory.listenersFor event.reference).forM
        (deliver (environment code) event)) w fun _ w' =>
      w'.outside.directory = w.outside.directory ∧ Hears heard (told log deal) w w' := by
  unfold Directory.listenersFor told
  rw [h, hevent]
  exact announce_hears hrecorder event
    (fun s hs => observer_of_mem (List.mem_filter.mp hs).1) w

end Telling

/-! ## One deal -/

section Deals

variable (h : Accords log w.outside.directory)
include h

theorem reference?_accords (id : Nat) :
    w.outside.directory.reference? id = (living log).find? (·.id == id) := by
  rw [Directory.reference?_eq, h.services]

theorem not_living {id : Nat} (hnone : w.outside.directory.reference? id = none) :
    ∀ r, Living log r → r.id ≠ id := by
  rw [reference?_accords h, List.find?_eq_none] at hnone
  intro r hr hid
  exact hnone (latest log r) (mem_living.mpr ⟨r, hr, rfl⟩) (by simp [hid])

theorem living_of_reference? {id : Nat} {now : Reference}
    (hnow : w.outside.directory.reference? id = some now) :
    ∃ r, Living log r ∧ latest log r = now ∧ r.id = id := by
  have hid := Directory.reference?_id hnow
  rw [reference?_accords h] at hnow
  obtain ⟨r, hr, rfl⟩ := mem_living.mp (List.mem_of_find?_eq_some hnow)
  exact ⟨r, hr, rfl, (latest_id log r).symm.trans hid⟩

theorem subscribe_done (filter name : String) :
    Ends (carry (environment code) (.subscribe filter name)) w
      (Done heard log (.subscribe filter name) w) := by
  unfold carry Site.subscribe onDirectory Directory.subscribe
  simp only [ends_bind, ends_outside, ends_pure]
  have hservices (granted : Except Fault Nat) :=
    h.unchanged (.subscribe filter name granted) rfl (fun _ => rfl) fun _ => rfl
  cases hfilter : Directory.parseFilter filter with
  | error f =>
    exact ⟨rfl, .refuse hfilter name, h.step (hservices _) rfl rfl rfl, .nothing rfl⟩
  | ok capability =>
    refine ⟨rfl, ?_, ?_, .nothing rfl⟩
    · show Follows log (.subscribe filter name (.ok (w.outside.directory.lastSubscription + 1)))
      rw [h.lastSubscription]
      exact .subscribe hfilter name
    · exact h.step (hservices _) rfl (resubscribed_subscribe hfilter _ name _).symm rfl

theorem unsubscribe_done (n : Nat) :
    Ends (carry (environment code) (.unsubscribe n)) w (Done heard log (.unsubscribe n) w) := by
  have hservices :=
    h.unchanged (.unsubscribe n) rfl (fun _ => rfl) fun _ => rfl
  exact ⟨rfl, .unsubscribe n, h.step hservices rfl rfl rfl, .nothing rfl⟩

variable (hlaw : Lawful log)
include hlaw hrecorder

theorem publish_done (origin : String) (properties : Dict Json) (object : ServiceObject) :
    Ends (carry (environment code) (.publish origin properties object)) w
      (Done heard log (.publish origin properties object) w) := by
  unfold carry Site.publish current
  simp only [ends_bind, ends_outside, ends_get, ends_pure]
  have hevent : event? log (.publish origin properties object
      (w.outside.directory.add origin properties object).1) = some (.registered _) := rfl
  refine (tell_hears hrecorder (w := w.withOutside { w.outside with
    directory := (w.outside.directory.add origin properties object).2 }) h.subscriptions
    hevent).imp ?_
  rintro _ w' ⟨hdirectory, hhears⟩
  refine ⟨rfl, ?_, ?_, hhears⟩
  · show Follows log (.publish _ _ _ (Reference.make _ _ _))
    rw [h.lastService]
    exact .publish origin properties object
  · rw [hdirectory]
    refine h.step ?_ rfl rfl rfl
    have hid : (Log.published log).length < w.outside.directory.lastService + 1 := by
      rw [h.lastService]
      exact Nat.lt_succ_self _
    rw [living_published hlaw (by exact hid), ← h.services]
    exact List.map_append

theorem modify_done (id : Nat) {properties : Dict Json}
    (hmodest : Dict.has Property.objectClass properties = false) :
    Ends (carry (environment code) (.modify id properties)) w
      (Done heard log (.modify id properties) w) := by
  unfold carry Site.modifyService current
  simp only [ends_bind, ends_get, ends_pure]
  cases hreplace : w.outside.directory.replace id properties with
  | none =>
    have hnone : w.outside.directory.reference? id = none := by
      unfold Directory.replace at hreplace
      unfold Directory.reference?
      rw [Option.map_eq_none_iff] at hreplace ⊢
      exact hreplace
    have hservices :=
      h.unchanged (.modify id properties none) rfl (fun _ => rfl) fun _ => rfl
    exact ⟨rfl, .miss (not_living h hnone) properties, h.step hservices rfl rfl rfl, .nothing rfl⟩
  | some replaced =>
    obtain ⟨now, d⟩ := replaced
    obtain ⟨old, hold, rfl⟩ := Directory.reference_of_replace hreplace
    obtain ⟨r, hr, rfl, rfl⟩ := living_of_reference? h hold
    rw [hlaw.make_kept hr.1 hmodest] at hreplace ⊢
    have hd := Directory.changed_of_replace hreplace
    have hevent : event? log (.modify r.id properties (some (r.renewed properties))) =
      some (.modified (r.renewed properties)) := rfl
    have hsubscriptions : d.subscriptions = Log.subscriptions log := by
      rw [hd]
      exact h.subscriptions
    simp only [ends_bind, ends_outside, ends_pure]
    refine (tell_hears hrecorder (w := w.withOutside { w.outside with directory := d })
      hsubscriptions hevent).imp ?_
    rintro _ w' ⟨hdirectory, hhears⟩
    refine ⟨rfl, .modify hr properties, ?_, hhears⟩
    rw [hdirectory]
    show Accords _ d
    rw [hd]
    refine h.step ?_ rfl rfl rfl
    rw [Directory.references_replaced, h.services, living_renewed hlaw hr]

theorem withdraw_done (reference : Reference) :
    Ends (carry (environment code) (.withdraw reference)) w
      (Done heard log (.withdraw reference) w) := by
  unfold carry Site.withdraw current
  simp only [ends_bind, ends_get, ends_pure]
  cases hfound : w.outside.directory.reference? reference.id with
  | none =>
    have hservices :=
      h.unchanged (.withdraw reference false) rfl (fun _ => rfl) fun _ => rfl
    exact ⟨rfl, .gone (not_living h hfound), h.step hservices rfl rfl rfl, .nothing rfl⟩
  | some now =>
    obtain ⟨r, hr, rfl, hid⟩ := living_of_reference? h hfound
    have hevent := event?_withdraw hlaw hr hid.symm
    simp only [ends_bind]
    refine (tell_hears hrecorder h.subscriptions hevent).imp ?_
    rintro _ w₁ ⟨hdirectory, hhears⟩
    simp only [ends_get, ends_outside, ends_pure, hdirectory]
    have hthere : (w.outside.directory.find? reference.id).isSome = true := by
      unfold Directory.reference? at hfound
      obtain ⟨s, hs, -⟩ := Option.map_eq_some_iff.mp hfound
      rw [hs]
      rfl
    rw [hthere]
    refine ⟨rfl, .withdraw hr hid.symm, ?_, hhears⟩
    show Accords _ (w₁.outside.directory.remove reference.id)
    rw [hdirectory]
    refine h.step ?_ rfl rfl rfl
    rw [Directory.references_removed, h.services, living_withdrawn]

theorem carry_done {deed : Deed} (hmodest : ∀ id properties, deed = .modify id properties →
      Dict.has Property.objectClass properties = false) :
    Ends (carry (environment code) deed) w (Done heard log deed w) := by
  cases deed with
  | publish origin properties object => exact publish_done hrecorder h hlaw origin properties object
  | modify id properties => exact modify_done hrecorder h hlaw id (hmodest id properties rfl)
  | withdraw reference => exact withdraw_done hrecorder h hlaw reference
  | subscribe filter name => exact subscribe_done h filter name
  | unsubscribe n => exact unsubscribe_done h n

end Deals

/-! ## A whole run -/

include hrecorder in
theorem run_done (deeds : List Deed) (hmodest : ∀ id properties, .modify id properties ∈ deeds →
      Dict.has Property.objectClass properties = false) {past : List Deal} (hlaw : Lawful past)
    (h : Accords past w.outside.directory) :
    Ends (deeds.mapM (carry (environment code))) w fun log w' =>
      log.map Deal.deed = deeds ∧ Lawful (past ++ log) ∧
        Accords (past ++ log) w'.outside.directory ∧ Hears heard (deliveries past log) w w' := by
  induction deeds generalizing past w with
  | nil =>
    rw [List.mapM_nil, ends_pure, List.append_nil]
    exact ⟨rfl, hlaw, h, .nothing rfl⟩
  | cons deed rest ih =>
    rw [List.mapM_cons, ends_bind]
    refine (carry_done hrecorder h hlaw fun id properties hdeed =>
      hmodest id properties (by simp [hdeed])).imp ?_
    intro deal w₁ hdone
    rw [ends_bind]
    refine (ih (fun id properties hmem => hmodest id properties (List.mem_cons_of_mem _ hmem))
      (hlaw.snoc hdone.follows) hdone.accords).imp ?_
    rintro log w' ⟨hdeeds, hlaw', haccords, hhears⟩
    rw [ends_pure, List.append_cons]
    exact ⟨by rw [List.map_cons, hdone.deed, hdeeds], hlaw', haccords, hdone.hears.append hhears⟩

end Recorded

theorem Accords.lists (h : Accords log d) (hlaw : Lawful log) {filter capability : String}
    (hfilter : Directory.parseFilter filter = .ok capability) :
    d.references filter =
      .ok (((Log.published log).filter fun r =>
          r.hasCapability capability && !Log.withdrawn log r.id).map
        (latest log)) := by
  unfold Directory.references
  rw [hfilter, h.services]
  show Except.ok ((living log).filter (·.hasCapability capability)) = _
  unfold living
  rw [List.filter_map, List.filter_filter]
  refine congrArg (fun rs => Except.ok (List.map (latest log) rs)) ?_
  refine List.filter_congr fun r hr => ?_
  rw [Function.comp_apply, hlaw.hasCapability_latest hr]

theorem withdrawn_once {before after : List Deal} {reference : Reference} {gone : Bool}
    (hlaw : Lawful (before ++ .withdraw reference gone :: after)) :
    gone = true ↔
      ∃ r ∈ Log.published before, r.id = reference.id ∧ Log.withdrawn before r.id = false := by
  cases hlaw before _ after rfl with
  | withdraw hr hid => exact ⟨fun _ => ⟨_, hr.1, hid.symm, hr.2⟩, fun _ => rfl⟩
  | gone hnone => exact ⟨nofun, fun ⟨r, hr, hid, hstays⟩ => absurd hid (hnone r ⟨hr, hstays⟩)⟩

structure Streamed (heard : π → String → List DirectoryEvent) (log : List Deal)
    (w w' : World (Site π)) : Prop where
  /-- Each deed is answered as the log so far asks for. -/
  lawful : Lawful log
  /-- No id is given out twice, not even when its service is gone. -/
  increasing : ((Log.published log).map (·.id)).Pairwise (· < ·)
  /-- A service is withdrawn once. -/
  withdraws {before after : List Deal} {reference : Reference} {gone : Bool} :
    log = before ++ .withdraw reference gone :: after →
      (gone = true ↔
        ∃ r ∈ Log.published before, r.id = reference.id ∧ Log.withdrawn before r.id = false)
  /-- The directory lists the services that are not withdrawn, as they are now. -/
  lists {filter capability : String} : Directory.parseFilter filter = .ok capability →
    w'.outside.directory.references filter =
      .ok (((Log.published log).filter fun r =>
          r.hasCapability capability && !Log.withdrawn log r.id).map
        (latest log))
  /-- Listeners hear what is told to their subscriptions. -/
  hears : Hears heard (deliveries [] log) w w'
  /-- A subscription is told of each service in order, and of those only that it asks for. -/
  tells {before rest : List Deal} {filter name : String} {n : Nat} :
    log = before ++ .subscribe filter name (.ok n) :: rest →
      ∃ (capability : String) (events : List DirectoryEvent),
        Directory.parseFilter filter = .ok capability ∧
        (deliveries [] log).filter (·.1.id == n) =
          events.map (⟨n, capability, .observer name⟩, ·) ∧
        (∀ event ∈ events, ∃ r ∈ Log.published log, r.id = event.reference.id) ∧
        ∀ r ∈ Log.published log, events.filter (·.reference.id == r.id) =
          story capability before (rest.takeWhile fun deal => !deal.ends n) r

/-- If listeners do not call back and nobody changes what a service can do, every subscription is told
the whole story of every service that it asks for. -/
theorem run_streamed (hrecorder : Recorder code heard) (hempty : w.outside.directory = {})
    (deeds : List Deed) (hmodest : ∀ id properties, .modify id properties ∈ deeds →
      Dict.has Property.objectClass properties = false) :
    Ends (deeds.mapM (carry (environment code))) w fun log w' =>
      log.map Deal.deed = deeds ∧ Streamed heard log w w' := by
  have hstart : Accords [] w.outside.directory := by
    rw [hempty]
    exact ⟨rfl, rfl, rfl, rfl⟩
  refine (run_done hrecorder deeds hmodest .nil hstart).imp ?_
  rintro log w' ⟨hdeeds, hlaw, haccords, hhears⟩
  rw [List.nil_append] at hlaw haccords
  refine ⟨hdeeds, hlaw, hlaw.increasing, ?_, haccords.lists hlaw, hhears, ?_⟩
  · rintro before after reference gone rfl
    exact withdrawn_once hlaw
  · rintro before rest filter name n rfl
    exact subscription_told hlaw

/-! ## A listener's visit -/

def noting : PluginCode (Site (List (String × DirectoryEvent))) :=
  { PluginCode.still with
    observe := fun name event => modify fun w => { w with
      outside := { w.outside with own := w.outside.own ++ [(name, event)] } } }

def noted (notes : List (String × DirectoryEvent)) (name : String) : List DirectoryEvent :=
  (notes.filter (·.1 = name)).map Prod.snd

theorem noting_recorder : Recorder noting noted where
  directory _ _ _ := rfl
  hears name event w := by
    show noted (w.outside.own ++ [(name, event)]) name = noted w.outside.own name ++ [event]
    simp [noted]
  others {name other} h event w := by
    show noted (w.outside.own ++ [(name, event)]) other = noted w.outside.own other
    simp [noted, Ne.symm h]

def visited : Reference :=
  .make 1 "m" [(Property.objectClass, .list [.text "p"])]

def painted : Dict Json :=
  [("colour", .text "red")]

def visit : List Deed :=
  [.subscribe "(objectClass=p)" "a", .publish "m" visited.properties .other,
    .publish "m" [(Property.objectClass, .list [.text "q"])] .other, .modify 1 painted,
    .withdraw visited, .withdraw visited, .unsubscribe 1,
    .publish "m" visited.properties .other]

theorem visit_streamed :
    let w : World (Site (List (String × DirectoryEvent))) := { outside := ⟨{}, ⟨"", []⟩, []⟩ }
    let run := visit.mapM (carry (environment noting)) w
    (∀ id properties, .modify id properties ∈ visit →
        Dict.has Property.objectClass properties = false) ∧
      run.1.map Deal.deed = visit ∧ Streamed noted run.1 w run.2 ∧
      noted run.2.outside.own "a" = [.registered visited, .modified (visited.renewed painted),
        .unregistering (visited.renewed painted)] := by
  have hmodest : ∀ id properties, .modify id properties ∈ visit →
      Dict.has Property.objectClass properties = false := by
    intro id properties hmem
    simp only [visit, List.mem_cons, reduceCtorEq, List.not_mem_nil, Deed.modify.injEq, false_or,
      or_false] at hmem
    rw [hmem.2]
    decide
  obtain ⟨hdeeds, hstreamed⟩ := run_streamed noting_recorder
    (w := { outside := ⟨{}, ⟨"", []⟩, []⟩ }) rfl visit hmodest
  exact ⟨hmodest, hdeeds, hstreamed, by cbv⟩

end PluginConsole.Site
