import PluginConsole.Proofs.Registry.Cold
import PluginConsole.Proofs.Registry.Offer
import PluginConsole.Proofs.Site.Outcome

/-!
# Labels after registrations

As long as nothing is removed, the best of all that asked for a label has it. It makes no
difference who asked first, and when the registry was opened.
-/

namespace PluginConsole.Site

open Act Registry

variable {π : Type} {code : PluginCode (Site π)} {w w' : World (Site π)}

/-! ## What a run offers -/

/-- Nothing is taken from the registry, and no service changes or goes. -/
def Action.Adds : Action π → Prop
  | .registry .close | .registry (.removeService _) | .registry (.unregister _)
  | .registry (.hear (.unregistering _)) | .modify .. | .withdraw _ => False
  | _ => True

def Action.Registers : Action π → Prop
  | .registry .openUp | .registry (.addService _) | .registry (.addDirect ..)
  | .registry (.hear (.registered _)) | .publish .. => True
  | _ => False

def Action.opens : Action π → Bool
  | .registry .openUp => true
  | _ => false

def Action.offer? : Action π → Option Offer
  | .registry (.addService r) | .registry (.hear (.registered r)) => r.offer?
  | .registry (.addDirect _ label) => some ⟨label, 0, 0⟩
  | _ => none

/-- The service that an action publishes, if this id is the next one. -/
def Action.publication (id : Nat) : Action π → Option Reference
  | .publish origin properties _ =>
    some (Reference.make id origin (Directory.withCapability properties))
  | _ => none

def publications (actions : List (Action π)) : List Reference :=
  actions.foldl (fun before action => before ++ (action.publication (before.length + 1)).toList) []

/-- Those of them that the registry comes to hear of, early or late. -/
def announced (actions : List (Action π)) : List Reference :=
  if actions.any Action.opens then
    (publications actions).filter (·.hasCapability consoleCapability)
  else []

def offers (actions : List (Action π)) : List Offer :=
  actions.filterMap Action.offer? ++ (announced actions).filterMap (·.offer?)

theorem publications_concat (done : List (Action π)) (action : Action π) :
    publications (done ++ [action]) =
      publications done ++ (action.publication ((publications done).length + 1)).toList := by
  unfold publications
  rw [List.foldl_concat]

theorem mem_offers_concat {done : List (Action π)} {action : Action π} (o : Offer)
    (hnone : ∀ id, action.publication id = none) (hopens : action.opens = false) :
    o ∈ offers (done ++ [action]) ↔ o ∈ offers done ++ action.offer?.toList := by
  have hannounced : announced (done ++ [action]) = announced done := by
    unfold announced
    rw [publications_concat, hnone, Option.toList_none, List.append_nil, List.any_append,
      List.any_cons, List.any_nil, hopens, Bool.or_false, Bool.or_false]
  unfold offers
  rw [hannounced, List.filterMap_append, List.filterMap_cons, List.filterMap_nil]
  cases action.offer? with
  | none => simp
  | some own => simp [or_assoc, or_comm]

/-! ## The registry keeps up with what is offered -/

structure Tracks (done : List (Action π)) (w : World (Site π)) : Prop where
  published : w.outside.directory.services.map (·.reference) = publications done
  numbered : w.outside.directory.lastService = (publications done).length
  listening : isOpen w = done.any Action.opens
  settled : Offer.Coherent (offers done) → Settled (offers done) w

theorem standing_alike (h : Alike w w') : standing w' = standing w := by
  funext label
  unfold standing
  rw [h.table]
  refine Option.map_congr fun id _ => ?_
  rw [h.rank, h.sequenceId]

theorem Tracks.alike {done : List (Action π)} (h : Alike w w') (htracks : Tracks done w) :
    Tracks done w' where
  published := h.shape.references.trans htracks.published
  numbered := h.shape.lastService.trans htracks.numbered
  listening := by
    unfold isOpen
    rw [h.subscription]
    exact htracks.listening
  settled hcoherent label := by
    rw [standing_alike h]
    exact htracks.settled hcoherent label

/-- More is offered, and the registry settles it. -/
theorem settled_more {offered offered' new : List Offer}
    (hmem : ∀ o, o ∈ offered' ↔ o ∈ offered ++ new)
    (h : Offer.Coherent offered → Settled offered w)
    (hstep : Settled offered w → Offer.Coherent (offered ++ new) → Settled (offered ++ new) w')
    (hcoherent : Offer.Coherent offered') : Settled offered' w' := by
  have hall : Offer.Coherent (offered ++ new) := hcoherent.subset fun o ho => (hmem o).mpr ho
  have hbefore := h (hall.subset fun o ho => List.mem_append_left _ ho)
  exact fun label => (hstep hbefore hall label).congr hmem

theorem tracks_quiet {done : List (Action π)} {action : Action π} (h : Tracks done w)
    (hdirectory : w'.outside.directory.services = w.outside.directory.services ∧
      w'.outside.directory.lastService = w.outside.directory.lastService)
    (hopen : isOpen w' = isOpen w) (hnone : ∀ id, action.publication id = none)
    (hopens : action.opens = false)
    (hstep : Settled (offers done) w → Offer.Coherent (offers done ++ action.offer?.toList) →
      Settled (offers done ++ action.offer?.toList) w') :
    Tracks (done ++ [action]) w' := by
  have hsame : publications (done ++ [action]) = publications done := by
    rw [publications_concat, hnone, Option.toList_none, List.append_nil]
  refine ⟨?_, ?_, ?_, ?_⟩
  · rw [hsame, hdirectory.1]
    exact h.published
  · rw [hsame, hdirectory.2]
    exact h.numbered
  · rw [hopen, h.listening, List.any_append, List.any_cons, List.any_nil, hopens, Bool.or_false,
      Bool.or_false]
  · exact settled_more (fun o => mem_offers_concat o hnone hopens) h.settled hstep

theorem offers_publish (done : List (Action π)) (origin : String) (properties : Dict Json)
    (object : ServiceObject) {r : Reference}
    (hr : r = Reference.make ((publications done).length + 1) origin
      (Directory.withCapability properties)) :
    offers (done ++ [.publish origin properties object]) = offers done ++
      if done.any Action.opens && r.hasCapability consoleCapability then r.offer?.toList else [] := by
  have hpublications : publications (done ++ [.publish origin properties object]) =
      publications done ++ [r] := by
    rw [publications_concat, hr]
    rfl
  have hannounced : announced (done ++ [.publish origin properties object]) = announced done ++
      if done.any Action.opens && r.hasCapability consoleCapability then [r] else [] := by
    unfold announced
    rw [hpublications, List.any_append]
    show (if (done.any Action.opens || false) = true then _ else _) = _
    rw [Bool.or_false]
    cases done.any Action.opens with
    | false => rfl
    | true =>
      rw [if_pos rfl, if_pos rfl, List.filter_append, Bool.true_and]
      cases hcapable : r.hasCapability consoleCapability with
      | false => simp [hcapable]
      | true => simp [hcapable]
  have hown : (done ++ [Action.publish origin properties object]).filterMap Action.offer? =
      done.filterMap Action.offer? := by
    rw [List.filterMap_append]
    exact List.append_nil _
  unfold offers
  rw [hown, hannounced, List.filterMap_append, List.append_assoc]
  congr 2
  split
  · rw [List.filterMap_cons, List.filterMap_nil]
    cases r.offer? <;> rfl
  · rfl

theorem tracks_published {done : List (Action π)} (hready : Ready w) (h : Tracks done w)
    (origin : String) (properties : Dict Json) (object : ServiceObject) :
    Tracks (done ++ [.publish origin properties object])
      (published origin properties object w) := by
  have hnumber : (w.outside.directory.add origin properties object).1 =
      Reference.make ((publications done).length + 1) origin
        (Directory.withCapability properties) := by
    rw [← h.numbered]
    rfl
  have hsame := tableOnly_published origin properties object w
  have hpublications := publications_concat done (.publish origin properties object)
  refine ⟨?_, ?_, ?_, ?_⟩
  · rw [hsame.outside, hpublications]
    show (w.outside.directory.services ++ [_]).map _ = _
    rw [List.map_append, h.published, List.map_singleton, h.numbered]
    rfl
  · rw [hsame.outside, hpublications, List.length_append]
    show w.outside.directory.lastService + 1 = _
    rw [h.numbered]
    rfl
  · rw [hsame.isOpen, List.any_append]
    show isOpen w = (_ || false)
    rw [Bool.or_false]
    exact h.listening
  · rw [offers_publish done origin properties object hnumber]
    refine settled_more (fun _ => Iff.rfl) h.settled fun hsettled hcoherent => ?_
    unfold published hears
    dsimp only
    rw [h.listening]
    split
    · rename_i hheard
      rw [if_pos hheard] at hcoherent
      have hranged : Ranged (withDirectory
          (w.outside.directory.add origin properties object).2 w) := hready.ranged
      exact settled_enlisted hranged hsettled hcoherent
    · rw [List.append_nil]
      exact hsettled

theorem tracks_opened {done : List (Action π)} (hready : Ready w) (h : Tracks done w) :
    Tracks (done ++ [.registry .openUp]) (opened w) := by
  have hpublications : publications (done ++ [.registry .openUp]) = publications done := by
    rw [publications_concat]
    exact List.append_nil _
  have hany : (done ++ [Action.registry .openUp]).any Action.opens = true := by
    rw [List.any_append]
    exact Bool.or_true _
  have hoffers : offers (done ++ [.registry .openUp]) = done.filterMap Action.offer? ++
      ((publications done).filter (·.hasCapability consoleCapability)).filterMap (·.offer?) := by
    unfold offers announced
    rw [hany, hpublications, if_pos rfl, List.filterMap_append]
    congr 1
    exact List.append_nil _
  unfold opened
  split
  · rename_i hopen
    have hsame : offers (done ++ [.registry .openUp]) = offers done := by
      rw [hoffers]
      unfold offers announced
      rw [← h.listening, hopen, if_pos rfl]
    refine ⟨?_, ?_, ?_, ?_⟩
    · rw [hpublications]
      exact h.published
    · rw [hpublications]
      exact h.numbered
    · rw [hany]
      exact hopen
    · rw [hsame]
      exact h.settled
  · rename_i hclosed
    have hsame := tableOnly_enlistedAll (capable w.outside.directory) (subscribed w)
    have hcapable : (publications done).filter (·.hasCapability consoleCapability) =
        capable w.outside.directory := by
      rw [← h.published]
      rfl
    have hmore : offers (done ++ [.registry .openUp]) =
        offers done ++ (capable w.outside.directory).filterMap (·.offer?) := by
      rw [hoffers, hcapable]
      unfold offers announced
      rw [← h.listening, if_neg hclosed, List.filterMap_nil, List.append_nil]
    refine ⟨?_, ?_, ?_, ?_⟩
    · rw [hsame.outside, hpublications]
      exact h.published
    · rw [hsame.outside, hpublications]
      exact h.numbered
    · rw [hany, hsame.isOpen]
      rfl
    · rw [hmore]
      refine settled_more (fun _ => Iff.rfl) h.settled fun hsettled hcoherent => ?_
      have hranged : Ranged (subscribed w) := hready.ranged
      have hsubscribed : Settled (offers done) (subscribed w) := hsettled
      exact settled_enlistedAll hranged hsubscribed hcoherent

theorem tracks_enlisted {done : List (Action π)} {action : Action π} (hready : Ready w)
    (h : Tracks done w) {r : Reference} (hnone : ∀ id, action.publication id = none)
    (hopens : action.opens = false) (hoffer : action.offer? = r.offer?) :
    Tracks (done ++ [action]) (enlisted r w) := by
  have hsame := tableOnly_enlisted r w
  refine tracks_quiet h ⟨?_, ?_⟩ hsame.isOpen hnone hopens ?_
  · rw [hsame.outside]
  · rw [hsame.outside]
  · rw [hoffer]
    intro hsettled hcoherent
    exact settled_enlisted hready.ranged hsettled hcoherent

theorem tracks_outcome {done : List (Action π)} (hready : Ready w) (h : Tracks done w)
    {action : Action π} (hadds : action.Adds) :
    Tracks (done ++ [action]) (outcome code action w) := by
  have hnothing : Settled (offers done) w → Offer.Coherent (offers done ++ []) →
      Settled (offers done ++ []) w := by
    intro hsettled _
    rw [List.append_nil]
    exact hsettled
  cases action with
  | registry op =>
    cases op with
    | openUp => exact tracks_opened hready h
    | close | removeService | unregister => exact hadds.elim
    | addService r => exact tracks_enlisted hready h (fun _ => rfl) rfl rfl
    | hear event =>
      cases event with
      | registered r => exact tracks_enlisted hready h (fun _ => rfl) rfl rfl
      | modified r => exact tracks_quiet h ⟨rfl, rfl⟩ rfl (fun _ => rfl) rfl hnothing
      | unregistering r => exact hadds.elim
    | addDirect factory label =>
      exact tracks_quiet h ⟨rfl, rfl⟩ rfl (fun _ => rfl) rfl
        fun hsettled hcoherent => settled_joined hready.ranged hsettled hcoherent
    | lookup | lookupDefault | setDefaultLabel | labelMap | describe | setContext =>
      exact tracks_quiet h ⟨rfl, rfl⟩ rfl (fun _ => rfl) rfl hnothing
  | publish origin properties object => exact tracks_published hready h origin properties object
  | modify id properties => exact hadds.elim
  | withdraw reference => exact hadds.elim
  | observe name filter =>
    exact tracks_quiet h ⟨services_observe name filter _, lastService_observe name filter _⟩ rfl
      (fun _ => rfl) rfl hnothing
  | setDisabled factories => exact tracks_quiet h ⟨rfl, rfl⟩ rfl (fun _ => rfl) rfl hnothing

/-! ## Registrations call no code -/

def bare (code : PluginCode (Site π)) : PluginCode (Site π) :=
  { PluginCode.still with hasFactory := code.hasFactory }

theorem bare_spares (code : PluginCode (Site π)) : (bare code).Spares Site.directory := by
  have hstill := PluginCode.still_spares (Site.directory : Site π → Directory)
  exact ⟨hstill.create, hstill.activate, hstill.deactivate, hstill.title, hstill.category,
    hstill.init, hstill.destroy, hstill.observe⟩

def Unwatched (w : World (Site π)) : Prop :=
  ∀ s ∈ w.outside.directory.subscriptions, s.listener = .registry

theorem agree_deliver (h : Cold w) {event : DirectoryEvent} (hevent : ∀ r, event ≠ .unregistering r)
    {listeners : List Listener} (hlisteners : ∀ l ∈ listeners, l = .registry)
    (code' : PluginCode (Site π)) :
    Agree (listeners.forM (deliver (environment code) event))
      (listeners.forM (deliver (environment code') event)) w := by
  induction listeners generalizing w with
  | nil =>
    show Agree (pure PUnit.unit) (pure PUnit.unit) w
    exact agree_refl h
  | cons listener rest ih =>
    have hrest := fun l hl => hlisteners l (List.mem_cons_of_mem _ hl)
    have hdirectory : (environment code').directory = (environment code).directory := rfl
    rw [hlisteners listener List.mem_cons_self]
    show Agree (directoryChanged (environment code) event >>= fun _ =>
        rest.forM (deliver (environment code) event))
      (directoryChanged (environment code') event >>= fun _ =>
        rest.forM (deliver (environment code') event)) w
    exact (agree_directoryChanged hdirectory h hevent).bind fun _ _ hcold => ih hcold hrest

theorem agree_announce (hcold : Cold w) {d : Directory}
    (hunwatched : ∀ s ∈ d.subscriptions, s.listener = .registry) (code code' : PluginCode (Site π))
    (r : Reference) :
    Agree ((d.listenersFor r).forM (deliver (environment code) (.registered r)) >>= fun _ => pure r)
      ((d.listenersFor r).forM (deliver (environment code') (.registered r)) >>= fun _ => pure r)
      w := by
  have hlisteners : ∀ l ∈ d.listenersFor r, l = .registry := by
    intro l hl
    obtain ⟨s, hs, rfl⟩ := List.mem_map.mp hl
    exact hunwatched s (List.mem_filter.mp hs).1
  have hevent : ∀ s, DirectoryEvent.registered r ≠ .unregistering s := by simp
  exact (agree_deliver hcold hevent hlisteners code').bind fun _ _ h => agree_refl h

theorem agree_publish (hcold : Cold w) (hunwatched : Unwatched w) (code' : PluginCode (Site π))
    (origin : String) (properties : Dict Json) (object : ServiceObject) :
    Agree (publish (environment code) origin properties object)
      (publish (environment code') origin properties object) w := by
  have hadded : Cold (withDirectory (w.outside.directory.add origin properties object).2 w) := hcold
  have hagree := agree_announce hadded hunwatched code code'
    (w.outside.directory.add origin properties object).1
  exact hagree

theorem agree_act (hcold : Cold w) (hunwatched : Unwatched w) {action : Action π}
    (hregisters : action.Registers) :
    Agree (act (environment code) action) (act (environment (bare code)) action) w := by
  have hdirectory : (environment (bare code)).directory = (environment code).directory := rfl
  have hfactory : (environment (bare code)).code.hasFactory = (environment code).code.hasFactory :=
    rfl
  unfold act
  cases action with
  | registry op =>
    unfold perform
    cases op with
    | openUp => exact agree_discard (agree_openRegistry hdirectory hcold)
    | addService r => exact agree_addService hcold r
    | addDirect factory label => exact agree_addDirect hcold hfactory factory label
    | hear event =>
      cases event with
      | registered r => exact agree_directoryChanged hdirectory hcold fun _ => by simp
      | modified | unregistering => exact hregisters.elim
    | _ => exact hregisters.elim
  | publish origin properties object =>
    exact agree_discard (agree_publish hcold hunwatched (bare code) origin properties object)
  | _ => exact hregisters.elim

theorem Unwatched.tableOnly (h : TableOnly w w') (hunwatched : Unwatched w) : Unwatched w' := by
  unfold Unwatched
  rw [h.outside]
  exact hunwatched

theorem unwatched_subscribed (h : Unwatched w) : Unwatched (subscribed w) := by
  intro s hs
  rcases List.mem_append.mp hs with hs | hs
  · exact h s hs
  · rw [List.mem_singleton.mp hs]

theorem unwatched_outcome (h : Unwatched w) {action : Action π} (hregisters : action.Registers) :
    Unwatched (outcome code action w) := by
  cases action with
  | registry op =>
    cases op with
    | openUp =>
      show Unwatched (opened w)
      unfold opened
      split
      · exact h
      · exact (unwatched_subscribed h).tableOnly (tableOnly_enlistedAll _ _)
    | addService r => exact h.tableOnly (tableOnly_enlisted r w)
    | addDirect factory label => exact h
    | hear event => exact h.tableOnly (tableOnly_heeded event w)
    | _ => exact hregisters.elim
  | publish origin properties object =>
    have hadded : Unwatched (withDirectory (w.outside.directory.add origin properties object).2 w) :=
      h
    exact hadded.tableOnly (tableOnly_published origin properties object w)
  | _ => exact hregisters.elim

theorem Action.Registers.calm {action : Action π} (h : action.Registers) : action.Calm := by
  cases action with
  | registry op =>
    cases op with
    | labelMap => exact h.elim
    | _ => exact trivial
  | _ => exact trivial

theorem Action.Registers.adds {action : Action π} (h : action.Registers) : action.Adds := by
  cases action with
  | registry op =>
    cases op with
    | hear event =>
      cases event with
      | unregistering => exact h
      | registered | modified => exact trivial
    | close | removeService | unregister => exact h
    | _ => exact trivial
  | modify | withdraw => exact h
  | _ => exact trivial

/-- So far no code was called, and none of what was done depends on it. -/
structure Uncalled (code : PluginCode (Site π)) (host : Host) (own : π) (done : List (Action π))
    (w : World (Site π)) : Prop where
  ready : Ready w
  cold : Cold w
  unwatched : Unwatched w
  same : runActions (environment code) done (start host own) = w

theorem uncalled_start (code : PluginCode (Site π)) (host : Host) (own : π) :
    Uncalled code host own [] (start host own) where
  ready := ready_start host own
  cold _ := rfl
  unwatched _ hs := absurd hs List.not_mem_nil
  same := rfl

theorem uncalled_act {host : Host} {own : π} {done : List (Action π)}
    (h : Uncalled code host own done w) {action : Action π} (hregisters : action.Registers) :
    Ends (act (environment (bare code)) action) w fun _ w' =>
      Uncalled code host own (done ++ [action]) w' := by
  have hafter := act_ready (bare_spares code) h.ready action hregisters.calm
  have hagree : Agree (act (environment code) action) (act (environment (bare code)) action) w :=
    agree_act h.cold h.unwatched hregisters
  obtain ⟨hsame, hcold⟩ := hagree
  rw [← hsame] at hcold
  unfold Ends at hafter ⊢
  obtain ⟨hready, halike⟩ := hafter
  refine ⟨hready, hcold, fun s hs => ?_, ?_⟩
  · rw [halike.shape.subscriptions] at hs
    exact unwatched_outcome h.unwatched hregisters s hs
  · rw [runActions_concat, h.same, hsame]

/-- Which code the plugins have makes no difference to registrations. -/
theorem runActions_bare (code : PluginCode (Site π)) (host : Host) (own : π)
    {actions : List (Action π)} (hactions : ∀ action ∈ actions, action.Registers) :
    runActions (environment code) actions (start host own) =
      runActions (environment (bare code)) actions (start host own) := by
  have hrun : Uncalled code host own actions
      (runActions (environment (bare code)) actions (start host own)) :=
    runActions_along (Uncalled code host own) (uncalled_start code host own)
      (fun _ _ _ hregisters h => uncalled_act h hregisters) hactions
  exact hrun.same

/-! ## Runs -/

/-- Registrations alone, or also queries in between if the code of plugins does not call back. -/
def Orderly (code : PluginCode (Site π)) (actions : List (Action π)) : Prop :=
  (∀ action ∈ actions, action.Registers) ∨
    (code.Spares Site.directory ∧ ∀ action ∈ actions, action.Calm ∧ action.Adds)

theorem Orderly.perm {actions others : List (Action π)} (h : Orderly code actions)
    (hperm : others.Perm actions) : Orderly code others := by
  rcases h with h | ⟨hcode, h⟩
  · exact Or.inl fun action hmem => h action (hperm.mem_iff.mp hmem)
  · exact Or.inr ⟨hcode, fun action hmem => h action (hperm.mem_iff.mp hmem)⟩

theorem mem_offers_of_perm {actions others : List (Action π)} (hperm : others.Perm actions)
    (hpublications : publications others = publications actions) (o : Offer) :
    o ∈ offers others ↔ o ∈ offers actions := by
  have hopens : others.any Action.opens = actions.any Action.opens := by
    rw [Bool.eq_iff_iff, List.any_eq_true, List.any_eq_true]
    simp only [hperm.mem_iff]
  have hannounced : announced others = announced actions := by
    unfold announced
    rw [hopens, hpublications]
  unfold offers
  rw [hannounced, List.mem_append, List.mem_append, (hperm.filterMap Action.offer?).mem_iff]

theorem runActions_tracks_spared (hcode : code.Spares Site.directory) (host : Host) (own : π)
    {actions : List (Action π)} (hactions : ∀ action ∈ actions, action.Calm ∧ action.Adds) :
    Ready (runActions (environment code) actions (start host own)) ∧
      Tracks actions (runActions (environment code) actions (start host own)) := by
  refine runActions_along (fun done w => Ready w ∧ Tracks done w) ?_ ?_ hactions
  · refine ⟨ready_start host own, rfl, rfl, rfl, fun _ label => ?_⟩
    exact fun o ho => absurd ho List.not_mem_nil
  · rintro done action w ⟨hcalm, hadds⟩ ⟨hready, htracks⟩
    refine (act_ready hcode hready action hcalm).imp fun _ w' ⟨hready', halike⟩ => ⟨hready', ?_⟩
    exact (tracks_outcome hready htracks hadds).alike halike

theorem runActions_tracks (host : Host) (own : π) {actions : List (Action π)}
    (h : Orderly code actions) :
    Ready (runActions (environment code) actions (start host own)) ∧
      Tracks actions (runActions (environment code) actions (start host own)) := by
  rcases h with hregisters | ⟨hcode, hactions⟩
  · rw [runActions_bare code host own hregisters]
    exact runActions_tracks_spared (bare_spares code) host own fun action hmem =>
      ⟨(hregisters action hmem).calm, (hregisters action hmem).adds⟩
  · exact runActions_tracks_spared hcode host own hactions

/-- As long as nothing is removed, every label has one entry, the best that asked for it, in
whichever order they asked, and whenever the registry was opened. -/
theorem runActions_standing (host : Host) (own : π) (actions : List (Action π))
    (horderly : Orderly code actions) (hcoherent : Offer.Coherent (offers actions)) :
    let run actions := runActions (environment code) actions (start host own)
    (Dict.Sorted (run actions).table ∧
      ∀ label id, (label, id) ∈ (run actions).table →
        ((run actions).entry id).label = label) ∧
    (∀ label, Offer.Best (offers actions) label (standing (run actions) label)) ∧
    (∀ others, Orderly code others → (∀ o, o ∈ offers others ↔ o ∈ offers actions) →
      standing (run others) = standing (run actions)) ∧
    (∀ others, others.Perm actions → publications others = publications actions →
      standing (run others) = standing (run actions)) := by
  intro run
  obtain ⟨hready, htracks⟩ := runActions_tracks host own horderly
  have hsettled : Settled (offers actions) (run actions) := htracks.settled hcoherent
  have hsame : ∀ others, Orderly code others → (∀ o, o ∈ offers others ↔ o ∈ offers actions) →
      standing (run others) = standing (run actions) := by
    intro others hothers hmem
    have hcoherent' : Offer.Coherent (offers others) :=
      hcoherent.subset fun o ho => (hmem o).mp ho
    have hsettled' : Settled (offers others) (run others) :=
      (runActions_tracks host own hothers).2.settled hcoherent'
    funext label
    exact (hsettled' label).unique ((hsettled label).congr hmem)
  refine ⟨⟨hready.sorted, fun label id hmem => (hready.filed label id hmem).2⟩, hsettled, hsame,
    fun others hperm hpublications => ?_⟩
  exact hsame others (horderly.perm hperm) (mem_offers_of_perm hperm hpublications)

/-- A plugin and two services of one rank ask for a label, and the registry opens meanwhile. -/
def contenders : List (Action Unit) :=
  [.registry (.addDirect "p" "a"),
    .publish "m" [(Property.label, .text "a"), (Property.serviceRanking, .int 5)] .other,
    .registry .openUp,
    .registry (.addService (Reference.make 7 "n"
      [(Property.label, .text "a"), (Property.serviceRanking, .int 5)]))]

theorem contenders_standing :
    Orderly (PluginCode.still : PluginCode (Site Unit)) contenders ∧
      Offer.Coherent (offers contenders) ∧
      standing (runActions (environment PluginCode.still) contenders (start ⟨"", []⟩ ())) "a" =
        some (5, 1) := by
  have horderly : Orderly (PluginCode.still : PluginCode (Site Unit)) contenders :=
    Or.inl (by simp [contenders, Action.Registers])
  have hoffers : offers contenders = [⟨"a", 0, 0⟩, ⟨"a", 5, 7⟩, ⟨"a", 5, 1⟩] := by
    decide +kernel
  have hcoherent : Offer.Coherent (offers contenders) := by
    rw [hoffers]
    unfold Offer.Coherent
    decide
  have hbest : Offer.Best (offers contenders) "a" (some (5, 1)) := by
    rw [hoffers]
    unfold Offer.Best
    decide
  -- the run is kept abstract: opening would have every filter parsed
  obtain ⟨-, hsettled, -, -⟩ := runActions_standing ⟨"", []⟩ () contenders horderly hcoherent
  beta_reduce at hsettled
  generalize runActions (environment PluginCode.still) contenders (start ⟨"", []⟩ ()) = w
    at hsettled ⊢
  exact ⟨horderly, hcoherent, (hsettled "a").unique hbest⟩

end PluginConsole.Site
