import PluginConsole.Proofs.Directory.Log

/-!
# What a log tells of each service

Everybody is told of a service who asked for a capability that it has, from its publication or the
subscription on, until it is withdrawn or the subscription ends.
-/

namespace PluginConsole.Log

open Directory

def event? (past : List Deal) : Deal → Option DirectoryEvent
  | .publish _ _ _ r => some (.registered r)
  | .modify _ _ (some r) => some (.modified r)
  | .withdraw r true => ((living past).find? (·.id == r.id)).map .unregistering
  | _ => none

/-- Everybody whose subscription is in force and who asked for one of the capabilities of the service
is told. -/
def told (past : List Deal) (deal : Deal) : List (Subscription × DirectoryEvent) :=
  match event? past deal with
  | some event =>
    ((subscriptions past).filter (event.reference.hasCapability ·.capability)).map (·, event)
  | none => []

def deliveries (past : List Deal) : List Deal → List (Subscription × DirectoryEvent)
  | [] => []
  | deal :: rest => told past deal ++ deliveries (past ++ [deal]) rest

/-- What one who asks for this capability is told in the meantime. -/
def stream (capability : String) (past : List Deal) : List Deal → List DirectoryEvent
  | [] => []
  | deal :: rest =>
    ((event? past deal).filter (·.reference.hasCapability capability)).toList ++
      stream capability (past ++ [deal]) rest

/-- What is to be told of one service to somebody who subscribed after `before`. -/
def story (capability : String) (before during : List Deal) (r : Reference) :
    List DirectoryEvent :=
  if r.hasCapability capability && !withdrawn before r.id then
    (if r.id ∈ (published during).map (·.id) then [.registered r] else []) ++
      (renewals during r.id).map (fun properties => .modified (r.renewed properties)) ++
      (if withdrawn during r.id then [.unregistering (latest (before ++ during) r)] else [])
  else []

variable {log past before during rest : List Deal} {deal : Deal} {r : Reference} {id : Nat}

theorem deliveries_append (past log rest : List Deal) :
    deliveries past (log ++ rest) = deliveries past log ++ deliveries (past ++ log) rest := by
  induction log generalizing past with
  | nil => simp [deliveries]
  | cons deal log ih => simp [deliveries, ih, List.append_assoc]

theorem stream_append (capability : String) (past log rest : List Deal) :
    stream capability past (log ++ rest) =
      stream capability past log ++ stream capability (past ++ log) rest := by
  induction log generalizing past with
  | nil => simp [stream]
  | cons deal log ih => simp [stream, ih, List.append_assoc]

/-! ## What is told of one service -/

theorem find?_of_unique {α : Type} {p : α → Bool} {items : List α} {a : α} (ha : a ∈ items)
    (hp : p a = true) (honly : ∀ b ∈ items, p b = true → b = a) : items.find? p = some a := by
  cases hfind : items.find? p with
  | none => exact absurd hp (List.find?_eq_none.mp hfind a ha)
  | some b => rw [honly b (List.mem_of_find?_eq_some hfind) (List.find?_some hfind)]

theorem find?_living (h : Lawful log) (hr : Living log r) (hid : r.id = id) :
    (living log).find? (·.id == id) = some (latest log r) := by
  refine find?_of_unique (mem_living.mpr ⟨r, hr, rfl⟩) (by simp [hid]) fun now hnow hsame => ?_
  obtain ⟨other, hother, rfl⟩ := mem_living.mp hnow
  rw [h.unique hother.1 hr.1]
  rw [hid]
  simpa using hsame

theorem event?_withdraw (h : Lawful past) (hr : Living past r) {reference : Reference}
    (hid : reference.id = r.id) :
    event? past (.withdraw reference true) = some (.unregistering (latest past r)) := by
  show ((living past).find? (·.id == reference.id)).map _ = _
  rw [find?_living h hr hid.symm]
  rfl

theorem published_of_event {event : DirectoryEvent} (hdeal : Follows past deal)
    (hevent : event? past deal = some event) :
    ∃ r ∈ published (past ++ [deal]), r.id = event.reference.id := by
  rw [published_append]
  cases hdeal with
  | publish origin properties object =>
    cases hevent
    exact ⟨_, List.mem_append_right _ (List.mem_singleton_self _), rfl⟩
  | modify hliving properties =>
    cases hevent
    exact ⟨_, List.mem_append_left _ hliving.1, rfl⟩
  | withdraw hliving hid =>
    obtain ⟨now, hnow, rfl⟩ := Option.map_eq_some_iff.mp hevent
    obtain ⟨r, hr, rfl⟩ := mem_living.mp (List.mem_of_find?_eq_some hnow)
    exact ⟨r, List.mem_append_left _ hr.1, (latest_id past r).symm⟩
  | miss | gone | subscribe | refuse | unsubscribe => cases hevent

theorem published_of_mem_stream {capability : String} {event : DirectoryEvent}
    (h : Lawful (past ++ during)) (hmem : event ∈ stream capability past during) :
    ∃ r ∈ published (past ++ during), r.id = event.reference.id := by
  induction during using List.reverseRecOn with
  | nil => simp [stream] at hmem
  | append_singleton during deal ih =>
    rw [← List.append_assoc] at h ⊢
    rw [stream_append, List.mem_append] at hmem
    rcases hmem with hmem | hmem
    · obtain ⟨r, hr, hid⟩ := ih h.of_append hmem
      exact ⟨r, by rw [published_append]; exact List.mem_append_left _ hr, hid⟩
    · simp only [stream, List.append_nil, Option.mem_toList, Option.filter_eq_some_iff] at hmem
      exact published_of_event h.last hmem.1

theorem stream_single {capability : String} {event : DirectoryEvent}
    (hevent : event? past deal = some event) (hid : event.reference.id = id) :
    (stream capability past [deal]).filter (·.reference.id == id) =
      if event.reference.hasCapability capability then [event] else [] := by
  unfold stream
  rw [hevent, Option.filter_some]
  split
  · simp [stream, hid]
  · simp [stream]

theorem stream_other {capability : String}
    (hother : ∀ event, event? past deal = some event → event.reference.id ≠ id) :
    (stream capability past [deal]).filter (·.reference.id == id) = [] := by
  rw [List.filter_eq_nil_iff]
  intro event hmem hsame
  simp only [stream, List.append_nil, Option.mem_toList, Option.filter_eq_some_iff] at hmem
  exact hother event hmem.1 (beq_iff_eq.mp hsame)

theorem stream_unborn {capability : String} (h : Lawful (past ++ during))
    (hid : (published (past ++ during)).length < id) :
    (stream capability past during).filter (·.reference.id == id) = [] := by
  rw [List.filter_eq_nil_iff]
  intro event hmem hsame
  obtain ⟨r, hr, hrid⟩ := published_of_mem_stream h hmem
  have hle := h.id_le hr
  rw [hrid, beq_iff_eq.mp hsame] at hle
  omega

/-! ## How a story goes on -/

section Stories

variable {capability : String}

theorem story_other (hpublished : r.id ∉ (published [deal]).map (·.id))
    (hrenewals : renewals [deal] r.id = []) (hwithdrawn : withdrawn [deal] r.id = false) :
    story capability past (during ++ [deal]) r = story capability past during r := by
  simp [story, latest, hpublished, hrenewals, hwithdrawn]

theorem story_published (h : Lawful (past ++ during))
    (hid : (published (past ++ during)).length < r.id) (origin : String) (properties : Dict Json)
    (object : ServiceObject) :
    story capability past (during ++ [.publish origin properties object r]) r =
      if r.hasCapability capability then [.registered r] else [] := by
  have hnew := h.unknown hid
  rw [withdrawn_append, renewals_append, Bool.or_eq_false_iff, List.append_eq_nil_iff] at hnew
  obtain ⟨⟨hbefore, hduring⟩, -, hrenewals⟩ := hnew
  have hpublished : published [.publish origin properties object r] = [r] := rfl
  have hnone : renewals [.publish origin properties object r] r.id = [] := rfl
  have hstays : withdrawn [.publish origin properties object r] r.id = false := rfl
  simp [story, hbefore, hduring, hrenewals, hpublished, hnone, hstays]

theorem story_unborn (h : Lawful (past ++ during))
    (hid : (published (past ++ during)).length < r.id) : story capability past during r = [] := by
  have hnew := h.unknown hid
  rw [withdrawn_append, renewals_append, Bool.or_eq_false_iff, List.append_eq_nil_iff] at hnew
  have hunborn : r.id ∉ (published during).map (·.id) := by
    intro hmem
    obtain ⟨other, hother, hsame⟩ := List.mem_map.mp hmem
    have hle := h.id_le (r := other) (by rw [published_append]; exact List.mem_append_right _ hother)
    omega
  simp [story, hunborn, hnew.1.2, hnew.2.2]

theorem story_renewed (hliving : Living (past ++ during) r) (properties : Dict Json)
    (now : Reference) :
    story capability past (during ++ [.modify r.id properties (some now)]) r =
      story capability past during r ++
        if r.hasCapability capability then [.modified (r.renewed properties)] else [] := by
  have hstays := hliving.2
  rw [withdrawn_append, Bool.or_eq_false_iff] at hstays
  have hrenewals : renewals [.modify r.id properties (some now)] r.id = [properties] := by
    simp [renewals]
  have hpublished : published [.modify r.id properties (some now)] = [] := rfl
  have hnone : withdrawn [.modify r.id properties (some now)] r.id = false := rfl
  by_cases hcapable : r.hasCapability capability = true
  all_goals simp [story, hcapable, hstays, hrenewals, hpublished, hnone]

theorem story_withdrawn (hliving : Living (past ++ during) r) {reference : Reference}
    (hid : reference.id = r.id) :
    story capability past (during ++ [.withdraw reference true]) r =
      story capability past during r ++
        if r.hasCapability capability then [.unregistering (latest (past ++ during) r)]
        else [] := by
  have hstays := hliving.2
  rw [withdrawn_append, Bool.or_eq_false_iff] at hstays
  have hgone : withdrawn [.withdraw reference true] r.id = true := by simp [withdrawn, hid]
  have hpublished : published [.withdraw reference true] = [] := rfl
  have hnone : renewals [.withdraw reference true] r.id = [] := rfl
  have hlatest : latest (past ++ (during ++ [.withdraw reference true])) r =
      latest (past ++ during) r := by
    rw [← List.append_assoc]
    exact latest_append hnone
  by_cases hcapable : r.hasCapability capability = true
  all_goals simp [story, hcapable, hstays, hgone, hpublished, hnone, hlatest]

end Stories

/-- Of each service everything is told in order: that it is published, each change of its properties
and that it goes. -/
theorem stream_story (capability : String) (h : Lawful (past ++ during))
    (hr : r ∈ published (past ++ during)) :
    (stream capability past during).filter (·.reference.id == r.id) =
      story capability past during r := by
  induction during using List.reverseRecOn with
  | nil => simp [stream, story, published, renewals, withdrawn]
  | append_singleton during deal ih =>
    rw [← List.append_assoc] at h hr
    have hlaw := h.of_append
    rw [published_append, List.mem_append] at hr
    rw [stream_append, List.filter_append]
    -- What is of no concern to the service adds neither to the stream nor to the story.
    have hother (hold : r ∈ published (past ++ during))
        (hevent : ∀ event, event? (past ++ during) deal = some event → event.reference.id ≠ r.id)
        (hpublished : r.id ∉ (published [deal]).map (·.id))
        (hrenewals : renewals [deal] r.id = []) (hwithdrawn : withdrawn [deal] r.id = false) :
        (stream capability past during).filter (·.reference.id == r.id) ++
            (stream capability (past ++ during) [deal]).filter (·.reference.id == r.id) =
          story capability past (during ++ [deal]) r := by
      rw [story_other hpublished hrenewals hwithdrawn, ih hlaw hold, stream_other hevent,
        List.append_nil]
    cases h.last with
    | publish origin properties object =>
      rcases hr with hr | hr
      · have hne : (published (past ++ during)).length + 1 ≠ r.id := by
          have hle := hlaw.id_le hr
          omega
        refine hother hr ?_ (fun hmem => hne (List.mem_singleton.mp hmem).symm) rfl rfl
        rintro _ ⟨⟩
        exact hne
      · obtain rfl := List.mem_singleton.mp hr
        have hnew := Nat.lt_succ_self (published (past ++ during)).length
        rw [stream_single (by rfl) (by rfl), stream_unborn hlaw (by exact hnew),
          story_published hlaw (by exact hnew)]
        rfl
    | @modify r₀ hliving properties =>
      rcases hr with hr | ⟨⟨⟩⟩
      by_cases hid : r₀.id = r.id
      · obtain rfl := hlaw.unique hliving.1 hr hid
        rw [ih hlaw hr, stream_single (by rfl) (by rfl), story_renewed hliving]
        show _ ++ (if (r₀.renewed properties).hasCapability capability = true then _ else _) = _
        rw [Reference.hasCapability_renewed (hlaw.classed hr)]
      · refine hother hr ?_ List.not_mem_nil (by simp [renewals, hid]) rfl
        rintro _ ⟨⟩
        exact hid
    | @withdraw r₀ reference hliving hsame =>
      rcases hr with hr | ⟨⟨⟩⟩
      have hevent := event?_withdraw hlaw hliving hsame
      by_cases hid : r₀.id = r.id
      · obtain rfl := hlaw.unique hliving.1 hr hid
        rw [ih hlaw hr, stream_single hevent (latest_id _ _), story_withdrawn hliving hsame]
        show _ ++ (if (latest (past ++ during) r₀).hasCapability capability = true then _ else _) = _
        rw [hlaw.hasCapability_latest hr]
      · refine hother hr ?_ List.not_mem_nil rfl (by simp [withdrawn, hsame, hid])
        rw [hevent]
        rintro _ ⟨⟩
        rw [DirectoryEvent.reference, latest_id]
        exact hid
    | miss | gone | subscribe | refuse | unsubscribe =>
      rcases hr with hr | ⟨⟨⟩⟩
      refine hother hr ?_ List.not_mem_nil rfl rfl
      rintro _ ⟨⟩

/-! ## What is told to one subscriber -/

theorem resubscribed_subscribe {filter capability : String}
    (hfilter : parseFilter filter = .ok capability) (subscriptions : List Subscription)
    (name : String) (n : Nat) :
    resubscribed subscriptions (.subscribe filter name (.ok n)) =
      subscriptions ++ [⟨n, capability, .observer name⟩] := by
  simp only [resubscribed, hfilter]

theorem subscription_le {s : Subscription} (h : Lawful log) (hs : s ∈ subscriptions log) :
    s.id ≤ grants log := by
  induction log using List.reverseRecOn with
  | nil => simp [subscriptions] at hs
  | append_singleton log deal ih =>
    have hold (hs : s ∈ subscriptions log) : s.id ≤ grants (log ++ [deal]) := by
      rw [grants_append]
      exact Nat.le_add_right_of_le (ih h.of_append hs)
    rw [subscriptions_snoc] at hs
    cases h.last with
    | subscribe hfilter name =>
      rw [resubscribed_subscribe hfilter, List.mem_append] at hs
      rcases hs with hs | hs
      · exact hold hs
      · rw [List.mem_singleton.mp hs, grants_append]
        exact Nat.le_refl _
    | unsubscribe => exact hold (List.mem_filter.mp hs).1
    | publish | modify | miss | withdraw | gone | refuse => exact hold hs

section Subscribers

variable {n : Nat} {s : Subscription}

theorem subscriptions_filter (hdeal : Follows past deal) (hn : n ≤ grants past) :
    (subscriptions (past ++ [deal])).filter (·.id == n) =
      if deal.ends n then [] else (subscriptions past).filter (·.id == n) := by
  rw [subscriptions_snoc]
  cases hdeal with
  | subscribe hfilter name =>
    have hother : (grants past + 1 == n) = false := by
      rw [beq_eq_false_iff_ne]
      omega
    rw [resubscribed_subscribe hfilter, List.filter_append, List.filter_singleton, hother]
    exact List.append_nil _
  | unsubscribe m =>
    show ((subscriptions past).filter (·.id != m)).filter (·.id == n) = _
    rw [List.filter_filter]
    by_cases hm : m = n
    · simp [Deal.ends, hm]
    · have hends : (Deal.unsubscribe m).ends n = false := by simp [Deal.ends, hm]
      rw [hends, if_neg Bool.false_ne_true]
      refine List.filter_congr fun s _ => ?_
      by_cases hs : s.id = n
      · simp [hs, Ne.symm hm]
      · simp [hs]
  | publish | modify | miss | withdraw | gone | refuse => rfl

theorem told_none (hnone : (subscriptions past).filter (·.id == n) = []) :
    (told past deal).filter (·.1.id == n) = [] := by
  rw [List.filter_eq_nil_iff] at hnone ⊢
  intro p hmem
  unfold told at hmem
  split at hmem
  · obtain ⟨s, hs, rfl⟩ := List.mem_map.mp hmem
    exact hnone s (List.mem_filter.mp hs).1
  · cases hmem

theorem told_one (hone : (subscriptions past).filter (·.id == n) = [s]) :
    (told past deal).filter (·.1.id == n) =
      (((event? past deal).filter (·.reference.hasCapability s.capability)).toList).map (s, ·) := by
  unfold told
  cases event? past deal with
  | none => rfl
  | some event =>
    have hcomm : (((subscriptions past).filter (event.reference.hasCapability ·.capability)).map
        (·, event)).filter (·.1.id == n) =
        (((subscriptions past).filter (·.id == n)).filter
          (event.reference.hasCapability ·.capability)).map (·, event) := by
      rw [List.filter_map, List.filter_comm]
      rfl
    dsimp only
    rw [hcomm, hone, List.filter_singleton, Option.filter_some]
    cases event.reference.hasCapability s.capability <;> rfl

theorem deliveries_over (h : Lawful (past ++ log)) (hn : n ≤ grants past)
    (hnone : (subscriptions past).filter (·.id == n) = []) :
    (deliveries past log).filter (·.1.id == n) = [] := by
  induction log generalizing past with
  | nil => rfl
  | cons deal rest ih =>
    have hdeal := h past deal rest rfl
    rw [List.append_cons] at h
    rw [deliveries, List.filter_append, told_none hnone, List.nil_append]
    refine ih h ?_ ?_
    · rw [grants_append]
      exact Nat.le_add_right_of_le hn
    · rw [subscriptions_filter hdeal hn, hnone]
      split <;> rfl

theorem deliveries_one (h : Lawful (past ++ log)) (hn : n ≤ grants past)
    (hone : (subscriptions past).filter (·.id == n) = [s]) :
    (deliveries past log).filter (·.1.id == n) =
      (stream s.capability past (log.takeWhile fun deal => !deal.ends n)).map (s, ·) := by
  induction log generalizing past with
  | nil => rfl
  | cons deal rest ih =>
    have hdeal := h past deal rest rfl
    have hnext := subscriptions_filter hdeal hn
    have hn' : n ≤ grants (past ++ [deal]) := by
      rw [grants_append]
      exact Nat.le_add_right_of_le hn
    rw [List.append_cons] at h
    rw [deliveries, List.filter_append, List.takeWhile_cons]
    cases hends : deal.ends n with
    | true =>
      rw [hends, if_pos rfl] at hnext
      have hquiet : event? past deal = none := by
        cases deal with
        | unsubscribe => rfl
        | publish | modify | withdraw | subscribe => cases hends
      rw [deliveries_over h hn' hnext, told_one hone, hquiet]
      rfl
    | false =>
      rw [hends, if_neg Bool.false_ne_true, hone] at hnext
      rw [told_one hone, ih h hn' hnext]
      show _ = (stream _ past (deal :: _)).map _
      rw [stream, List.map_append]

theorem deliveries_early (h : Lawful log) (hn : grants log < n) :
    (deliveries [] log).filter (·.1.id == n) = [] := by
  induction log using List.reverseRecOn with
  | nil => rfl
  | append_singleton log deal ih =>
    have hearlier : grants log < n := by
      rw [grants_append] at hn
      omega
    have hnone : (subscriptions log).filter (·.id == n) = [] := by
      rw [List.filter_eq_nil_iff]
      intro s hs hsame
      have hle := subscription_le h.of_append hs
      rw [beq_iff_eq.mp hsame] at hle
      omega
    rw [deliveries_append, List.filter_append, ih h.of_append hearlier]
    show [] ++ (told log deal ++ []).filter _ = []
    rw [List.append_nil, told_none hnone]
    rfl

/-- What is told to a subscription in all. -/
theorem deliveries_subscription {filter capability name : String}
    (h : Lawful (before ++ .subscribe filter name (.ok n) :: rest))
    (hfilter : parseFilter filter = .ok capability) :
    (deliveries [] (before ++ .subscribe filter name (.ok n) :: rest)).filter (·.1.id == n) =
      (stream capability (before ++ [.subscribe filter name (.ok n)])
        (rest.takeWhile fun deal => !deal.ends n)).map (⟨n, capability, .observer name⟩, ·) := by
  have hn : n = grants before + 1 := by
    cases h before _ rest rfl
    rfl
  have hbefore := h.of_append
  rw [List.append_cons] at h
  rw [List.append_cons, deliveries_append, deliveries_append, List.filter_append,
    List.filter_append, deliveries_early hbefore (by omega)]
  have hnone : (subscriptions before).filter (·.id == n) = [] := by
    rw [List.filter_eq_nil_iff]
    intro s hs hsame
    have hle := subscription_le hbefore hs
    rw [beq_iff_eq.mp hsame] at hle
    omega
  have hone : (subscriptions (before ++ [.subscribe filter name (.ok n)])).filter (·.id == n) =
      [⟨n, capability, .observer name⟩] := by
    rw [subscriptions_snoc, resubscribed_subscribe hfilter, List.filter_append, hnone,
      List.filter_singleton]
    simp
  have hgranted : n ≤ grants (before ++ [.subscribe filter name (.ok n)]) := by
    rw [grants_append, hn]
    exact Nat.le_refl _
  exact deliveries_one h hgranted hone

/-- A subscription is told of each service in order, and of those only that it asks for. -/
theorem subscription_told {filter name : String}
    (h : Lawful (before ++ .subscribe filter name (.ok n) :: rest)) :
    let log := before ++ .subscribe filter name (.ok n) :: rest
    ∃ (capability : String) (events : List DirectoryEvent), parseFilter filter = .ok capability ∧
      (deliveries [] log).filter (·.1.id == n) =
        events.map (⟨n, capability, .observer name⟩, ·) ∧
      (∀ event ∈ events, ∃ r ∈ published log, r.id = event.reference.id) ∧
      ∀ r ∈ published log, events.filter (·.reference.id == r.id) =
        story capability before (rest.takeWhile fun deal => !deal.ends n) r := by
  intro log
  obtain ⟨capability, hfilter⟩ : ∃ capability, parseFilter filter = .ok capability := by
    cases h before _ rest rfl with
    | subscribe hfilter => exact ⟨_, hfilter⟩
  let past := before ++ [Deal.subscribe filter name (.ok n)]
  let during := rest.takeWhile fun deal => !deal.ends n
  let later := rest.dropWhile fun deal => !deal.ends n
  have hlog : log = (past ++ during) ++ later := by
    rw [List.append_assoc, List.takeWhile_append_dropWhile, List.append_assoc, List.singleton_append]
  have hpast (r : Reference) : story capability past during r = story capability before during r := by
    have hwithdrawn : withdrawn past r.id = withdrawn before r.id := by simp [past, withdrawn]
    have hlatest : latest (past ++ during) r = latest (before ++ during) r := by
      simp [latest, past, renewals]
    rw [story, story, hwithdrawn, hlatest]
  have hlaw : Lawful ((past ++ during) ++ later) := hlog ▸ h
  refine ⟨capability, stream capability past during, hfilter,
    deliveries_subscription h hfilter, fun event hmem => ?_, fun r hr => ?_⟩
  · obtain ⟨r, hr, hid⟩ := published_of_mem_stream hlaw.of_append hmem
    exact ⟨r, by rw [hlog, published_append]; exact List.mem_append_left _ hr, hid⟩
  · rw [← hpast]
    rw [hlog, published_append, List.mem_append] at hr
    rcases hr with hr | hr
    · exact stream_story capability hlaw.of_append hr
    · have hid := hlaw.later hr
      rw [stream_unborn hlaw.of_append hid, story_unborn hlaw.of_append hid]

end Subscribers

end PluginConsole.Log
