import PluginConsole.Proofs.Site.Outcome

/-!
# Entries and the services behind them

An entry of a service goes when its service is withdrawn, if the registry is told. It is told
of a service as it is then, so it must not have lost the console's capability meanwhile.
-/

namespace PluginConsole.Site

open Act Registry Lifecycle

variable {π : Type} {code : PluginCode (Site π)} {w w' : World (Site π)}
variable {id : EntryId} {service : Nat}

theorem serves_alike (h : Alike w w') : Serves id service w' ↔ Serves id service w := by
  unfold Serves
  rw [h.snapshot, h.ownedBy]

/-- Services come to the registry from the directory only. -/
def Action.FromDirectory : Action π → Prop
  | .registry (.addService _) | .registry (.hear _) => False
  | _ => True

/-- What is known of the services in the table, published or not. -/
structure Rooted (w : World (Site π)) : Prop where
  sequential : w.outside.directory.Sequential
  single : Single w
  known : ∀ id service, Serves id service w → service ≤ w.outside.directory.lastService
  shut : isOpen w = false → ∀ id service, ¬ Serves id service w

theorem Rooted.alike (h : Alike w w') (hrooted : Rooted w) : Rooted w' := by
  have hids : w'.outside.directory.services.map (·.reference.id) =
      w.outside.directory.services.map (·.reference.id) := by
    have hreferences := congrArg (List.map (·.id)) h.shape.references
    rw [List.map_map, List.map_map] at hreferences
    exact hreferences
  refine ⟨⟨?_, ?_⟩, ?_, ?_, ?_⟩
  · intro s hs
    have hid : s.reference.id ∈ w'.outside.directory.services.map (·.reference.id) :=
      List.mem_map_of_mem hs
    rw [hids] at hid
    obtain ⟨old, hold, heq⟩ := List.mem_map.mp hid
    rw [← heq, h.shape.lastService]
    exact hrooted.sequential.numbered old hold
  · rw [hids]
    exact hrooted.sequential.nodup
  · intro a b service ha hb
    exact hrooted.single a b service ((serves_alike h).mp ha) ((serves_alike h).mp hb)
  · intro id service hserves
    rw [h.shape.lastService]
    exact hrooted.known id service ((serves_alike h).mp hserves)
  · intro hclosed id service hserves
    unfold isOpen at hclosed
    rw [h.subscription] at hclosed
    exact hrooted.shut hclosed id service ((serves_alike h).mp hserves)

theorem rooted_of_fewer (h : Rooted w) (hturn : w.outside.directory.Turn w'.outside.directory)
    (hserves : ∀ id service, Serves id service w' → Serves id service w)
    (hopen : isOpen w' = isOpen w) : Rooted w' where
  sequential := hturn.sequential h.sequential
  single a b service ha hb := h.single a b service (hserves a service ha) (hserves b service hb)
  known id service hserved :=
    (h.known id service (hserves id service hserved)).trans hturn.lastService_le
  shut hclosed id service hserved := by
    rw [hopen] at hclosed
    exact h.shut hclosed id service (hserves id service hserved)

theorem rooted_of_none (hsequential : w.outside.directory.Sequential)
    (hnone : ∀ id service, ¬ Serves id service w) : Rooted w where
  sequential := hsequential
  single a _ service ha := absurd ha (hnone a service)
  known id service hserved := absurd hserved (hnone id service)
  shut _ := hnone

theorem rooted_enlistedAll {references : List Reference} (hranged : Ranged w) (h : Rooted w)
    (hopen : isOpen w = true) (hnodup : (references.map (·.id)).Nodup)
    (hfresh : ∀ r ∈ references, ∀ id, ¬ Serves id r.id w)
    (hknown : ∀ r ∈ references, r.id ≤ w.outside.directory.lastService) :
    Rooted (enlistedAll references w) := by
  have hsame := tableOnly_enlistedAll references w
  obtain ⟨hsingle, hserves⟩ := serves_enlistedAll hranged h.single hnodup hfresh
  refine ⟨?_, hsingle, fun id service hserved => ?_, fun hclosed => ?_⟩
  · rw [hsame.outside]
    exact h.sequential
  · rw [hsame.outside]
    rcases hserves id service hserved with hold | ⟨r, hr, rfl⟩
    · exact h.known id service hold
    · exact hknown r hr
  · rw [hsame.isOpen, hopen] at hclosed
    cases hclosed

theorem rooted_published (hready : Ready w) (h : Rooted w) (origin : String)
    (properties : Dict Json) (object : ServiceObject) :
    Rooted (published origin properties object w) := by
  have hturn := Directory.turn_add origin properties object w.outside.directory
  have hadded : Rooted (withDirectory (w.outside.directory.add origin properties object).2 w) :=
    rooted_of_fewer h hturn (fun _ _ hserves => hserves) rfl
  unfold published
  dsimp only
  split
  · rename_i hhears
    have hopen : isOpen w = true := (Bool.and_eq_true _ _ ▸ hhears).1
    show Rooted (enlistedAll [_] _)
    refine rooted_enlistedAll hready.ranged hadded hopen (List.nodup_singleton _) ?_ ?_
    · intro r hr id hserves
      rw [List.mem_singleton.mp hr] at hserves
      have hknown := h.known id _ hserves
      exact Nat.not_succ_le_self _ hknown
    · intro r hr
      rw [List.mem_singleton.mp hr]
      exact Nat.le_refl _
  · exact hadded

theorem mem_capable {d : Directory} {r : Reference} (h : r ∈ capable d) :
    (∃ s ∈ d.services, s.reference = r) ∧ r.hasCapability consoleCapability = true := by
  obtain ⟨hmem, hcapable⟩ := List.mem_filter.mp h
  exact ⟨List.mem_map.mp hmem, hcapable⟩

theorem nodup_capable {d : Directory} (h : d.Sequential) : ((capable d).map (·.id)).Nodup := by
  have hids := h.nodup
  rw [← Function.comp_def (fun r : Reference => r.id), ← List.map_map] at hids
  exact hids.sublist (List.filter_sublist.map _)

theorem serves_opened (hready : Ready w) (h : Rooted w) (hclosed : isOpen w = false) :
    Rooted (enlistedAll (capable w.outside.directory) (subscribed w)) ∧
      ∀ id service, Serves id service (enlistedAll (capable w.outside.directory) (subscribed w)) →
        ∃ r ∈ capable w.outside.directory, r.id = service := by
  have hnone : ∀ id service, ¬ Serves id service (subscribed w) := h.shut hclosed
  have hturn : w.outside.directory.Turn (subscribed w).outside.directory := .watch _ _ _
  have hrooted := rooted_of_none (hturn.sequential h.sequential) hnone
  have hranged : Ranged (subscribed w) := hready.ranged
  have hfresh : ∀ r ∈ capable w.outside.directory, ∀ id, ¬ Serves id r.id (subscribed w) :=
    fun r _ id => hnone id r.id
  have hnodup := nodup_capable h.sequential
  refine ⟨rooted_enlistedAll hranged hrooted rfl hnodup hfresh ?_, ?_⟩
  · intro r hr
    obtain ⟨⟨s, hs, rfl⟩, -⟩ := mem_capable hr
    exact h.sequential.numbered s hs
  · intro id service hserves
    obtain ⟨-, hall⟩ := serves_enlistedAll hranged hrooted.single hnodup hfresh
    exact (hall id service hserves).resolve_left (hnone id service)

theorem serves_closed : ¬ Serves id service (closed w) :=
  fun hserves => absurd hserves.1 List.not_mem_nil

theorem serves_modified {number : Nat} {properties : Dict Json} :
    Serves id service (modified number properties w) ↔ Serves id service w := by
  unfold modified
  split
  · exact Iff.rfl
  · exact Iff.rfl

theorem isOpen_modified (number : Nat) (properties : Dict Json) (w : World (Site π)) :
    isOpen (modified number properties w) = isOpen w := by
  unfold modified
  split
  · rfl
  · rfl

theorem isOpen_withdrawn (number : Nat) (w : World (Site π)) :
    isOpen (withdrawn number w) = isOpen w := by
  unfold withdrawn
  split
  · rfl
  · rename_i now _
    show isOpen (if hears now w then dismissed now w else w) = isOpen w
    split
    · exact (tableOnly_dismissed now w).isOpen
    · rfl

theorem serves_withdrawn (hready : Ready w) (h : Rooted w) {number : Nat}
    (hserves : Serves id service (withdrawn number w)) :
    Serves id service w ∧ ∀ now, w.outside.directory.reference? number = some now →
      hears now w = true → service ≠ number := by
  unfold withdrawn at hserves
  cases hfound : w.outside.directory.reference? number with
  | none =>
    rw [hfound] at hserves
    exact ⟨hserves, fun _ hnow => by cases hnow⟩
  | some now =>
    rw [hfound] at hserves
    have hserves : Serves id service (if hears now w then dismissed now w else w) := hserves
    split at hserves
    · have hgone := serves_dismissed hready.toFiled h.single hserves
      refine ⟨hgone.1, fun other hother _ => ?_⟩
      rw [Directory.reference?_id hfound] at hgone
      exact hgone.2
    · rename_i hdeaf
      refine ⟨hserves, fun other hother hhears => ?_⟩
      cases hother
      exact absurd hhears hdeaf

theorem rooted_outcome (hready : Ready w) (h : Rooted w) {action : Action π}
    (hfrom : action.FromDirectory) : Rooted (outcome code action w) := by
  have hturn : w.outside.directory.Turn (outcome code action w).outside.directory :=
    turn_outcome action w
  cases action with
  | registry op =>
    cases op with
    | openUp =>
      show Rooted (opened w)
      unfold opened
      split
      · exact h
      · rename_i hclosed
        exact (serves_opened hready h (by simpa using hclosed)).1
    | close => exact rooted_of_none (hturn.sequential h.sequential) fun _ _ => serves_closed
    | addService r => exact hfrom.elim
    | hear event => exact hfrom.elim
    | removeService r =>
      refine rooted_of_fewer h hturn (fun id service hserves => ?_) ?_
      · exact (serves_dismissed hready.toFiled h.single hserves).1
      · exact (tableOnly_dismissed r w).isOpen
    | addDirect factory label =>
      exact rooted_of_fewer h hturn (fun _ _ => serves_direct hready.ranged) rfl
    | unregister label => exact rooted_of_fewer h hturn (fun _ _ => serves_erased) rfl
    | lookup | lookupDefault | setDefaultLabel | labelMap | describe | setContext => exact h
  | publish origin properties object => exact rooted_published hready h origin properties object
  | modify id properties =>
    refine rooted_of_fewer h hturn (fun _ _ hserves => ?_) (isOpen_modified id properties w)
    exact serves_modified.mp hserves
  | withdraw reference =>
    refine rooted_of_fewer h hturn (fun id service hserves => ?_) ?_
    · exact (serves_withdrawn hready h hserves).1
    · exact isOpen_withdrawn reference.id w
  | observe name filter => exact rooted_of_fewer h hturn (fun _ _ hserves => hserves) rfl
  | setDisabled factories => exact h

/-! ## Services behind their entries -/

def Backed (w : World (Site π)) : Prop :=
  ∀ id ∈ snapshot w, (w.entry id).kind = .directory →
    (w.outside.directory.reference? (w.entry id).sequenceId).isSome = true

/-- Every service that has an entry is published, and its reference is admitted. -/
def BackedBy (admits : Reference → Prop) (w : World (Site π)) : Prop :=
  ∀ id service, Serves id service w →
    ∃ r, w.outside.directory.reference? service = some r ∧ admits r

/-- A service that is withdrawn has an entry, and its reference names the console's
capability no more. -/
def LeavesBehind (w : World (Site π)) : Action π → Prop
  | .withdraw reference =>
    (∃ now, w.outside.directory.reference? reference.id = some now ∧
      now.hasCapability consoleCapability = false) ∧ ∃ id, Serves id reference.id w
  | _ => False

theorem BackedBy.backed {admits : Reference → Prop} (h : BackedBy admits w) : Backed w := by
  intro id hmem hkind
  have howned : (w.entry id).ownedBy (w.entry id).sequenceId = true := by
    unfold Entry.ownedBy
    rw [hkind]
    simp
  obtain ⟨r, hr, -⟩ := h id _ ⟨hmem, howned⟩
  rw [hr]
  rfl

theorem backed_iff : Backed w ↔ BackedBy (fun _ => True) w := by
  refine ⟨fun h id service hserves => ?_, BackedBy.backed⟩
  have howned := hserves.2
  unfold Entry.ownedBy at howned
  rw [Bool.and_eq_true, beq_iff_eq, beq_iff_eq] at howned
  have hsome := h id hserves.1 howned.1
  rw [howned.2] at hsome
  obtain ⟨r, hr⟩ := Option.isSome_iff_exists.mp hsome
  exact ⟨r, hr, trivial⟩

theorem BackedBy.alike {admits : Reference → Prop} (h : Alike w w') (hbacked : BackedBy admits w) :
    BackedBy admits w' := by
  intro id service hserves
  rw [h.shape.reference?]
  exact hbacked id service ((serves_alike h).mp hserves)

theorem backedBy_of_fewer {admits : Reference → Prop} (h : BackedBy admits w)
    (hserves : ∀ id service, Serves id service w' → Serves id service w)
    (hfound : ∀ id service, Serves id service w' →
      w'.outside.directory.reference? service = w.outside.directory.reference? service) :
    BackedBy admits w' := by
  intro id service hserved
  rw [hfound id service hserved]
  exact h id service (hserves id service hserved)

section Backed

variable (hready : Ready w) (hrooted : Rooted w) {admits : Reference → Prop}
include hready hrooted

theorem backedBy_published (hcapable : ∀ r, r.hasCapability consoleCapability = true → admits r)
    (h : BackedBy admits w) (origin : String) (properties : Dict Json) (object : ServiceObject) :
    BackedBy admits (published origin properties object w) := by
  have hturn := Directory.turn_add origin properties object w.outside.directory
  have hold : ∀ id service, Serves id service w →
      (w.outside.directory.add origin properties object).2.reference? service =
        w.outside.directory.reference? service :=
    fun id service hserves => Directory.reference?_add _ _ _ _ (hrooted.known id service hserves)
  unfold published
  dsimp only
  split
  · rename_i hhears
    intro id service hserves
    rw [(tableOnly_enlisted _ _).outside]
    show ∃ r, (w.outside.directory.add origin properties object).2.reference? service = some r ∧
      admits r
    have hranged : Ranged (withDirectory
        (w.outside.directory.add origin properties object).2 w) := hready.ranged
    rcases serves_enlisted hranged hserves with hserves | ⟨-, rfl⟩
    · rw [hold id service hserves]
      exact h id service hserves
    · refine ⟨_, Directory.reference?_of_mem (hturn.sequential hrooted.sequential)
        (List.mem_append_right _ (List.mem_singleton_self _)), hcapable _ ?_⟩
      exact (Bool.and_eq_true _ _ ▸ hhears).2
  · exact backedBy_of_fewer h (fun _ _ hserves => hserves) hold

omit hready hrooted in
theorem backedBy_modified (h : BackedBy admits w) {number : Nat} {properties : Dict Json}
    (hmodify : ∀ old, admits old →
      admits (Reference.make number old.origin (Directory.keepCapability old properties))) :
    BackedBy admits (modified number properties w) := by
  intro id service hserves
  obtain ⟨old, hold, hadmits⟩ := h id service (serves_modified.mp hserves)
  unfold modified
  cases hreplace : w.outside.directory.replace number properties with
  | none => exact ⟨old, hold, hadmits⟩
  | some replaced =>
    obtain ⟨r, d⟩ := replaced
    show ∃ r, d.reference? service = some r ∧ admits r
    rw [Directory.reference?_replace hreplace]
    split
    · rename_i hservice
      obtain ⟨now, hnow, rfl⟩ := Directory.reference_of_replace hreplace
      rw [hservice, hnow] at hold
      cases hold
      exact ⟨_, rfl, hmodify old hadmits⟩
    · exact ⟨old, hold, hadmits⟩

/-- An entry survives its service only if the registry did not hear of the withdrawal. -/
theorem leavesBehind_of_serves {reference now : Reference}
    (hfound : w.outside.directory.reference? reference.id = some now)
    (hserves : Serves id reference.id (withdrawn reference.id w)) :
    LeavesBehind w (.withdraw reference) := by
  obtain ⟨hbefore, hgone⟩ := serves_withdrawn hready hrooted hserves
  -- The registry is open, as it has an entry, so it hears of all that has the capability.
  have hopen : isOpen w = true := by
    by_contra hclosed
    exact hrooted.shut (by simpa using hclosed) id _ hbefore
  refine ⟨⟨now, hfound, ?_⟩, id, hbefore⟩
  by_contra hcapable
  refine hgone now hfound ?_ rfl
  unfold hears
  rw [hopen, Bool.true_and]
  simpa using hcapable

theorem backedBy_withdrawn (h : BackedBy admits w) {reference : Reference}
    (hleaves : ¬ LeavesBehind w (.withdraw reference)) :
    BackedBy admits (withdrawn reference.id w) := by
  refine backedBy_of_fewer h (fun _ _ hserves => ?_) fun id service hserves => ?_
  · exact (serves_withdrawn hready hrooted hserves).1
  cases hfound : w.outside.directory.reference? reference.id with
  | none =>
    unfold withdrawn
    rw [hfound]
  | some now =>
    have hother : service ≠ reference.id := by
      rintro rfl
      exact hleaves (leavesBehind_of_serves hready hrooted hfound hserves)
    unfold withdrawn
    rw [hfound]
    show (w.outside.directory.remove reference.id).reference? service = _
    rw [Directory.reference?_remove, if_neg hother]

theorem backedBy_opened (hcapable : ∀ r, r.hasCapability consoleCapability = true → admits r)
    (h : BackedBy admits w) : BackedBy admits (opened w) := by
  unfold opened
  split
  · exact h
  rename_i hclosed
  intro id service hserves
  obtain ⟨r, hr, rfl⟩ := (serves_opened hready hrooted (by simpa using hclosed)).2 id service hserves
  obtain ⟨⟨s, hs, rfl⟩, hconsole⟩ := mem_capable hr
  refine ⟨s.reference, ?_, hcapable _ hconsole⟩
  have hturn : w.outside.directory.Turn (subscribed w).outside.directory := .watch _ _ _
  rw [(tableOnly_enlistedAll _ _).outside]
  exact Directory.reference?_of_mem (hturn.sequential hrooted.sequential) hs

theorem backedBy_outcome (hcapable : ∀ r, r.hasCapability consoleCapability = true → admits r)
    (h : BackedBy admits w) {action : Action π} (hfrom : action.FromDirectory)
    (hmodify : ∀ id properties, action = .modify id properties → ∀ old, admits old →
      admits (Reference.make id old.origin (Directory.keepCapability old properties)))
    (hleaves : ¬ LeavesBehind w action) : BackedBy admits (outcome code action w) := by
  cases action with
  | registry op =>
    cases op with
    | openUp => exact backedBy_opened hready hrooted hcapable h
    | close => exact fun id service hserves => absurd hserves serves_closed
    | addService r => exact hfrom.elim
    | hear event => exact hfrom.elim
    | removeService r =>
      refine backedBy_of_fewer h (fun id service hserves => ?_) fun _ _ _ => ?_
      · exact (serves_dismissed hready.toFiled hrooted.single hserves).1
      · show (dismissed r w).outside.directory.reference? _ = _
        rw [(tableOnly_dismissed r w).outside]
    | addDirect factory label =>
      exact backedBy_of_fewer h (fun _ _ => serves_direct hready.ranged) fun _ _ _ => rfl
    | unregister label => exact backedBy_of_fewer h (fun _ _ => serves_erased) fun _ _ _ => rfl
    | lookup | lookupDefault | setDefaultLabel | labelMap | describe | setContext => exact h
  | publish origin properties object =>
    exact backedBy_published hready hrooted hcapable h origin properties object
  | modify id properties => exact backedBy_modified h (hmodify id properties rfl)
  | withdraw reference => exact backedBy_withdrawn hready hrooted h hleaves
  | observe name filter =>
    refine backedBy_of_fewer h (fun _ _ hserves => hserves) fun _ service _ => ?_
    show (observe name filter w.outside).2.directory.reference? service = _
    unfold Directory.reference? Directory.find?
    rw [services_observe]
  | setDisabled factories => exact h

end Backed

theorem serves_of_leavesBehind {reference : Reference}
    (h : LeavesBehind w (.withdraw reference)) :
    ∃ id, Serves id reference.id (withdrawn reference.id w) := by
  obtain ⟨⟨now, hfound, hcapable⟩, id, hserves⟩ := h
  have hdeaf : hears now w = false := by
    unfold hears
    rw [hcapable, Bool.and_false]
  refine ⟨id, ?_⟩
  unfold withdrawn
  rw [hfound]
  show Serves id reference.id (if hears now w then dismissed now w else w)
  rw [hdeaf]
  exact hserves

/-- Once a service is withdrawn, it has no entry, but for the one bad case. -/
theorem serves_withdrawn_iff (hready : Ready w) (hrooted : Rooted w) (hbacked : Backed w)
    (reference : Reference) :
    (∃ id, Serves id reference.id (withdrawn reference.id w)) ↔
      LeavesBehind w (.withdraw reference) := by
  refine ⟨fun ⟨id, hserves⟩ => ?_, serves_of_leavesBehind⟩
  have hbefore := (serves_withdrawn hready hrooted hserves).1
  obtain ⟨now, hfound, -⟩ := backed_iff.mp hbacked id reference.id hbefore
  exact leavesBehind_of_serves hready hrooted hfound hserves

theorem not_backed_outcome {action : Action π} (hleaves : LeavesBehind w action) :
    ¬ Backed (outcome code action w) := by
  cases action with
  | withdraw reference =>
    obtain ⟨now, hfound, -⟩ := hleaves.1
    obtain ⟨id, hserves⟩ := serves_of_leavesBehind hleaves
    have hgone : (withdrawn reference.id w).outside.directory.reference? reference.id = none := by
      unfold withdrawn
      rw [hfound]
      show (w.outside.directory.remove reference.id).reference? reference.id = none
      rw [Directory.reference?_remove, if_pos rfl]
    intro hbacked
    obtain ⟨r, hr, -⟩ := backed_iff.mp hbacked id reference.id hserves
    have hr : (withdrawn reference.id w).outside.directory.reference? reference.id = some r := hr
    rw [hgone] at hr
    cases hr
  | registry | publish | modify | observe | setDisabled => exact hleaves.elim

/-! ## The console's capability -/

def OfConsole (r : Reference) : Prop :=
  r.hasCapability consoleCapability = true

/-- New properties that leave the console's capability to a service that has it. -/
def Action.KeepsCapability : Action π → Prop
  | .modify _ properties => Dict.has Property.objectClass properties = true →
    (Reference.make 0 "" properties).hasCapability consoleCapability = true
  | _ => True

theorem hasCapability_keepCapability {id : Nat} {old : Reference} {properties : Dict Json}
    (hold : old.hasCapability consoleCapability = true)
    (hkeeps : (Action.modify id properties : Action π).KeepsCapability) :
    (Reference.make id old.origin (Directory.keepCapability old properties)).hasCapability
      consoleCapability = true := by
  have hname : Property.objectClass ≠ Property.serviceId := by decide
  unfold Directory.keepCapability
  split
  · rename_i hhas
    rw [Reference.hasCapability_congr
      ((Reference.property_make hname _ _ _).trans (Reference.property_make hname 0 "" _).symm)]
    exact hkeeps hhas
  · rename_i hhas
    rw [Reference.hasCapability_congr ?_, hold]
    rw [Reference.property_make hname]
    split
    · rename_i capability hcapability
      rw [Dict.lookup_insert_self, hcapability]
    · rename_i hnone
      rw [hnone]
      unfold Dict.has at hhas
      rw [Bool.not_eq_true, Option.isSome_eq_false_iff, Option.isNone_iff_eq_none] at hhas
      exact hhas

theorem not_leavesBehind (h : BackedBy OfConsole w) (action : Action π) :
    ¬ LeavesBehind w action := by
  intro hleaves
  cases action with
  | withdraw reference =>
    obtain ⟨⟨now, hfound, hlost⟩, id, hserves⟩ := hleaves
    obtain ⟨r, hr, hcapable⟩ := h id reference.id hserves
    rw [hfound] at hr
    cases hr
    unfold OfConsole at hcapable
    rw [hlost] at hcapable
    cases hcapable
  | registry | publish | modify | observe | setDisabled => exact hleaves

/-! ## Runs -/

/-- One action leaves an entry without a service exactly if it is of the one bad kind. -/
theorem act_backed (hcode : code.Spares Site.directory) (hready : Ready w) (hrooted : Rooted w)
    {action : Action π} (hcalm : action.Calm) (hfrom : action.FromDirectory) :
    Ends (act (environment code) action) w fun _ w' =>
      (LeavesBehind w action → ¬ Backed w') ∧
      (Backed w → ¬ LeavesBehind w action → Backed w') ∧
      (BackedBy OfConsole w → action.KeepsCapability → BackedBy OfConsole w') ∧
      ∀ reference, action = .withdraw reference → Backed w →
        ((∃ id, Serves id reference.id w') ↔ LeavesBehind w action) := by
  refine (act_alike hcode hready action hcalm).imp fun _ w' halike => ⟨?_, ?_, ?_, ?_⟩
  · intro hleaves hbacked
    have hback : Alike w' (outcome code action w) := halike.symm
    exact not_backed_outcome hleaves ((backed_iff.mp hbacked).alike hback).backed
  · intro hbacked hleaves
    have hafter : BackedBy (fun _ => True) (outcome code action w) :=
      backedBy_outcome hready hrooted (fun _ _ => trivial) (backed_iff.mp hbacked) hfrom
        (fun _ _ _ _ _ => trivial) hleaves
    exact (hafter.alike halike).backed
  · intro hbacked hkeeps
    have hmodify : ∀ id properties, action = .modify id properties → ∀ old, OfConsole old →
        OfConsole (Reference.make id old.origin (Directory.keepCapability old properties)) := by
      rintro id properties rfl old hold
      exact hasCapability_keepCapability hold hkeeps
    exact (backedBy_outcome hready hrooted (fun _ h => h) hbacked hfrom hmodify
      (not_leavesBehind hbacked action)).alike halike
  · rintro reference rfl hbacked
    rw [← serves_withdrawn_iff hready hrooted hbacked]
    exact exists_congr fun id => serves_alike halike

theorem rooted_start (host : Host) (own : π) : Rooted (start host own) := by
  refine rooted_of_none ⟨?_, List.nodup_nil⟩ fun id service hserves => ?_
  · exact fun s hs => absurd hs List.not_mem_nil
  · exact absurd hserves.1 List.not_mem_nil

theorem runActions_rooted (hcode : code.Spares Site.directory) (host : Host) (own : π)
    {actions : List (Action π)} (hactions : ∀ action ∈ actions, action.Calm ∧ action.FromDirectory) :
    Ready (runActions (environment code) actions (start host own)) ∧
      Rooted (runActions (environment code) actions (start host own)) := by
  refine runActions_keeps (fun w => Ready w ∧ Rooted w) ?_ hactions
    ⟨ready_start host own, rooted_start host own⟩
  rintro w action ⟨hcalm, hfrom⟩ ⟨hready, hrooted⟩
  refine (act_ready hcode hready action hcalm).imp fun _ w' ⟨hready', halike⟩ => ⟨hready', ?_⟩
  exact (rooted_outcome hready hrooted hfrom).alike halike

/-- Every entry of a service goes with its service, except for those services that are
withdrawn after they lost the console's capability while they were in the table. -/
theorem runActions_backed (hcode : code.Spares Site.directory) (host : Host) (own : π)
    (actions : List (Action π)) (hactions : ∀ action ∈ actions, action.Calm ∧ action.FromDirectory) :
    let run done := runActions (environment code) done (start host own)
    ((∀ done, done <+: actions → Backed (run done)) ↔
      ∀ done action, done ++ [action] <+: actions → ¬ LeavesBehind (run done) action) ∧
    (∀ done reference, done ++ [.withdraw reference] <+: actions → Backed (run done) →
      ((∃ id, Serves id reference.id (run (done ++ [.withdraw reference]))) ↔
        LeavesBehind (run done) (.withdraw reference))) ∧
    ((∀ action ∈ actions, action.KeepsCapability) → ∀ done, done <+: actions → Backed (run done)) := by
  intro run
  have hnil : BackedBy OfConsole (run []) :=
    fun id service hserves => absurd hserves.1 List.not_mem_nil
  have hstep (done : List (Action π)) (action : Action π) (hdone : done ++ [action] <+: actions) :
      (LeavesBehind (run done) action → ¬ Backed (run (done ++ [action]))) ∧
      (Backed (run done) → ¬ LeavesBehind (run done) action → Backed (run (done ++ [action]))) ∧
      (BackedBy OfConsole (run done) → action.KeepsCapability →
        BackedBy OfConsole (run (done ++ [action]))) ∧
      ∀ reference, action = .withdraw reference → Backed (run done) →
        ((∃ id, Serves id reference.id (run (done ++ [action]))) ↔
          LeavesBehind (run done) action) := by
    have hbefore := runActions_rooted hcode host own fun other hmem =>
      hactions other (hdone.subset (List.mem_append_left _ hmem))
    obtain ⟨hcalm, hfrom⟩ :=
      hactions action (hdone.subset (List.mem_append_right _ (List.mem_singleton_self _)))
    show _ ∧ _ ∧ _ ∧ _
    unfold run
    rw [runActions_concat]
    exact act_backed hcode hbefore.1 hbefore.2 hcalm hfrom
  have hshorter (done : List (Action π)) (action : Action π) (hdone : done ++ [action] <+: actions) :
      done <+: actions := (List.prefix_append done [action]).trans hdone
  refine ⟨⟨fun hall done action hdone hleaves => ?_, fun hnone done hdone => ?_⟩,
    fun done reference hdone hbacked => ?_, fun hkeeps done hdone => ?_⟩
  · exact (hstep done action hdone).1 hleaves (hall _ hdone)
  · induction done using List.reverseRecOn with
    | nil => exact hnil.backed
    | append_singleton done action ih =>
      have hbefore := ih (hshorter done action hdone)
      exact (hstep done action hdone).2.1 hbefore (hnone done action hdone)
  · exact (hstep done (.withdraw reference) hdone).2.2.2 reference rfl hbacked
  · have hconsole : BackedBy OfConsole (run done) := by
      induction done using List.reverseRecOn with
      | nil => exact hnil
      | append_singleton done action ih =>
        have hbefore := ih (hshorter done action hdone)
        have hmem := hdone.subset (List.mem_append_right done (List.mem_singleton_self action))
        exact (hstep done action hdone).2.2.1 hbefore (hkeeps action hmem)
    exact hconsole.backed

/-- A service changes its label while it is in the table. -/
def relabelled : List (Action Unit) :=
  [.registry .openUp,
    .publish "m" [(Property.label, .text "a")] (.plugin (.named "p")),
    .modify 1 [(Property.label, .text "b")],
    .withdraw (Reference.make 1 "m" [])]

theorem relabelled_backed :
    (PluginCode.still : PluginCode (Site Unit)).Spares Site.directory ∧
      (∀ action ∈ relabelled, action.Calm ∧ action.FromDirectory) ∧
      (∀ action ∈ relabelled, action.KeepsCapability) ∧
      ∀ done, done <+: relabelled →
        Backed (runActions (environment PluginCode.still) done (start ⟨"", []⟩ ())) := by
  have hcode : (PluginCode.still : PluginCode (Site Unit)).Spares Site.directory :=
    PluginCode.still_spares _
  have hactions : ∀ action ∈ relabelled, action.Calm ∧ action.FromDirectory := by
    simp [relabelled, Action.Calm, Operation.Calm, Action.FromDirectory]
  have hkeeps : ∀ action ∈ relabelled, action.KeepsCapability := by
    simp [relabelled, Action.KeepsCapability, Dict.has, Property.objectClass, Property.label]
  exact ⟨hcode, hactions, hkeeps,
    (runActions_backed hcode ⟨"", []⟩ () relabelled hactions).2.2 hkeeps⟩

def lostCapability : List (Action Unit) :=
  [.registry .openUp,
    .publish "m" [(Property.label, .text "a")] (.plugin (.named "p")),
    .modify 1 [(Property.objectClass, .text "other"), (Property.label, .text "a")],
    .withdraw (Reference.make 1 "m" [])]

/-- A service that lost the capability leaves its entry behind when it is withdrawn. -/
theorem lostCapability_not_backed :
    let w := runActions (environment PluginCode.still) lostCapability (start ⟨"", []⟩ ())
    isOpen w = true ∧ Serves 0 1 w ∧ w.outside.directory.reference? 1 = none ∧ ¬ Backed w := by
  intro w
  have hafter : isOpen w = true ∧ Serves 0 1 w ∧
      (w.outside.directory.reference? 1).isNone = true := by
    unfold w Serves
    rw [lostCapability, runActions_cons, openUp_start]
    decide +kernel
  obtain ⟨hopen, hserves, hgone⟩ := hafter
  rw [Option.isNone_iff_eq_none] at hgone
  refine ⟨hopen, hserves, hgone, fun hbacked => ?_⟩
  obtain ⟨r, hr, -⟩ := backed_iff.mp hbacked 0 1 hserves
  rw [hgone] at hr
  cases hr

end PluginConsole.Site
