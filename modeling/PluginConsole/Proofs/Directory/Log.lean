import Mathlib.Data.List.Induction
import Mathlib.Data.List.Nodup
import PluginConsole.Proofs.Act
import PluginConsole.Proofs.Directory

/-!
# Logs of a directory

What was asked of a directory, with its answers, tells all about its services: which ones there are
and what they are like now.
-/

namespace PluginConsole

namespace Reference

/-- The reference of a service with new properties. It is published under the same capabilities, by
the same module and with the same id. -/
def renewed (r : Reference) (properties : Dict Json) : Reference :=
  make r.id r.origin (match r.property Property.objectClass with
    | some names => Dict.insert Property.objectClass names properties
    | none => properties)

theorem property_renewed {r : Reference} {properties : Dict Json} {key : String}
    (hclassed : (r.property Property.objectClass).isSome) :
    (r.renewed properties).property key =
      if key = Property.serviceId then some (.ofNat r.id)
      else if key = Property.objectClass then r.property Property.objectClass
      else properties.lookup key := by
  obtain ⟨names, hnames⟩ := Option.isSome_iff_exists.mp hclassed
  have hrenewed : r.renewed properties =
      make r.id r.origin (Dict.insert Property.objectClass names properties) := by
    unfold renewed
    rw [hnames]
  rw [hrenewed, hnames]
  split
  · rename_i hid
    rw [hid]
    exact Dict.lookup_insert_self _ _ _
  · rename_i hid
    rw [property_make hid, Dict.lookup_insert]

theorem hasCapability_renewed {r : Reference}
    (hclassed : (r.property Property.objectClass).isSome) (properties : Dict Json)
    (capability : String) :
    (r.renewed properties).hasCapability capability = r.hasCapability capability := by
  have hname : Property.objectClass ≠ Property.serviceId := by decide
  refine hasCapability_congr ?_ capability
  rw [property_renewed hclassed, if_neg hname, if_pos rfl]

end Reference

namespace Log

open Directory

/-! ## Deeds and answers -/

inductive Deed where
  | publish (origin : String) (properties : Dict Json) (object : ServiceObject)
  | modify (id : Nat) (properties : Dict Json)
  | withdraw (reference : Reference)
  | subscribe (filter name : String)
  | unsubscribe (subscription : Nat)

/-- A deed with its answer. -/
inductive Deal where
  | publish (origin : String) (properties : Dict Json) (object : ServiceObject) (r : Reference)
  | modify (id : Nat) (properties : Dict Json) (r : Option Reference)
  | withdraw (reference : Reference) (gone : Bool)
  | subscribe (filter name : String) (granted : Except Fault Nat)
  | unsubscribe (subscription : Nat)

def Deal.deed : Deal → Deed
  | publish origin properties object _ => .publish origin properties object
  | modify id properties _ => .modify id properties
  | withdraw reference _ => .withdraw reference
  | subscribe filter name _ => .subscribe filter name
  | unsubscribe subscription => .unsubscribe subscription

def Deal.ends (subscription : Nat) : Deal → Bool
  | unsubscribe n => n == subscription
  | _ => false

/-! ## Services -/

section Logs

variable (log : List Deal)

def published : List Reference :=
  log.filterMap fun
    | .publish _ _ _ r => some r
    | _ => none

def renewals (id : Nat) : List (Dict Json) :=
  log.filterMap fun
    | .modify n properties (some _) => if n = id then some properties else none
    | _ => none

def withdrawn (id : Nat) : Bool :=
  log.any fun
    | .withdraw r true => r.id == id
    | _ => false

/-- The service as it is now, or as it was last. -/
def latest (r : Reference) : Reference :=
  match (renewals log r.id).getLast? with
  | some properties => r.renewed properties
  | none => r

def Living (r : Reference) : Prop :=
  r ∈ published log ∧ withdrawn log r.id = false

def living : List Reference :=
  ((published log).filter fun r => !withdrawn log r.id).map (latest log)

/-! ## Subscriptions -/

def grants : Nat :=
  log.countP fun
    | .subscribe _ _ (.ok _) => true
    | _ => false

def resubscribed (subscriptions : List Subscription) : Deal → List Subscription
  | .subscribe filter name (.ok n) =>
    match parseFilter filter with
    | .ok capability => subscriptions ++ [⟨n, capability, .observer name⟩]
    | .error _ => subscriptions
  | .unsubscribe n => subscriptions.filter (·.id != n)
  | _ => subscriptions

def subscriptions : List Subscription :=
  log.foldl resubscribed []

end Logs

/-! ## Lawful logs -/

/-- The answer that a directory gives after this log. -/
inductive Follows (log : List Deal) : Deal → Prop where
  | publish (origin : String) (properties : Dict Json) (object : ServiceObject) :
    Follows log (.publish origin properties object
      (Reference.make ((published log).length + 1) origin (withCapability properties)))
  | modify {r : Reference} (h : Living log r) (properties : Dict Json) :
    Follows log (.modify r.id properties (some (r.renewed properties)))
  | miss {id : Nat} (h : ∀ r, Living log r → r.id ≠ id) (properties : Dict Json) :
    Follows log (.modify id properties none)
  | withdraw {r reference : Reference} (h : Living log r) (hid : reference.id = r.id) :
    Follows log (.withdraw reference true)
  | gone {reference : Reference} (h : ∀ r, Living log r → r.id ≠ reference.id) :
    Follows log (.withdraw reference false)
  | subscribe {filter capability : String} (h : parseFilter filter = .ok capability)
    (name : String) : Follows log (.subscribe filter name (.ok (grants log + 1)))
  | refuse {filter : String} {f : Fault} (h : parseFilter filter = .error f) (name : String) :
    Follows log (.subscribe filter name (.error f))
  | unsubscribe (subscription : Nat) : Follows log (.unsubscribe subscription)

def Lawful (log : List Deal) : Prop :=
  ∀ before deal after, log = before ++ deal :: after → Follows before deal

variable {log rest : List Deal} {deal : Deal} {r r' : Reference} {id : Nat}

/-! ## One deal more -/

@[simp] theorem published_append (log rest : List Deal) :
    published (log ++ rest) = published log ++ published rest :=
  List.filterMap_append

@[simp] theorem renewals_append (log rest : List Deal) (id : Nat) :
    renewals (log ++ rest) id = renewals log id ++ renewals rest id :=
  List.filterMap_append

@[simp] theorem withdrawn_append (log rest : List Deal) (id : Nat) :
    withdrawn (log ++ rest) id = (withdrawn log id || withdrawn rest id) :=
  List.any_append

@[simp] theorem grants_append (log rest : List Deal) :
    grants (log ++ rest) = grants log + grants rest :=
  List.countP_append

theorem subscriptions_snoc (log : List Deal) (deal : Deal) :
    subscriptions (log ++ [deal]) = resubscribed (subscriptions log) deal :=
  List.foldl_append

theorem Lawful.nil : Lawful [] := by
  intro before deal after h
  simp at h

theorem Lawful.snoc (h : Lawful log) (hdeal : Follows log deal) : Lawful (log ++ [deal]) :=
  split_snoc h hdeal

theorem Lawful.last (h : Lawful (log ++ [deal])) : Follows log deal :=
  h log deal [] rfl

theorem Lawful.of_append (h : Lawful (log ++ rest)) : Lawful log := by
  rintro before deal after rfl
  exact h before deal (after ++ rest) (by simp)

/-! ## Services of a lawful log -/

section Lawful

variable (h : Lawful log)
include h

/-- Services are numbered from one on, in the order in which they are published. -/
theorem Lawful.ids : (published log).map (·.id) = List.range' 1 (published log).length := by
  induction log using List.reverseRecOn with
  | nil => rfl
  | append_singleton log deal ih =>
    have hids := ih h.of_append
    cases h.last with
    | publish origin properties object =>
      rw [published_append, List.map_append, hids]
      show _ ++ [(published log).length + 1] = List.range' 1 (_ ++ [_]).length
      rw [List.length_append, List.length_singleton, List.range'_1_concat, Nat.add_comm 1]
    | modify | miss | withdraw | gone | subscribe | refuse | unsubscribe =>
      rw [published_append]
      show ((published log) ++ []).map _ = List.range' 1 ((published log) ++ []).length
      rw [List.append_nil]
      exact hids

theorem Lawful.increasing : ((published log).map (·.id)).Pairwise (· < ·) := by
  rw [h.ids]
  exact List.pairwise_lt_range'

theorem Lawful.unique (hr : r ∈ published log) (hr' : r' ∈ published log) (hid : r.id = r'.id) :
    r = r' :=
  List.inj_on_of_nodup_map (h.increasing.imp Nat.ne_of_lt) hr hr' hid

theorem Lawful.id_le (hr : r ∈ published log) : r.id ≤ (published log).length := by
  have hmem : r.id ∈ (published log).map (·.id) := List.mem_map_of_mem hr
  rw [h.ids, List.mem_range'_1] at hmem
  omega

omit h in
theorem Lawful.later (h : Lawful (log ++ rest)) (hr : r ∈ published rest) :
    (published log).length < r.id := by
  have hids := h.ids
  rw [published_append, List.map_append, h.of_append.ids, List.length_append,
    ← List.range'_append_1, List.append_cancel_left_eq] at hids
  have hmem : r.id ∈ (published rest).map (·.id) := List.mem_map_of_mem hr
  rw [hids, List.mem_range'_1] at hmem
  omega

theorem Lawful.known (hid : withdrawn log id = true ∨ renewals log id ≠ []) :
    ∃ r ∈ published log, r.id = id := by
  induction log using List.reverseRecOn with
  | nil => simp [withdrawn, renewals] at hid
  | append_singleton log deal ih =>
    by_cases hold : withdrawn log id = true ∨ renewals log id ≠ []
    · obtain ⟨r, hr, hrid⟩ := ih h.of_append hold
      exact ⟨r, by simp [hr], hrid⟩
    rw [not_or, not_not, Bool.not_eq_true] at hold
    rw [withdrawn_append, renewals_append, hold.1, hold.2, Bool.false_or, List.nil_append] at hid
    have hmore {r : Reference} (hliving : Living log r) (hrid : r.id = id) :
        ∃ r ∈ published (log ++ [deal]), r.id = id := ⟨r, by simp [hliving.1], hrid⟩
    cases h.last with
    | modify hliving properties =>
      refine hmore hliving ?_
      simpa [withdrawn, renewals] using hid
    | withdraw hliving hsame =>
      refine hmore hliving (hsame.symm.trans ?_)
      simpa [withdrawn, renewals] using hid
    | publish | miss | gone | subscribe | refuse | unsubscribe =>
      simp [withdrawn, renewals] at hid

theorem Lawful.unknown (hid : (published log).length < id) :
    withdrawn log id = false ∧ renewals log id = [] := by
  by_contra hknown
  rw [not_and_or, Bool.not_eq_false] at hknown
  obtain ⟨r, hr, rfl⟩ := h.known hknown
  exact Nat.not_le_of_lt hid (h.id_le hr)

theorem Lawful.classed (hr : r ∈ published log) : (r.property Property.objectClass).isSome := by
  induction log using List.reverseRecOn with
  | nil => simp [published] at hr
  | append_singleton log deal ih =>
    rw [published_append, List.mem_append] at hr
    rcases hr with hr | hr
    · exact ih h.of_append hr
    cases h.last with
    | publish origin properties object =>
      rw [List.mem_singleton.mp hr, Reference.property_make (by decide)]
      unfold withCapability
      split
      · assumption
      · rw [Dict.lookup_insert_self]
        rfl
    | modify | miss | withdraw | gone | subscribe | refuse | unsubscribe => simp [published] at hr

theorem Lawful.class_latest (hr : r ∈ published log) :
    (latest log r).property Property.objectClass = r.property Property.objectClass := by
  unfold latest
  split
  · rw [Reference.property_renewed (h.classed hr), if_neg (by decide), if_pos rfl]
  · rfl

theorem Lawful.hasCapability_latest (hr : r ∈ published log) (capability : String) :
    (latest log r).hasCapability capability = r.hasCapability capability :=
  Reference.hasCapability_congr (h.class_latest hr) capability

theorem Lawful.make_kept (hr : r ∈ published log) {properties : Dict Json}
    (hmodest : Dict.has Property.objectClass properties = false) :
    Reference.make r.id (latest log r).origin (keepCapability (latest log r) properties) =
      r.renewed properties := by
  have horigin : (latest log r).origin = r.origin := by
    unfold latest
    split <;> rfl
  unfold keepCapability Reference.renewed
  rw [hmodest, h.class_latest hr, horigin]
  rfl

end Lawful

/-! ## The services in the directory -/

@[simp] theorem latest_id (log : List Deal) (r : Reference) : (latest log r).id = r.id := by
  unfold latest
  split <;> rfl

theorem latest_append (h : renewals rest r.id = []) : latest (log ++ rest) r = latest log r := by
  unfold latest
  rw [renewals_append, h, List.append_nil]

theorem mem_living {now : Reference} :
    now ∈ living log ↔ ∃ r, Living log r ∧ latest log r = now := by
  simp [living, Living, and_assoc]

/-- What makes no service, changes none and takes none leaves all as they are. -/
theorem living_same (hpublished : published [deal] = []) (hrenewals : ∀ id, renewals [deal] id = [])
    (hwithdrawn : ∀ id, withdrawn [deal] id = false) : living (log ++ [deal]) = living log := by
  unfold living
  rw [published_append, hpublished, List.append_nil]
  have hsame : (fun r : Reference => !withdrawn (log ++ [deal]) r.id) = fun r =>
      !withdrawn log r.id := by
    funext r
    rw [withdrawn_append, hwithdrawn, Bool.or_false]
  rw [hsame]
  exact List.map_congr_left fun r _ => latest_append (hrenewals r.id)

theorem living_published (h : Lawful log) (hid : (published log).length < r.id) (origin : String)
    (properties : Dict Json) (object : ServiceObject) :
    living (log ++ [.publish origin properties object r]) = living log ++ [r] := by
  have hnew := h.unknown hid
  have hpublished : published [.publish origin properties object r] = [r] := rfl
  have hlatest (x : Reference) :
      latest (log ++ [.publish origin properties object r]) x = latest log x :=
    latest_append rfl
  have hwithdrawn (id : Nat) :
      withdrawn (log ++ [.publish origin properties object r]) id = withdrawn log id := by
    rw [withdrawn_append]
    exact Bool.or_false _
  have hself : latest log r = r := by
    unfold latest
    rw [hnew.2]
    rfl
  simp [living, hpublished, hlatest, hwithdrawn, hnew.1, hself]

theorem living_renewed (h : Lawful log) (hr : Living log r) (properties : Dict Json)
    (now : Reference) :
    living (log ++ [.modify r.id properties (some now)]) =
      (living log).map fun x => if x.id == r.id then r.renewed properties else x := by
  have hpublished : published [.modify r.id properties (some now)] = [] := rfl
  have hwithdrawn (id : Nat) :
      withdrawn (log ++ [.modify r.id properties (some now)]) id = withdrawn log id := by
    rw [withdrawn_append]
    exact Bool.or_false _
  unfold living
  rw [published_append, hpublished, List.append_nil, List.map_map]
  simp only [hwithdrawn]
  refine List.map_congr_left fun x hx => ?_
  rw [Function.comp_apply, latest_id]
  by_cases hid : x.id = r.id
  · obtain rfl := h.unique (List.mem_filter.mp hx).1 hr.1 hid
    simp [latest, renewals]
  · rw [if_neg (by simpa using hid)]
    exact latest_append (by simp [renewals, Ne.symm hid])

theorem living_withdrawn (log : List Deal) (reference : Reference) :
    living (log ++ [.withdraw reference true]) = (living log).filter (·.id != reference.id) := by
  have hpublished : published [.withdraw reference true] = [] := rfl
  have hlatest (x : Reference) : latest (log ++ [.withdraw reference true]) x = latest log x :=
    latest_append rfl
  unfold living
  rw [published_append, hpublished, List.append_nil, List.filter_map, List.filter_filter]
  simp only [funext hlatest]
  congr 2
  funext x
  have hself : withdrawn [.withdraw reference true] x.id = (reference.id == x.id) :=
    Bool.or_false _
  rw [withdrawn_append, hself, Bool.not_or, Bool.and_comm, Function.comp_apply, latest_id, bne,
    Bool.beq_comm]

end Log

end PluginConsole
