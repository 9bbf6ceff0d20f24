import PluginConsole.Proofs.Registry.Listing
import PluginConsole.Proofs.Site.Outcome

/-!
# The navigation map over a directory in memory

A component of a service is there as long as the object is published and the console can use it, and
one of a factory if the factory is not switched off and makes one.
-/

namespace PluginConsole

theorem Directory.object_modifyService {f : Service → Service} {id : Nat}
    (hid : ∀ s, s.reference.id = id → (f s).reference.id = id) (hobject : ∀ s, (f s).object = s.object)
    (d : Directory) (other : Nat) :
    ((d.modifyService id f).find? other).map (·.object) = (d.find? other).map (·.object) := by
  rw [find?_modifyService hid]
  split
  · rename_i hother
    subst hother
    rw [Option.map_map]
    exact congrArg (Option.map · _) (funext hobject)
  · rfl

theorem Directory.getService_object (id : Nat) (d : Directory) :
    (d.getService id).1 = (d.find? id).map (·.object) := by
  unfold getService
  cases d.find? id <;> rfl

theorem Directory.object_getService (id : Nat) (d : Directory) (other : Nat) :
    ((d.getService id).2.find? other).map (·.object) = (d.find? other).map (·.object) := by
  unfold getService
  cases d.find? id with
  | none => rfl
  | some _ => exact object_modifyService (fun _ h => by exact h) (fun _ => by rfl) d other

namespace Site

open Act Registry Lifecycle

variable {π : Type} {code : PluginCode (Site π)} {w : World (Site π)}

abbrev Stock : Type := (Nat → Option ServiceObject) × Host

def stock (s : Site π) : Stock :=
  (fun id => (s.directory.find? id).map (·.object), s.host)

/-- Whether a factory gives a plugin that can be used depends on the stock alone. -/
def Steady (code : PluginCode (Site π)) : Prop :=
  ∀ factory id id' (w w' : World (Site π)), stock w'.outside = stock w.outside →
    (instantiate (environment code) id' factory true w').1.isOk =
      (instantiate (environment code) id factory true w).1.isOk

/-- `makes` says which factories give a plugin that can be used. -/
def yields (makes : Stock → String → Bool) (k : Stock) : Source → Bool
  | .directory r => match k.1 r.id with
    | some (.plugin _) | some (.handler _) => true
    | some .other | none => false
  | .direct factory known => !k.2.isDisabled factory && known && makes k factory

theorem acquireService_yields (makes : Stock → String → Bool) (id : EntryId) (label : String)
    (r : Reference) (w : World (Site π)) :
    Ends (acquireService (environment code) id label r) w fun found _ =>
      found.isSome = yields makes (stock w.outside) (.directory r) := by
  have hgiven : ((environment code).directory.getService r w.outside).1 = (stock w.outside).1 r.id :=
    Directory.getService_object r.id w.outside.directory
  unfold acquireService yields
  simp only [ends_bind, ends_outside]
  rw [hgiven]
  rcases (stock w.outside).1 r.id with _ | object | object | _ <;> rfl

theorem acquireDirect_yields {makes : Stock → String → Bool}
    (hmakes : ∀ id factory (w : World (Site π)),
      (instantiate (environment code) id factory true w).1.isOk = makes (stock w.outside) factory)
    (id : EntryId) (factory : String) (known : Bool) (w : World (Site π)) :
    Ends (acquireDirect (environment code) id factory known) w fun found _ =>
      found.isSome = yields makes (stock w.outside) (.direct factory known) := by
  show Ends _ w fun (found : Option Component) _ =>
    found.isSome = (!w.outside.host.isDisabled factory && known && makes (stock w.outside) factory)
  unfold acquireDirect
  simp only [ends_bind, ends_get]
  have hhost : (environment code).host.isDisabled w.outside factory =
      w.outside.host.isDisabled factory := rfl
  rw [hhost]
  cases w.outside.host.isDisabled factory with
  | true => exact rfl
  | false =>
    cases known with
    | false => exact rfl
    | true =>
      have hmade : Ends (instantiate (environment code) id factory true) w fun made _ =>
          made.isOk = makes (stock w.outside) factory := hmakes id factory w
      simp only [Bool.false_eq_true, if_false, ends_bind]
      refine hmade.imp ?_
      rintro (f | c) w' hisOk
      · exact hisOk
      · exact hisOk

theorem stocked (hcode : code.Spares stock) (hsteady : Steady code) :
    ∃ makes, Stocked (environment code) stock (yields makes) := by
  classical
  obtain ⟨makes, hmakes⟩ : ∃ makes : Stock → String → Bool, ∀ id factory (w : World (Site π)),
      (instantiate (environment code) id factory true w).1.isOk =
        makes (stock w.outside) factory := by
    refine ⟨fun k factory => decide (∃ id, ∃ w : World (Site π), stock w.outside = k ∧
      (instantiate (environment code) id factory true w).1.isOk = true), fun id factory w => ?_⟩
    rw [Bool.eq_iff_iff, decide_eq_true_iff]
    constructor
    · exact fun hok => ⟨id, w, rfl, hok⟩
    · rintro ⟨id', w', hstock, hok⟩
      rw [← hsteady factory id id' w w' hstock]
      exact hok
  refine ⟨makes, hcode, fun r s => ?_, fun r s => ?_, fun hstock => ?_, ?_⟩
  · exact Prod.ext (funext (Directory.object_getService r.id s.directory)) rfl
  · refine Prod.ext (funext fun id => ?_) rfl
    exact Directory.object_modifyService (fun _ h => by exact h) (fun _ => by rfl) s.directory id
  · exact congrArg Host.isDisabled (congrArg Prod.snd hstock)
  · rintro id _ source w rfl rfl - -
    unfold acquire
    simp only [ends_bind, ends_entry]
    cases (w.entry id).source with
    | directory r => exact acquireService_yields makes id _ r w
    | direct factory known => exact acquireDirect_yields hmakes id factory known w

/-! ## Runs -/

theorem stable_quiet (hcode : code.Spares stock) : Stable code Quiet where
  turns h hs := by
    have hquiet : Rearranged (environment code) stock Turns (fun _ => True)
        fun w w' => Quiet w → Quiet w' := quiet_rearranged
    exact hquiet.outside hs h
  deliver {w} h event listener := by
    have hquiet : Rearranged (environment code) stock (fun _ _ => True) (fun _ => True)
        fun w w' => Quiet w → Quiet w' := quiet_rearranged
    cases listener with
    | registry =>
      exact (hquiet.directoryChanged hcode h.toFiled.ranged trivial).imp fun _ _ hnext => hnext h
    | observer name =>
      exact (hcode.observe name event).ends fun _ _ _ => hquiet.outside trivial h

theorem runActions_quiet (hcode : code.Spares stock) (host : Host) (own : π)
    (actions : List (Action π)) :
    Quiet (runActions (environment code) actions (start host own)) := by
  refine runActions_keeps Quiet (fun w action _ hquiet => ?_) (fun _ _ => trivial) (quiet_fresh _)
  refine (stable_quiet hcode).act hquiet ?_
  rintro op rfl
  exact perform_quiet environment_within hcode hquiet op

/-- The label leads to an entry that is enabled, and its component is there. -/
def Resolves (env : Environment (Site π)) (w : World (Site π)) (label : String) : Prop :=
  ∃ id, w.table.lookup label = some id ∧ isEnabled env w (w.entry id) = true ∧
    (component env id w).1.isSome = true

/-- The map lists every enabled entry whose component is found when it is asked for next, with two
exceptions. Of an entry that announces its texts it counts only whether an earlier search for its
component failed. And all before the name of the flat group is missing if an entry of that name is
filed in no group. -/
theorem runActions_listed (hcode : code.Spares stock) (hsteady : Steady code) (host : Host) (own : π)
    (actions : List (Action π)) {messages : Localizer (StateM (Site π))}
    (hmessages : Calm stock messages) (locale defaultCategory : String) :
    let before := runActions (environment code) actions (start host own)
    Ends (labelMap (environment code) messages locale defaultCategory) before fun map after =>
      ∀ label,
        (label ∈ Dict.keys map.flat ↔
          (∃ id, Shown (environment code) before after label id) ∧
            ¬ (label < flatKey ∧ ∃ id, Shown (environment code) before after flatKey id ∧
              categoryPath ((after.entry id).filedUnder defaultCategory) = [])) ∧
        ((∀ id, after.table.lookup label = some id → ¬ (before.entry id).Described) →
          (label < flatKey → after.table.lookup flatKey = none) →
          (label ∈ Dict.keys map.flat ↔ Resolves (environment code) after label)) := by
  intro before
  obtain ⟨makes, hstocked⟩ := stocked hcode hsteady
  refine (labelMap_listed hstocked hmessages locale defaultCategory
    (runActions_quiet hcode host own actions)).imp fun map after hlisted label => ?_
  refine ⟨hlisted label, fun hasked hflat => (hlisted label).trans ?_⟩
  constructor
  · rintro ⟨⟨id, hshown⟩, -⟩
    have hfound := hshown.found
    rw [if_neg (hasked id hshown.listed)] at hfound
    exact ⟨id, hshown.listed, hshown.enabled, hfound⟩
  · rintro ⟨id, hlookup, henabled, hfound⟩
    refine ⟨⟨id, hlookup, henabled, ?_⟩, ?_⟩
    · rw [if_neg (hasked id hlookup)]
      exact hfound
    · rintro ⟨hlt, other, hshown, -⟩
      have hnone := hflat hlt
      rw [hshown.listed] at hnone
      cases hnone

/-- Two services that announce only their labels. The console can use the first. -/
def twoServices : List (Action Unit) :=
  [.registry .openUp,
    .publish "m" [(Property.label, .text "a")] (.plugin (.named "p")),
    .publish "m" [(Property.label, .text "b")] .other]

def noMessages : Localizer (StateM (Site Unit)) :=
  fun _ _ => return .ok []

theorem still_steady : Steady (PluginCode.still : PluginCode (Site Unit)) :=
  fun _ _ _ _ _ _ => rfl

theorem twoServices_listed :
    (PluginCode.still : PluginCode (Site Unit)).Spares stock ∧
      Steady (PluginCode.still : PluginCode (Site Unit)) ∧ Calm stock noMessages ∧
      Ends (labelMap (environment PluginCode.still) noMessages "en" "misc")
        (runActions (environment PluginCode.still) twoServices (start ⟨"", []⟩ ()))
        fun map after =>
          ("a" ∈ Dict.keys map.flat ∧ Resolves (environment PluginCode.still) after "a") ∧
          ("b" ∉ Dict.keys map.flat ∧ ¬ Resolves (environment PluginCode.still) after "b") := by
  have hcode : (PluginCode.still : PluginCode (Site Unit)).Spares stock := PluginCode.still_spares _
  have hmessages : Calm stock noMessages := fun _ _ _ => rfl
  have hlisted := runActions_listed hcode still_steady ⟨"", []⟩ () twoServices hmessages "en" "misc"
  have hasked : ∀ id < 2, ¬ ((runActions (environment PluginCode.still) twoServices
      (start ⟨"", []⟩ ())).entry id).Described := by
    rw [twoServices, runActions_cons, openUp_start]
    decide +kernel
  have hafter : Ends (labelMap (environment PluginCode.still) noMessages "en" "misc")
      (runActions (environment PluginCode.still) twoServices (start ⟨"", []⟩ ())) fun _ after =>
        after.table.lookup "a" = some 0 ∧ after.table.lookup "b" = some 1 ∧
          after.table.lookup flatKey = none ∧
          isEnabled (environment PluginCode.still) after (after.entry 0) = true ∧
          (component (environment PluginCode.still) 0 after).1.isSome = true ∧
          (component (environment PluginCode.still) 1 after).1.isSome = false := by
    rw [twoServices, runActions_cons, openUp_start]
    unfold Ends
    decide +kernel
  refine ⟨hcode, still_steady, hmessages, (hlisted.and hafter).imp ?_⟩
  rintro map after ⟨hlisted, ha, hb, hflat, henabled, hfirst, hsecond⟩
  have hiff (label : String) (id : EntryId) (hid : id < 2)
      (hlookup : after.table.lookup label = some id) :
      label ∈ Dict.keys map.flat ↔ Resolves (environment PluginCode.still) after label := by
    refine (hlisted label).2 (fun other hother => ?_) fun _ => hflat
    rw [hlookup] at hother
    cases hother
    exact hasked id hid
  have hresolves : Resolves (environment PluginCode.still) after "a" := ⟨0, ha, henabled, hfirst⟩
  have hfails : ¬ Resolves (environment PluginCode.still) after "b" := by
    rintro ⟨id, hlookup, -, hfound⟩
    rw [hb] at hlookup
    cases hlookup
    rw [hsecond] at hfound
    cases hfound
  exact ⟨⟨(hiff "a" 0 Nat.zero_lt_two ha).mpr hresolves, hresolves⟩,
    ⟨fun hmem => hfails ((hiff "b" 1 Nat.one_lt_two hb).mp hmem), hfails⟩⟩

/-- A service announces all its texts, but the console cannot use its object. -/
def describedOther : List (Action Unit) :=
  [.registry .openUp,
    .publish "m" [(Property.category, .text "x"), (Property.label, .text "a"),
      (Property.title, .text "A")] .other]

theorem describedOther_listed :
    (PluginCode.still : PluginCode (Site Unit)).Spares stock ∧
      Steady (PluginCode.still : PluginCode (Site Unit)) ∧ Calm stock noMessages ∧
      Ends (labelMap (environment PluginCode.still) noMessages "en" "misc")
        (runActions (environment PluginCode.still) describedOther (start ⟨"", []⟩ ()))
        fun map after =>
          "a" ∈ Dict.keys map.flat ∧ ¬ Resolves (environment PluginCode.still) after "a" := by
  have hafter : Ends (labelMap (environment PluginCode.still) noMessages "en" "misc")
      (runActions (environment PluginCode.still) describedOther (start ⟨"", []⟩ ()))
      fun map after => "a" ∈ Dict.keys map.flat ∧ after.table.lookup "a" = some 0 ∧
        (component (environment PluginCode.still) 0 after).1.isSome = false := by
    rw [describedOther, runActions_cons, openUp_start]
    unfold Ends
    decide +kernel
  refine ⟨PluginCode.still_spares _, still_steady, fun _ _ _ => rfl, ?_⟩
  refine hafter.imp fun map after ⟨hmem, ha, hnone⟩ => ⟨hmem, ?_⟩
  rintro ⟨id, hlookup, -, hfound⟩
  rw [ha] at hlookup
  cases hlookup
  rw [hnone] at hfound
  cases hfound

end Site

end PluginConsole
