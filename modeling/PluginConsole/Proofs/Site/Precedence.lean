import PluginConsole.Proofs.Registry.Precedence
import PluginConsole.Proofs.Site.Listing

/-!
# Lookups without a label over a directory in memory

After any run it is settled who answers when nobody is named: the entry under the default label,
or else the first one in the order of the labels whose component is there.
-/

namespace PluginConsole.Site

open Act Registry Lifecycle

variable {π : Type} {code : PluginCode (Site π)}

/-- The first entry with a component answers, and those after it are left alone. By default the
preferred entry answers, and the first one with a component only in its absence. -/
theorem runActions_leads (hcode : code.Spares stock) (hsteady : Steady code) (host : Host) (own : π)
    (actions : List (Action π)) :
    let before := runActions (environment code) actions (start host own)
    Ends (lookup (environment code) "") before
        (fun found after => Led (environment code) before found after) ∧
      Ends (lookupDefault (environment code)) before
        (fun found after => Defaulted (environment code) before found after) := by
  intro before
  obtain ⟨makes, hstocked⟩ := stocked hcode hsteady
  have hquiet : Quiet before := runActions_quiet hcode host own actions
  refine ⟨(lookup_led hstocked hquiet).imp fun _ _ hanswered => hanswered.2, ?_⟩
  exact lookupDefault_defaulted hstocked hquiet

/-- Of three services the console cannot use the first, which is the one that is preferred. -/
def threeServices : List (Action Unit) :=
  [.registry .openUp,
    .publish "m" [(Property.label, .text "a")] .other,
    .publish "m" [(Property.label, .text "b")] (.plugin (.named "p")),
    .publish "m" [(Property.label, .text "c")] (.plugin (.named "q")),
    .registry (.setDefaultLabel (some "a"))]

theorem threeServices_leads :
    (PluginCode.still : PluginCode (Site Unit)).Spares stock ∧
      Steady (PluginCode.still : PluginCode (Site Unit)) ∧
      let env := environment (PluginCode.still : PluginCode (Site Unit))
      let before := runActions env threeServices (start ⟨"", []⟩ ())
      before.table = [("a", 0), ("b", 1), ("c", 2)] ∧ before.defaultLabel = some "a" ∧
        Ends (lookup env "") before
          (fun found after => (∃ c, found = some c ∧ Has 1 c after) ∧ LeftAlone 2 before after) ∧
        Ends (lookupDefault env) before (fun found after => ∃ c, found = some c ∧ Has 1 c after) := by
  have hcode : (PluginCode.still : PluginCode (Site Unit)).Spares stock := PluginCode.still_spares _
  refine ⟨hcode, still_steady, ?_⟩
  intro env before
  obtain ⟨htable, hdefault, hfirst, hsecond⟩ : before.table = [("a", 0), ("b", 1), ("c", 2)] ∧
      before.defaultLabel = some "a" ∧ ¬ Available env before 0 ∧ Available env before 1 := by
    show (runActions env threeServices (start ⟨"", []⟩ ())).table = _ ∧
      (runActions env threeServices (start ⟨"", []⟩ ())).defaultLabel = _ ∧
      ¬ (component env 0 (runActions env threeServices (start ⟨"", []⟩ ()))).1.isSome = true ∧
      (component env 1 (runActions env threeServices (start ⟨"", []⟩ ()))).1.isSome = true
    rw [threeServices, runActions_cons, openUp_start]
    decide +kernel
  have hleads : Leads env before "b" 1 := by
    refine ⟨by rw [htable]; rfl, hsecond, fun earlier other hlookup hlt => ?_⟩
    rw [htable] at hlookup
    have hmem : (earlier, other) ∈ [("a", 0), ("b", 1), ("c", 2)] := Dict.mem_of_lookup hlookup
    rcases List.mem_cons.mp hmem with heq | hlater
    · cases heq
      exact hfirst
    · have hnot : ∀ entry ∈ [("b", 1), ("c", 2)], ¬ entry.1 < "b" := by decide
      exact absurd hlt (hnot _ hlater)
  have hanswer {found : Option Component} {after : World (Site Unit)}
      (hanswered : Answered env before found after) : ∃ c, found = some c ∧ Has 1 c after := by
    have hsome : found.isSome := by
      rw [Option.isSome_iff_ne_none]
      exact fun hnone => hleads.not_barren (hanswered.barren.mp hnone)
    obtain ⟨c, rfl⟩ := Option.isSome_iff_exists.mp hsome
    obtain ⟨label, id, hother, hhas⟩ := hanswered.leads c rfl
    obtain ⟨-, rfl⟩ := hleads.unique hother
    exact ⟨c, rfl, hhas⟩
  have hnobody (id : EntryId) : ¬ Preferred env before id := by
    rintro ⟨label, hlabel, -, hlookup, havailable⟩
    rw [hdefault] at hlabel
    cases hlabel
    rw [htable] at hlookup
    cases hlookup
    exact hfirst havailable
  obtain ⟨hled, hdefaulted⟩ := runActions_leads hcode still_steady ⟨"", []⟩ () threeServices
  refine ⟨htable, hdefault, hled.imp fun found after h => ?_, hdefaulted.imp fun found after h => ?_⟩
  · refine ⟨hanswer h.toAnswered, h.behind "b" 1 hleads "c" 2 ?_ (by decide)⟩
    rw [htable]
    rfl
  · exact hanswer (h.otherwise hnobody).1

end PluginConsole.Site
