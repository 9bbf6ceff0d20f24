import PluginConsole.Proofs.Registry.Activation
import PluginConsole.Proofs.Registry.Attend

/-!
# Withdrawing a plugin

An application withdraws its plugin by the label. Whatever holds the label then has to go: the
plugin, or a service that took the label from it.
-/

open Relation (ReflTransGen)

namespace PluginConsole

variable {σ δ : Type}

/-! ## A plugin leaves the directory alone -/

namespace Lifecycle

open Act

variable {env : Environment σ} {view : σ → δ} {id : EntryId} {w w' : World σ}

theorem Released.view_eq {c : Component} (h : Released env id c w w')
    (hdirect : (w.entry id).kind = .direct) : view w'.outside = view w.outside := by
  cases h with
  | directory hsource =>
    rw [Entry.kind, hsource] at hdirect
    cases hdirect
  | direct | deactivated => rfl

theorem Parting.view_eq (h : Parting env view id w w') (hdirect : (w.entry id).kind = .direct) :
    view w'.outside = view w.outside := by
  have hshut : ((w.modifyEntry id Entry.shut).entry id).kind = .direct := by
    rw [Entry.kind, (frame_shut w).source]
    exact hdirect
  cases h with
  | cold => rfl
  | unbound _ h => exact h.view_eq hshut
  | bound _ hidle h =>
    have hsource := (Frame.ofCourse Idle.frame hidle).source
    have hview := Idles.view_eq hidle
    exact (h.view_eq ((congrArg Source.kind hsource).trans hshut)).trans hview

theorem dispose_view (hcode : env.code.Spares view) (hdirect : (w.entry id).kind = .direct) :
    Ends (dispose env id) w fun _ w' => view w'.outside = view w.outside := by
  refine (dispose_spec hcode id w).imp fun _ w' h => ?_
  obtain ⟨w₁, hparting, hidle⟩ := h
  exact (Idles.view_eq hidle).trans (hparting.view_eq hdirect)

end Lifecycle

namespace Registry

open Act Lifecycle

variable {env : Environment σ} {view : σ → δ} {w w' : World σ} {id : EntryId} {label : String}

/-! ## What is disposed stays so -/

def Lasting (w w' : World σ) : Prop :=
  ∀ id, (w.entry id).disposed = true → (w'.entry id).disposed = true

theorem Lasting.modifyEntry {f : Entry → Entry}
    (h : (w.entry id).disposed = true → (f (w.entry id)).disposed = true) :
    Lasting w (w.modifyEntry id f) := by
  intro other hdisposed
  by_cases ho : other = id
  · subst ho
    rcases World.entry_modifyEntry_cases other f w with he | he <;> rw [he]
    · exact h hdisposed
    · exact hdisposed
  · rw [World.entry_modifyEntry_of_ne ho]
    exact hdisposed

section Code

variable (hcode : env.code.Respects Lasting)
include hcode

theorem lasting_dismantled (id : EntryId) : Dismantled env id (Lasting : World σ → _) where
  refl _ _ hdisposed := hdisposed
  trans h h' id hdisposed := h' id (h id hdisposed)
  code := hcode
  log _ _ _ hdisposed := hdisposed
  records _ _ _ _ hdisposed := hdisposed
  count _ _ hdisposed := hdisposed
  write _ _ hsame := .modifyEntry (hsame _).disposed
  getService _ _ _ hdisposed := hdisposed
  releaseService _ _ _ hdisposed := hdisposed
  destroys _ _ _ hdisposed := hdisposed

theorem lasting_asked (id : EntryId) : Asked env id (Lasting : World σ → _) where
  toBehaved := (lasting_dismantled hcode id).toBehaved
  log _ _ _ hdisposed := hdisposed
  turn _ _ _ _ hdisposed := hdisposed
  write _ _ _ _ hhold := .modifyEntry hhold.disposed.trans
  resolve := (lasting_dismantled hcode id).resolve

theorem lasting_governed :
    Governed env (fun _ _ => True) (fun _ => True) (fun _ _ => True) (Lasting : World σ → _) where
  refl _ _ hdisposed := hdisposed
  trans h h' id hdisposed := h' id (h id hdisposed)
  aside _ _ _ hdisposed := hdisposed
  stays _ _ := trivial
  keeps _ _ := trivial
  listed _ _ _ := trivial
  component _ := (lasting_asked hcode _).component _
  title _ := (lasting_asked hcode _).title _
  category _ := (lasting_asked hcode _).category _
  init _ ref := (lasting_asked hcode _).init ref _
  destroy _ := (lasting_dismantled hcode _).destroy _
  dispose _ := (lasting_dismantled hcode _).dispose _
  within := env.directory.within_any
  log _ _ _ hdisposed := hdisposed
  count _ _ hdisposed := hdisposed
  settings _ _ _ _ _ hdisposed := hdisposed
  forgets _ _ hdisposed := hdisposed
  attaches _ _ _ hdisposed := hdisposed
  outside _ _ hdisposed := hdisposed
  enter w label source id hdisposed := by
    by_cases hid : id < w.entries.length
    · rw [World.entry_entered_of_lt hid]
      exact hdisposed
    · rw [World.entry_of_le (Nat.le_of_not_lt hid)] at hdisposed
      cases hdisposed
  entered _ _ _ := trivial
  table _ _ _ hdisposed := hdisposed

theorem retire_disposed (hid : id < w.entries.length) :
    Ends (retire env id) w fun _ w' => (w'.entry id).disposed = true := by
  unfold retire
  rw [ends_holding]
  refine ((lasting_dismantled hcode id).dispose_shut _).imp fun _ w' h => h id ?_
  exact congrArg Entry.disposed (World.entry_modifyEntry_self _ _ hid)

end Code

theorem CallsBack.lasting {depth : Nat} {code : PluginCode σ} (h : CallsBack env depth code) :
    code.Respects Lasting := by
  induction depth generalizing code with
  | zero => exact h.respects fun _ _ _ _ hdisposed => hdisposed
  | succ depth ih =>
    refine PluginCode.Respects.mono h ?_
    rintro w _ ⟨inner, calls, hinner, -, rfl⟩
    have hgoverned : Governed { env with code := inner } (fun _ _ => True) (fun _ => True)
        (fun _ _ => True) (Lasting : World σ → _) := lasting_governed (ih hinner)
    exact hgoverned.run (fun _ _ => trivial) trivial calls

/-! ## Who goes -/

/-- A plugin that holds the label goes for good. If it is a service that holds it, or nobody,
nothing is done. -/
structure Withdraws (label : String) (w : World σ) (done : Bool) (w' : World σ) : Prop where
  plugin : ∀ id, w.table.lookup label = some id → (w.entry id).kind = .direct →
    done = true ∧ (w'.entry id).disposed = true
  others : (∀ id, w.table.lookup label = some id → (w.entry id).kind = .directory) →
    done = false ∧ w' = w

/-- The holder of the label is over, and nothing else in the registry is touched. -/
structure Vacates (label : String) (id : EntryId) (w w' : World σ) : Prop where
  gone : Over id w'
  table : w'.table = Dict.erase label w.table
  settings : SameSettings w w'
  entries : ∀ other, other ≠ id →
    w'.entry other = w.entry other ∧ w'.eventsOf other = w.eventsOf other

theorem Leaves.vacates (h : Leaves env view label w w') (hheld : w.table.lookup label = some id) :
    Vacates label id w w' where
  gone := h.ended id hheld
  table := h.visits.kept.table
  settings := h.settings
  entries other ho := by
    have hout : w.table.lookup label ≠ some other := by
      rw [hheld]
      exact fun heq => ho (Option.some.inj heq).symm
    exact ⟨h.untouched hout, h.visits.events_eq fun hmem => hout (Option.mem_toList.mp hmem)⟩

theorem unregister_free (hfree : w.table.lookup label = none) :
    unregister env label w = (false, w) := by
  have hends : Ends (unregister env label) w fun done w' => (done, w') = (false, w) := by
    unfold unregister
    simp only [ends_bind, ends_get, hfree]
    rfl
  exact hends

theorem removeDirect_held (hheld : w.table.lookup label = some id) :
    removeDirect env label w =
      (true, (retire env id { w with table := Dict.erase label w.table }).2) := by
  have hends : Ends (removeDirect env label) w fun done w' =>
      (done, w') = (true, (retire env id { w with table := Dict.erase label w.table }).2) := by
    unfold removeDirect unregister
    simp only [ends_bind, ends_get, hheld]
    rfl
  exact hends

theorem removeDirect_disposed (hcode : env.code.Respects Lasting) (hranged : Ranged w)
    (hheld : w.table.lookup label = some id) :
    (removeDirect env label w).1 = true ∧
      ((removeDirect env label w).2.entry id).disposed = true := by
  have hid : id < { w with table := Dict.erase label w.table }.entries.length :=
    hranged.lookup hheld
  rw [removeDirect_held hheld]
  exact ⟨rfl, retire_disposed hcode hid⟩

theorem removeDirect_view (hcode : env.code.Spares view)
    (hheld : w.table.lookup label = some id) (hdirect : (w.entry id).kind = .direct) :
    view (removeDirect env label w).2.outside = view w.outside := by
  have hretired : Ends (retire env id) { w with table := Dict.erase label w.table }
      fun _ w' => view w'.outside = view w.outside := by
    unfold retire
    rw [ends_holding]
    exact dispose_view hcode hdirect
  rw [removeDirect_held hheld]
  exact hretired

theorem CallsBack.ranged {depth : Nat} (h : CallsBack env depth env.code) (s : σ)
    (calls : List (Call σ)) : Ranged (run env calls { outside := s }) := by
  have hgoverned := squared_governed env.directory.within_any h.squared
  exact (hgoverned.run (fun hready hid => ⟨hready, hid⟩) (sound_fresh s) calls
    (sound_fresh s)).sound.ranged

/-- In every run, what holds the label goes, and the registry says so. So a plugin is withdrawn as
it should be just if no service holds its label. -/
theorem run_withdraws (view : σ → δ) {depth : Nat} (hcode : CallsBack env depth env.code) (s : σ)
    (calls : List (Call σ)) (label : String) :
    let w := run env calls { outside := s }
    let result := removeDirect env label w
    (Withdraws label w result.1 result.2 ↔
      ∀ id, w.table.lookup label = some id → (w.entry id).kind = .direct) ∧
    (∀ id, w.table.lookup label = some id →
      result.1 = true ∧ (result.2.entry id).disposed = true ∧
      (env.code.Spares view → Vacates label id w result.2 ∧
        ((w.entry id).kind = .direct → view result.2.outside = view w.outside))) := by
  intro w result
  have hranged : Ranged w := hcode.ranged s calls
  have hgone (id : EntryId) (hheld : w.table.lookup label = some id) :
      result.1 = true ∧ (result.2.entry id).disposed = true :=
    removeDirect_disposed hcode.lasting hranged hheld
  refine ⟨⟨fun h id hheld => ?_, fun hplugin => ⟨fun id hheld _ => hgone id hheld, ?_⟩⟩,
    fun id hheld => ⟨(hgone id hheld).1, (hgone id hheld).2, fun hquiet => ⟨?_, ?_⟩⟩⟩
  · cases hkind : (w.entry id).kind with
    | direct => rfl
    | directory =>
      have hothers : ∀ other, w.table.lookup label = some other →
          (w.entry other).kind = .directory := by
        intro other hother
        rw [hheld] at hother
        rw [← Option.some.inj hother]
        exact hkind
      have hdone := (h.others hothers).1
      rw [(hgone id hheld).1] at hdone
      cases hdone
  · intro hothers
    cases hheld : w.table.lookup label with
    | none =>
      unfold result removeDirect
      rw [unregister_free hheld]
      exact ⟨rfl, rfl⟩
    | some id =>
      have hkind := hothers id hheld
      rw [hplugin id hheld] at hkind
      cases hkind
  · exact (unregister_spec hquiet hranged label).vacates hheld
  · exact removeDirect_view hquiet hheld

/-- Two plugins are added, and a better service takes the label of the second. -/
def overtaken : List (Call (Site Unit)) :=
  [.registry (.addDirect "p" "a"), .registry (.addDirect "q" "b"), .registry (.lookup ""),
    .registry (.addService (.make 3 "m" [(Property.label, .text "b"),
      (Property.serviceRanking, .int 5)]))]

theorem overtaken_withdraws :
    let w := run (Site.environment PluginCode.still) overtaken { outside := ⟨{}, ⟨"", []⟩, ()⟩ }
    let result := removeDirect (Site.environment PluginCode.still) "a" w
    Withdraws "a" w result.1 result.2 ∧ result.1 = true ∧ Vacates "a" 0 w result.2 ∧
      result.2.outside.directory = w.outside.directory := by
  intro w result
  have hcode : CallsBack (Site.environment PluginCode.still) 0
      (PluginCode.still : PluginCode (Site Unit)) := PluginCode.still_spares _
  have hlookup : w.table.lookup "a" = some 0 := by decide +kernel
  have hplugin : (w.entry 0).kind = .direct := by decide +kernel
  obtain ⟨hiff, hheld⟩ := run_withdraws Site.directory hcode ⟨{}, ⟨"", []⟩, ()⟩ overtaken "a"
  obtain ⟨hdone, -, hquiet⟩ := hheld 0 hlookup
  obtain ⟨hvacates, hdirectory⟩ := hquiet (PluginCode.still_spares _)
  refine ⟨hiff.mpr fun id hid => ?_, hdone, hvacates, hdirectory hplugin⟩
  rw [hlookup] at hid
  cases hid
  exact hplugin

/-- The application asks for its second plugin back, and the service goes that has its label. -/
theorem overtaken_takes_service :
    let w := run (Site.environment PluginCode.still) overtaken { outside := ⟨{}, ⟨"", []⟩, ()⟩ }
    let result := removeDirect (Site.environment PluginCode.still) "b" w
    w.table.lookup "b" = some 2 ∧ (w.entry 2).kind = .directory ∧ result.1 = true ∧
      result.2.table.lookup "b" = none ∧ ¬ Withdraws "b" w result.1 result.2 := by
  intro w result
  have hlookup : w.table.lookup "b" = some 2 := by decide +kernel
  have hservice : (w.entry 2).kind = .directory := by decide +kernel
  have hdone : result.1 = true := by decide +kernel
  refine ⟨hlookup, hservice, hdone, by decide +kernel, fun h => ?_⟩
  have hothers : ∀ id, w.table.lookup "b" = some id → (w.entry id).kind = .directory := by
    intro id hid
    rw [hlookup] at hid
    cases hid
    exact hservice
  rw [hdone] at h
  cases (h.others hothers).1

end Registry

end PluginConsole
