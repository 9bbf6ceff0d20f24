import PluginConsole.Proofs.Lifecycle.Consult
import PluginConsole.Proofs.Lifecycle.Trace

/-!
# The names that components are initialized under

An entry names its component at every initialization: by the title that it has found, or else by the
label, as long as the title is still being found.
-/

namespace PluginConsole

def TitleAsked (trace : List EntryEvent) : Prop :=
  ∃ c, .title c ∈ trace

def EntryEvent.Untitled : EntryEvent → Prop
  | .title _ | .init .. => False
  | _ => True

namespace Entry

/-- The registration brings a title. -/
def Announced (e : Entry) : Prop :=
  (e.source.property Property.title).isSome

/-- The name of an initialization, by what had happened before. `quiet` says that plugin code does
not call back: where it does, a component may be initialized again while it is asked for its
title. -/
structure Names (quiet : Prop) (e : Entry) (before : List EntryEvent) (name : String) : Prop where
  begun : e.title ≠ .empty
  known : name = e.label ∨ e.title = .resolved name
  sure : e.Announced ∨ quiet ∧ TitleAsked before → e.title = .resolved name
  early : ¬ e.Announced → ¬ TitleAsked before → name = e.label

/-- Every initialization of an entry was under the right name, and the title is where the trace has
led. -/
structure Titled (quiet : Prop) (e : Entry) (trace : List EntryEvent) : Prop where
  named : ∀ before event after, trace = before ++ event :: after →
    ∀ c ref config, event = .init c ref config → Names quiet e before config.name
  unasked : e.title = .empty ∨ quiet ∧ e.title = .inFlight → ¬ TitleAsked trace
  announced : e.Announced → e.title ≠ .inFlight
  settled : ¬ e.Announced → ¬ TitleAsked trace → ∀ t, e.title = .resolved t → t = e.label

end Entry

/-! ## Traces -/

theorem TitleAsked.append {trace : List EntryEvent} (h : TitleAsked trace)
    (rest : List EntryEvent) : TitleAsked (trace ++ rest) := by
  obtain ⟨c, hmem⟩ := h
  exact ⟨c, List.mem_append_left _ hmem⟩

theorem titleAsked_snoc_title (trace : List EntryEvent) (c : Component) :
    TitleAsked (trace ++ [.title c]) :=
  ⟨c, List.mem_append_right _ (List.mem_singleton_self _)⟩

theorem titleAsked_snoc {trace : List EntryEvent} {event : EntryEvent}
    (hother : ∀ c, event ≠ .title c) : TitleAsked (trace ++ [event]) ↔ TitleAsked trace := by
  constructor
  · rintro ⟨c, hmem⟩
    rcases List.mem_append.mp hmem with hmem | hmem
    · exact ⟨c, hmem⟩
    · exact absurd (List.mem_singleton.mp hmem).symm (hother c)
  · exact fun h => h.append _

namespace Entry

variable {quiet : Prop} {e e' : Entry} {trace before : List EntryEvent} {name t : String}

theorem Names.same (h : Names quiet e before name) (hlabel : e'.label = e.label)
    (hsource : e'.source = e.source) (htitle : e'.title = e.title) :
    Names quiet e' before name := by
  have hannounced : e'.Announced ↔ e.Announced := by
    unfold Announced
    rw [hsource]
  constructor
  · rw [htitle]
    exact h.begun
  · rw [hlabel, htitle]
    exact h.known
  · rw [hannounced, htitle]
    exact h.sure
  · rw [hannounced, hlabel]
    exact h.early

namespace Titled

theorem fresh (hempty : e.title = .empty) : Titled quiet e [] where
  named _ _ _ heq := by simp at heq
  unasked _ := by rintro ⟨c, ⟨⟩⟩
  announced _ := by simp [hempty]
  settled _ _ t ht := by
    rw [hempty] at ht
    cases ht

theorem same (h : Titled quiet e trace) (hlabel : e'.label = e.label)
    (hsource : e'.source = e.source) (htitle : e'.title = e.title) : Titled quiet e' trace := by
  have hannounced : e'.Announced ↔ e.Announced := by
    unfold Announced
    rw [hsource]
  constructor
  · intro before event after heq c ref config hinit
    exact (h.named before event after heq c ref config hinit).same hlabel hsource htitle
  · rw [htitle]
    exact h.unasked
  · rw [hannounced, htitle]
    exact h.announced
  · rw [hannounced, hlabel, htitle]
    exact h.settled

/-! ## One event more -/

theorem snoc (h : Titled quiet e trace) {event : EntryEvent} (hother : ∀ c, event ≠ .title c)
    (hnames : ∀ c ref config, event = .init c ref config → Names quiet e trace config.name) :
    Titled quiet e (trace ++ [event]) where
  named := split_snoc h.named hnames
  unasked := by
    rw [titleAsked_snoc hother]
    exact h.unasked
  announced := h.announced
  settled := by
    rw [titleAsked_snoc hother]
    exact h.settled

theorem snoc_title (h : Titled quiet e trace) (hloud : ¬ quiet) (hflight : e.title = .inFlight)
    (c : Component) : Titled quiet e (trace ++ [.title c]) where
  named := split_snoc h.named nofun
  unasked hnot := by
    rcases hnot with hempty | ⟨hquiet, -⟩
    · rw [hflight] at hempty
      cases hempty
    · exact absurd hquiet hloud
  announced := h.announced
  settled _ hnever := absurd (titleAsked_snoc_title trace c) hnever

/-! ## Finding the title -/

theorem names_resolved (h : Titled quiet e trace) (htitle : e.title = .resolved t) :
    Names quiet e trace t where
  begun := by simp [htitle]
  known := Or.inr htitle
  sure _ := htitle
  early hsilent hnever := h.settled hsilent hnever t htitle

theorem names_inFlight (h : Titled quiet e trace) (hflight : e.title = .inFlight) :
    Names quiet e trace e.label where
  begun := by simp [hflight]
  known := Or.inl rfl
  sure hsure := by
    rcases hsure with hannounced | ⟨hquiet, hasked⟩
    · exact absurd hflight (h.announced hannounced)
    · exact absurd hasked (h.unasked (Or.inr ⟨hquiet, hflight⟩))
  early _ _ := rfl

theorem no_init (h : Titled quiet e trace) (hempty : e.title = .empty) :
    ∀ before event after, trace = before ++ event :: after →
      ∀ c ref config, event ≠ .init c ref config :=
  fun before event after heq c ref config hinit =>
    (h.named before event after heq c ref config hinit).begun hempty

theorem announce (h : Titled quiet e trace) (hempty : e.title = .empty)
    (hannounced : e.Announced) (t : String) :
    Titled quiet { e with title := .resolved t } trace where
  named before event after heq c ref config hinit :=
    absurd hinit (h.no_init hempty before event after heq c ref config)
  unasked hnot := by rcases hnot with ⟨⟨⟩⟩ | ⟨-, ⟨⟩⟩
  announced _ := nofun
  settled hsilent := absurd hannounced hsilent

theorem claim (h : Titled quiet e trace) (hempty : e.title = .empty) (hsilent : ¬ e.Announced) :
    Titled quiet { e with title := .inFlight } trace where
  named before event after heq c ref config hinit :=
    absurd hinit (h.no_init hempty before event after heq c ref config)
  unasked _ := h.unasked (Or.inl hempty)
  announced hannounced := absurd hannounced hsilent
  settled _ _ _ := nofun

theorem names_found (h : Titled quiet e trace) (hflight : e.title = .inFlight) (t : String)
    (before : List EntryEvent) (event : EntryEvent) (after : List EntryEvent)
    (heq : trace = before ++ event :: after) (c : Component) (ref : ContextRef)
    (config : InitConfig) (hinit : event = .init c ref config) :
    Names quiet { e with title := .resolved t } before config.name := by
  have hnames := h.named before event after heq c ref config hinit
  refine ⟨nofun, ?_, fun hsure => ?_, hnames.early⟩
  · rcases hnames.known with hlabel | htitle
    · exact Or.inl hlabel
    · rw [hflight] at htitle
      cases htitle
  · rcases hsure with hannounced | ⟨hquiet, hasked⟩
    · exact absurd hflight (h.announced hannounced)
    · refine absurd ?_ (h.unasked (Or.inr ⟨hquiet, hflight⟩))
      rw [heq]
      exact hasked.append _

theorem found (h : Titled quiet e trace) (hflight : e.title = .inFlight)
    (ht : ¬ TitleAsked trace → t = e.label) :
    Titled quiet { e with title := .resolved t } trace where
  named := h.names_found hflight t
  unasked hnot := by rcases hnot with ⟨⟨⟩⟩ | ⟨-, ⟨⟩⟩
  announced _ := nofun
  settled _ hnever _ := by
    rintro ⟨⟩
    exact ht hnever

theorem answered (h : Titled quiet e trace) (hflight : e.title = .inFlight) (c : Component)
    (t : String) : Titled quiet { e with title := .resolved t } (trace ++ [.title c]) where
  named := split_snoc (h.names_found hflight t) nofun
  unasked hnot := by rcases hnot with ⟨⟨⟩⟩ | ⟨-, ⟨⟩⟩
  announced _ := nofun
  settled _ hnever := absurd (titleAsked_snoc_title trace c) hnever

end Titled

end Entry

end PluginConsole
