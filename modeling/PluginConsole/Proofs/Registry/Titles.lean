import PluginConsole.Proofs.Lifecycle.Titled
import PluginConsole.Proofs.Registry.Activation

/-!
# Names in every run

A component is told the title of its entry when it is initialized, unless that happens while the
title is being found: then it is told the label.
-/

namespace PluginConsole

open Lifecycle

variable {σ α : Type} {quiet : Prop}

theorem EntryEvent.IsSupply.untitled {event : EntryEvent} (h : event.IsSupply) :
    event.Untitled := by
  cases event <;> first | exact trivial | exact h

namespace Registry

open Act

variable {env : Environment σ} {w w' w'' : World σ} {id : EntryId} {among : EntryId → Prop}

/-- The table leads to entries, and each entry has named its component rightly. -/
structure Orderly (quiet : Prop) (w : World σ) : Prop where
  ranged : Ranged w
  unborn : ∀ id, w.entries.length ≤ id → w.eventsOf id = []
  titled : ∀ id, (w.entry id).Titled quiet (w.eventsOf id)

/-- Among these entries, titles are found once, and no component is asked while somebody else is
finding the title. -/
structure Onward (quiet : Prop) (among : EntryId → Prop) (w w' : World σ) : Prop where
  orderly : Orderly quiet w'
  length : w.entries.length ≤ w'.entries.length
  label : ∀ id < w.entries.length, (w'.entry id).label = (w.entry id).label
  source : ∀ id < w.entries.length, (w'.entry id).source = (w.entry id).source
  title : ∀ id, among id → Entry.Retold (w.entry id).title (w'.entry id).title
  asked : ∀ id, among id → TitleAsked (w.eventsOf id) → TitleAsked (w'.eventsOf id)
  waits : ∀ id, among id → (w.entry id).title = .inFlight → TitleAsked (w'.eventsOf id) →
    TitleAsked (w.eventsOf id)

abbrev Anyone (_ : EntryId) : Prop := True

def Tracked (quiet : Prop) (w w' : World σ) : Prop :=
  Orderly quiet w → Onward quiet Anyone w w'

def TrackedAt (quiet : Prop) (id : EntryId) (w w' : World σ) : Prop :=
  Orderly quiet w → id < w.entries.length → Onward quiet Anyone w w'

theorem Orderly.frame (h : Orderly quiet w) (hframe : Frame id w w') (hid : id < w.entries.length)
    (htitled : (w'.entry id).Titled quiet (w'.eventsOf id)) : Orderly quiet w' := by
  refine ⟨?_, fun other hother => ?_, fun other => ?_⟩
  · unfold Ranged snapshot
    rw [hframe.table, hframe.length]
    exact h.ranged
  · rw [hframe.length] at hother
    have hne : other ≠ id := by
      rintro rfl
      exact absurd hid (Nat.not_lt.mpr hother)
    rw [hframe.events other hne]
    exact h.unborn other hother
  · by_cases ho : other = id
    · exact ho ▸ htitled
    · rw [hframe.others other ho, hframe.events other ho]
      exact h.titled other

namespace Onward

theorem refl (h : Orderly quiet w) : Onward quiet among w w where
  orderly := h
  length := Nat.le_refl _
  label _ _ := rfl
  source _ _ := rfl
  title _ _ := .refl _
  asked _ _ h := h
  waits _ _ _ h := h

theorem trans (h : Onward quiet among w w') (h' : Onward quiet among w' w'') :
    Onward quiet among w w'' where
  orderly := h'.orderly
  length := h.length.trans h'.length
  label id hid := (h'.label id (hid.trans_le h.length)).trans (h.label id hid)
  source id hid := (h'.source id (hid.trans_le h.length)).trans (h.source id hid)
  title id ha := (h.title id ha).trans (h'.title id ha)
  asked id ha hasked := h'.asked id ha (h.asked id ha hasked)
  waits id ha hflight hasked :=
    h.waits id ha hflight (h'.waits id ha ((h.title id ha).inFlight hflight) hasked)

theorem others (h : Onward quiet Anyone w w') (id : EntryId) : Onward quiet (· ≠ id) w w' where
  orderly := h.orderly
  length := h.length
  label := h.label
  source := h.source
  title other _ := h.title other trivial
  asked other _ := h.asked other trivial
  waits other _ := h.waits other trivial

theorem ofSame (h : Orderly quiet w) (hentries : w'.entries = w.entries)
    (hhistory : w'.history = w.history) (hranged : Ranged w') : Onward quiet among w w' := by
  have hentry := World.entry_congr hentries
  have hevents := World.eventsOf_congr hhistory
  refine ⟨⟨hranged, fun id hid => ?_, fun id => ?_⟩, hentries ▸ Nat.le_refl _, fun id _ => ?_,
    fun id _ => ?_, fun id _ => ?_, fun id _ => ?_, fun id _ _ => ?_⟩
  · rw [hevents]
    exact h.unborn id (hentries ▸ hid)
  · rw [hentry, hevents]
    exact h.titled id
  · rw [hentry]
  · rw [hentry]
  · rw [hentry]
    exact .refl _
  · rw [hevents]
    exact fun hasked => hasked
  · rw [hevents]
    exact fun hasked => hasked

theorem ofFrame (hframe : Frame id w w') (horderly : Orderly quiet w') :
    Onward quiet (· ≠ id) w w' := by
  refine ⟨horderly, hframe.length.ge, fun other _ => ?_, fun other _ => ?_, fun other ho => ?_,
    fun other ho => ?_, fun other ho _ => ?_⟩
  · by_cases ho : other = id
    · exact ho ▸ hframe.label
    · rw [hframe.others other ho]
  · by_cases ho : other = id
    · exact ho ▸ hframe.source
    · rw [hframe.others other ho]
  · rw [hframe.others other ho]
    exact .refl _
  · rw [hframe.events other ho]
    exact fun hasked => hasked
  · rw [hframe.events other ho]
    exact fun hasked => hasked

theorem withSelf (h : Onward quiet (· ≠ id) w w')
    (htitle : Entry.Retold (w.entry id).title (w'.entry id).title)
    (hasked : TitleAsked (w.eventsOf id) → TitleAsked (w'.eventsOf id))
    (hwaits : (w.entry id).title = .inFlight → TitleAsked (w'.eventsOf id) →
      TitleAsked (w.eventsOf id)) : Onward quiet Anyone w w' := by
  refine ⟨h.orderly, h.length, h.label, h.source, fun other _ => ?_, fun other _ => ?_,
    fun other _ => ?_⟩
  all_goals by_cases ho : other = id
  · exact ho ▸ htitle
  · exact h.title other ho
  · exact ho ▸ hasked
  · exact h.asked other ho
  · exact ho ▸ hwaits
  · exact h.waits other ho

end Onward

/-! ## Single steps -/

section Steps

variable (horderly : Orderly quiet w)
include horderly

theorem onward_withOutside (s : σ) : Onward quiet among w (w.withOutside s) :=
  .ofSame horderly rfl rfl horderly.ranged

theorem onward_log (log : List Notice) : Onward quiet among w { w with log } :=
  .ofSame horderly rfl rfl horderly.ranged

variable (hid : id < w.entries.length)
include hid

theorem onward_recorded {event : EntryEvent} (hother : ∀ c, event ≠ .title c)
    (hnames : ∀ c ref config, event = .init c ref config →
      (w.entry id).Names quiet (w.eventsOf id) config.name) :
    Onward quiet Anyone w (w.recorded id event) := by
  have htitled := (horderly.titled id).snoc hother hnames
  rw [← World.eventsOf_recorded_self] at htitled
  have hframe : Frame id w (w.recorded id event) := Frame.recorded event w
  refine (Onward.ofFrame hframe (horderly.frame hframe hid htitled)).withSelf (.refl _) ?_ ?_
  all_goals rw [World.eventsOf_recorded_self, titleAsked_snoc hother]
  · exact fun hasked => hasked
  · exact fun _ hasked => hasked

theorem onward_untitled {event : EntryEvent} (hplain : event.Untitled) :
    Onward quiet Anyone w (w.recorded id event) := by
  refine onward_recorded horderly hid ?_ ?_
  · rintro c rfl
    exact hplain
  · rintro c ref config rfl
    exact hplain.elim

theorem onward_written {f : Entry → Entry} (hsame : Entry.SameTitle (w.entry id) (f (w.entry id))) :
    Onward quiet Anyone w (w.modifyEntry id f) := by
  have hentry := World.entry_modifyEntry_self f w hid
  have hframe : Frame id w (w.modifyEntry id f) :=
    Frame.modifyEntry hsame.label hsame.source hsame.disposed
  have htitled : ((w.modifyEntry id f).entry id).Titled quiet (w.eventsOf id) := by
    rw [hentry]
    exact (horderly.titled id).same hsame.label hsame.source hsame.title
  refine (Onward.ofFrame hframe (horderly.frame hframe hid htitled)).withSelf ?_ (fun h => h)
    fun _ h => h
  rw [hentry, hsame.title]
  exact .refl _

end Steps

/-! ## The component -/

structure Nominates (quiet : Prop) (id : EntryId) (may : World σ → Prop)
    (titleOf : Act σ String) : Prop where
  stays {w w' : World σ} (h : Onward quiet Anyone w w') (hid : id < w.entries.length)
    (hmay : may w) : may w'
  names {w : World σ} (horderly : Orderly quiet w) (hid : id < w.entries.length) (hmay : may w) :
    Ends titleOf w fun name w' => Onward quiet Anyone w w' ∧
      (w'.entry id).Names quiet (w'.eventsOf id) name

section Entries

variable (hcode : env.code.Respects (Tracked quiet))
include hcode

theorem tracked_dismantled (id : EntryId) : Dismantled env id (TrackedAt quiet id) where
  refl _ horderly _ := .refl horderly
  trans h h' horderly hid :=
    (h horderly hid).trans (h' (h horderly hid).orderly (hid.trans_le (h horderly hid).length))
  code := hcode.mono fun _ _ h horderly _ => h horderly
  log _ log horderly _ := onward_log horderly log
  records _ _ hsupply horderly hid := onward_untitled horderly hid hsupply.untitled
  count _ horderly _ := .ofSame horderly rfl rfl horderly.ranged
  write _ _ hsame horderly hid := onward_written horderly hid (hsame _).toSameTitle
  getService _ _ horderly _ := onward_withOutside horderly _
  releaseService _ _ horderly _ := onward_withOutside horderly _
  destroys _ _ horderly hid := onward_untitled horderly hid trivial

variable (horderly : Orderly quiet w) (hid : id < w.entries.length)
include horderly hid

theorem initComponent_onward {may : World σ → Prop} {titleOf : Act σ String}
    (hnominates : Nominates quiet id may titleOf) (hmay : may w) (c : Component)
    (ref : ContextRef) :
    Ends (initComponent env titleOf id c ref) w fun _ w' => Onward quiet Anyone w w' := by
  unfold initComponent
  rw [ends_bind]
  refine (hnominates.names horderly hid hmay).imp ?_
  rintro name w₁ ⟨hnamed, hnames⟩
  have hid₁ := hid.trans_le hnamed.length
  simp only [ends_bind, ends_entry, ends_record]
  have htold : Onward quiet Anyone w₁ (w₁.recorded id (.init c ref
      { name, context := ref.context, reference := (w₁.entry id).source.reference })) := by
    refine onward_recorded hnamed.orderly hid₁ ?_ ?_
    · rintro _ ⟨⟩
    · rintro _ _ _ ⟨⟩
      exact hnames
  refine (((tracked_dismantled hcode id).callInit c _).ends _).imp fun done w₂ hcalled => ?_
  have hdone := hnamed.trans (htold.trans (hcalled htold.orderly (hid₁.trans_le htold.length)))
  rcases done with f | _ <;> exact hdone

theorem componentNamed_onward {may : World σ → Prop} {titleOf : Act σ String}
    (hnominates : Nominates quiet id may titleOf) (hmay : may w) :
    Ends (componentNamed env titleOf id) w fun _ w' => Onward quiet Anyone w w' := by
  unfold componentNamed
  rw [ends_bind]
  refine ((tracked_dismantled hcode id).resolve.ends w).imp fun found w₁ hresolved => ?_
  have hresolved := hresolved horderly hid
  have hid₁ := hid.trans_le hresolved.length
  rcases found with _ | c
  · exact hresolved
  simp only [ends_bind, ends_get]
  split
  · exact hresolved
  rename_i ref _
  rw [ends_bind]
  refine (((tracked_dismantled hcode id).claimBinding c ref).ends w₁).imp fun claimed w₂ hclaimed => ?_
  have hclaimed := hresolved.trans (hclaimed hresolved.orderly hid₁)
  have hid₂ := hid.trans_le hclaimed.length
  cases claimed with
  | false => exact hclaimed
  | true =>
    simp only [if_true, ends_bind]
    have hmay₂ : may w₂ := hnominates.stays hclaimed hid hmay
    refine (initComponent_onward hcode hclaimed.orderly hid₂ hnominates hmay₂ c ref).imp ?_
    intro done w₃ hdone
    have hdone := hclaimed.trans hdone
    rcases done with f | _
    · simp only [ends_bind, ends_entry, ends_note, ends_pure]
      exact hdone.trans (onward_log hdone.orderly _)
    · exact hdone

/-! ## The title -/

/-- The entry is looking for its title, and its component was not asked yet. -/
structure Seeking (id : EntryId) (label : String) (w : World σ) : Prop where
  label : (w.entry id).label = label
  silent : ¬ (w.entry id).Announced
  inFlight : (w.entry id).title = .inFlight
  unasked : ¬ TitleAsked (w.eventsOf id)

omit hcode horderly hid in
theorem nominates_label (quiet : Prop) (id : EntryId) (label : String) :
    Nominates quiet id (Seeking id label) (pure label : Act σ String) where
  stays {w w'} h hid hseeking := by
    refine ⟨(h.label id hid).trans hseeking.label, ?_,
      (h.title id trivial).inFlight hseeking.inFlight,
      fun hasked => hseeking.unasked (h.waits id trivial hseeking.inFlight hasked)⟩
    unfold Entry.Announced
    rw [h.source id hid]
    exact hseeking.silent
  names {w} horderly _ hseeking := by
    have hbegun : (w.entry id).title ≠ .empty := by simp [hseeking.inFlight]
    refine ⟨.refl horderly, hbegun, Or.inl hseeking.label.symm, ?_,
      fun _ _ => hseeking.label.symm⟩
    rintro (hannounced | ⟨-, hasked⟩)
    · exact absurd hannounced hseeking.silent
    · exact absurd hasked hseeking.unasked

/-- The component may be found, initialized and asked. Any title will do if it was asked, and only
the label if it was not. -/
theorem resolveTitle_onward (hquiet : quiet → env.code.Spares fun _ => ()) {label : String}
    (hseeking : Seeking id label w) :
    Ends (resolveTitle env id) w fun found w' => ∃ w₁, Onward quiet (· ≠ id) w w₁ ∧
      Frame id w₁ w' ∧ ∀ t, (found = none → t = label) →
        ({ w'.entry id with title := .resolved t } : Entry).Titled quiet (w'.eventsOf id) := by
  unfold resolveTitle
  simp only [ends_bind, ends_entry]
  split
  · rename_i t hproperty
    exact absurd (by rw [Entry.Announced, hproperty]; rfl) hseeking.silent
  rw [hseeking.label, ends_bind]
  have hnominates := nominates_label (σ := σ) quiet id label
  refine (componentNamed_onward hcode horderly hid hnominates hseeking).imp fun found w₁ hfound => ?_
  have hseeking₁ := hnominates.stays hfound hid hseeking
  have htitled₁ := hfound.orderly.titled id
  rcases found with _ | c
  · refine ⟨w₁, hfound.others id, .refl _, fun t ht => ?_⟩
    refine htitled₁.found hseeking₁.inFlight fun _ => ?_
    rw [ht rfl, hseeking₁.label]
  simp only [ends_bind, ends_record]
  by_cases hq : quiet
  · refine (callTitle_spares (hquiet hq) c).ends fun done s _ => ?_
    have htitled (t : String) : ({ w₁.entry id with title := .resolved t } : Entry).Titled quiet
        ((w₁.recorded id (.title c)).eventsOf id) := by
      rw [World.eventsOf_recorded_self]
      exact htitled₁.answered hseeking₁.inFlight c t
    have hframe : Frame id w₁ ((w₁.recorded id (.title c)).withOutside s) :=
      (Frame.recorded _ w₁).trans (Frame.withOutside s _)
    rcases done with f | t
    all_goals exact ⟨w₁, hfound.others id, hframe, fun t _ => htitled t⟩
  · -- The code may come back while it is asked: the title is in flight for it, too.
    have hid₁ := hid.trans_le hfound.length
    have hrecorded : Frame id w₁ (w₁.recorded id (.title c)) := Frame.recorded _ w₁
    have horderly₂ : Orderly quiet (w₁.recorded id (.title c)) := by
      refine hfound.orderly.frame hrecorded hid₁ ?_
      rw [World.eventsOf_recorded_self]
      exact htitled₁.snoc_title hq hseeking₁.inFlight c
    have hasked : TitleAsked ((w₁.recorded id (.title c)).eventsOf id) := by
      rw [World.eventsOf_recorded_self]
      exact titleAsked_snoc_title _ c
    refine (((tracked_dismantled hcode id).callTitle c).ends _).imp fun done w₂ hcalled => ?_
    have hcalled := hcalled horderly₂ hid₁
    have honward : Onward quiet (· ≠ id) w w₂ :=
      (hfound.others id).trans ((Onward.ofFrame hrecorded horderly₂).trans (hcalled.others id))
    have hflight : (w₂.entry id).title = .inFlight :=
      (hcalled.title id trivial).inFlight hseeking₁.inFlight
    have htitled (t : String) :=
      (hcalled.orderly.titled id).found (t := t) hflight
        fun hnever => absurd (hcalled.asked id trivial hasked) hnever
    rcases done with f | t
    all_goals exact ⟨w₂, honward, .refl _, fun t _ => htitled t⟩

omit hcode horderly in
theorem onward_resolved {w₁ w₂ : World σ} {t : String} (hempty : (w.entry id).title = .empty)
    (hunasked : ¬ TitleAsked (w.eventsOf id)) (h : Onward quiet (· ≠ id) w w₁)
    (hframe : Frame id w₁ w₂)
    (hfound : ({ w₂.entry id with title := .resolved t } : Entry).Titled quiet (w₂.eventsOf id)) :
    let w' := w₂.modifyEntry id fun e => { e with title := .resolved t }
    Onward quiet Anyone w w' ∧ (w'.entry id).Names quiet (w'.eventsOf id) t := by
  intro w'
  have hid₁ : id < w₁.entries.length := hid.trans_le h.length
  have hentry : w'.entry id = { w₂.entry id with title := .resolved t } :=
    World.entry_modifyEntry_self _ w₂ (hframe.length ▸ hid₁)
  have htitled : (w'.entry id).Titled quiet (w'.eventsOf id) := hentry ▸ hfound
  have hresolved : (w'.entry id).title = .resolved t := by rw [hentry]
  have hback : Frame id w₁ w' := hframe.trans (Frame.modifyEntry rfl rfl fun hd => hd)
  refine ⟨?_, htitled.names_resolved hresolved⟩
  refine (h.trans (.ofFrame hback (h.orderly.frame hback hid₁ htitled))).withSelf ?_ ?_ ?_
  · exact Or.inr ⟨hempty, t, hresolved⟩
  · exact fun hasked => absurd hasked hunasked
  · intro hflight
    rw [hempty] at hflight
    cases hflight

theorem title_onward (hquiet : quiet → env.code.Spares fun _ => ()) :
    Ends (title env id) w fun name w' => Onward quiet Anyone w w' ∧
      (w'.entry id).Names quiet (w'.eventsOf id) name := by
  have htitled := horderly.titled id
  unfold title claimTitle
  simp only [ends_bind, ends_entry]
  split
  · rename_i t htitle
    exact ⟨.refl horderly, htitled.names_resolved htitle⟩
  · rename_i hflight
    exact ⟨.refl horderly, htitled.names_inFlight hflight⟩
  rename_i hempty
  simp only [ends_bind, ends_modifyEntry, ends_pure]
  have hunasked := htitled.unasked (Or.inl hempty)
  have hentry := World.entry_modifyEntry_self (fun e => { e with title := .inFlight }) w hid
  have hclaimed : Frame id w (w.modifyEntry id fun e => { e with title := .inFlight }) :=
    Frame.modifyEntry rfl rfl fun hd => hd
  have hevents : (w.modifyEntry id fun e => { e with title := .inFlight }).eventsOf id =
    w.eventsOf id := rfl
  generalize w.modifyEntry id (fun e => { e with title := .inFlight }) = w₀
    at hentry hclaimed hevents ⊢
  have hid₀ : id < w₀.entries.length := hclaimed.length ▸ hid
  by_cases hannounced : (w.entry id).Announced
  · obtain ⟨t, ht⟩ := Option.isSome_iff_exists.mp hannounced
    have hsource : (w₀.entry id).source = (w.entry id).source := hclaimed.source
    unfold resolveTitle
    simp only [ends_bind, ends_entry, hsource, ht, ends_pure]
    refine onward_resolved hid hempty hunasked (.refl horderly) hclaimed ?_
    rw [hentry, hevents]
    exact htitled.announce hempty hannounced _
  · have htitled₀ : (w₀.entry id).Titled quiet (w₀.eventsOf id) := by
      rw [hentry, hevents]
      exact htitled.claim hempty hannounced
    have horderly₀ := horderly.frame hclaimed hid htitled₀
    have hseeking : Seeking id (w.entry id).label w₀ := by
      refine ⟨hclaimed.label, ?_, by rw [hentry], hevents ▸ hunasked⟩
      unfold Entry.Announced
      rw [hclaimed.source]
      exact hannounced
    refine (resolveTitle_onward hcode horderly₀ hid₀ hquiet hseeking).imp ?_
    rintro found w₂ ⟨w₁, honward, hframe, hfound⟩
    have hsought := (Onward.ofFrame hclaimed horderly₀).trans honward
    refine onward_resolved hid hempty hunasked hsought hframe (hfound _ ?_)
    rintro rfl
    rfl

/-! ## Whatever an entry is asked for -/

omit horderly hid in
theorem nominates_title (hquiet : quiet → env.code.Spares fun _ => ()) (id : EntryId) :
    Nominates quiet id (fun _ => True) (title env id) where
  stays _ _ _ := trivial
  names horderly hid _ := title_onward hcode horderly hid hquiet

omit horderly hid in
theorem component_tracked (hquiet : quiet → env.code.Spares fun _ => ()) (id : EntryId) :
    (component env id).Respects (TrackedAt quiet id) :=
  fun _ horderly hid =>
    componentNamed_onward hcode horderly hid (nominates_title hcode hquiet id) trivial

omit horderly hid in
theorem category_tracked (hquiet : quiet → env.code.Spares fun _ => ()) (id : EntryId) :
    (category env id).Respects (TrackedAt quiet id) := by
  have h := tracked_dismantled hcode id
  refine h.toBehaved.category (component_tracked hcode hquiet id) (fun w c => ?_) fun w c => ?_
  · exact fun horderly hid => onward_untitled horderly hid trivial
  · exact fun horderly hid => onward_written horderly hid ⟨rfl, rfl, rfl, fun hd => hd⟩

theorem init_onward (hquiet : quiet → env.code.Spares fun _ => ()) (ref : ContextRef) :
    Ends (init env id ref) w fun _ w' => Onward quiet Anyone w w' := by
  unfold init
  simp only [ends_bind, ends_entry]
  split
  · exact .refl horderly
  rename_i x _
  rw [ends_bind]
  refine (((tracked_dismantled hcode id).claimBinding x.component ref).ends w).imp fun claimed w₁ hclaimed => ?_
  have hclaimed := hclaimed horderly hid
  cases claimed with
  | false => exact hclaimed
  | true =>
    have hid₁ := hid.trans_le hclaimed.length
    refine (initComponent_onward hcode hclaimed.orderly hid₁ (nominates_title hcode hquiet id)
      trivial _ ref).imp fun _ _ hdone => ?_
    exact hclaimed.trans hdone

end Entries

/-! ## Everything else -/

theorem onward_entered (horderly : Orderly quiet w) (label : String) (source : Source) :
    Onward quiet Anyone w (w.entered { label, source }) := by
  have hunborn : w.eventsOf w.entries.length = [] := horderly.unborn _ (Nat.le_refl _)
  refine ⟨⟨ranged_entered horderly.ranged _, fun id hid => ?_, fun id => ?_⟩, ?_, fun id hid => ?_,
    fun id hid => ?_, fun id _ => ?_, fun _ _ h => h, fun _ _ _ h => h⟩
  · rw [World.length_entered] at hid
    exact horderly.unborn id (Nat.le_of_succ_le hid)
  · rw [World.entry_entered]
    split
    · rename_i h
      rw [h, show (w.entered { label, source }).eventsOf w.entries.length = [] from hunborn]
      exact .fresh rfl
    · exact horderly.titled id
  · rw [World.length_entered]
    exact Nat.le_succ _
  · rw [World.entry_entered_of_lt hid]
  · rw [World.entry_entered_of_lt hid]
  · rw [(World.texts_entered label source id w).1]
    exact .refl _

theorem tracked_governed {own : σ → σ → Prop} (hwithin : env.directory.Within own)
    (hcode : env.code.Respects (Tracked quiet)) (hquiet : quiet → env.code.Spares fun _ => ()) :
    Governed env own (Orderly quiet) (fun w id => Orderly quiet w ∧ id < w.entries.length)
      (Tracked quiet) where
  refl _ := .refl
  trans h h' horderly := (h horderly).trans (h' (h horderly).orderly)
  aside _ _ horderly := .ofSame horderly rfl rfl horderly.ranged
  stays h hmay := ⟨(h hmay.1).orderly, hmay.2.trans_le (h hmay.1).length⟩
  keeps h hready := (h hready).orderly
  listed hready id hmem := ⟨hready, hready.ranged id hmem⟩
  component {w id} hmay :=
    ((component_tracked hcode hquiet id).ends w).imp fun _ _ h _ => h hmay.1 hmay.2
  title hmay := (title_onward hcode hmay.1 hmay.2 hquiet).imp fun _ _ h _ => h.1
  category {w id} hmay :=
    ((category_tracked hcode hquiet id).ends w).imp fun _ _ h _ => h hmay.1 hmay.2
  init hmay ref := (init_onward hcode hmay.1 hmay.2 hquiet ref).imp fun _ _ h _ => h
  destroy {w id} hmay :=
    ((tracked_dismantled hcode id).destroy.ends w).imp fun _ _ h _ => h hmay.1 hmay.2
  dispose {w id} hmay :=
    ((tracked_dismantled hcode id).dispose.ends w).imp fun _ _ h _ => h hmay.1 hmay.2
  log _ log horderly := onward_log horderly log
  count _ horderly := .ofSame horderly rfl rfl horderly.ranged
  within := hwithin
  settings _ _ _ _ horderly := .ofSame horderly rfl rfl horderly.ranged
  forgets _ horderly := .ofSame horderly rfl rfl horderly.ranged
  attaches _ _ horderly := .ofSame horderly rfl rfl horderly.ranged
  outside _ horderly := onward_withOutside horderly _
  enter _ label source horderly := onward_entered horderly label source
  entered {w} hready label source := by
    refine ⟨(onward_entered hready label source).orderly, ?_⟩
    rw [World.length_entered]
    exact Nat.lt_succ_self _
  table _ hmay horderly := .ofSame horderly rfl rfl fun id hmem => (hmay id hmem).2

/-! ## Every run -/

theorem orderly_fresh (s : σ) : Orderly quiet ({ outside := s } : World σ) where
  ranged _ hmem := absurd hmem List.not_mem_nil
  unborn _ _ := rfl
  titled _ := .fresh rfl

theorem CallsBack.tracked {depth : Nat} {code : PluginCode σ} (h : CallsBack env depth code) :
    code.Respects (Tracked False) := by
  induction depth generalizing code with
  | zero => exact h.respects fun w s _ horderly => onward_withOutside horderly s
  | succ depth ih =>
    refine PluginCode.Respects.mono h ?_
    rintro w w' ⟨inner, calls, hinner, -, rfl⟩ horderly
    have hgoverned : Governed { env with code := inner } (fun _ _ => True) _ _ (Tracked False) :=
      tracked_governed env.directory.within_any (ih hinner) False.elim
    exact hgoverned.run (fun hready hid => ⟨hready, hid⟩) horderly calls horderly

/-- In every run, an entry that initialized its component once has a title, and keeps it for good.
The component is told this title, or else the label. It is told the title if the registration brings
one, and the label if not and it was not asked for the title before. As long as plugin code does not
call back, nothing else counts: the name is the title just if the registration brings it, if the
component was asked for it before, or if the title is the label anyway. -/
theorem run_named {depth : Nat} (hcode : CallsBack env depth env.code) (s : σ)
    (calls : List (Call σ)) (id : EntryId) (before after : List EntryEvent) (c : Component)
    (ref : ContextRef) (config : InitConfig)
    (hinit : (run env calls { outside := s }).eventsOf id = before ++ .init c ref config :: after) :
    let w := run env calls { outside := s }
    let e := w.entry id
    ∃ t, (∀ more, title env id (run env more w) = (t, run env more w)) ∧
      (config.name = t ∨ config.name = e.label) ∧
      (e.Announced → config.name = t) ∧
      (¬ e.Announced → ¬ TitleAsked before → config.name = e.label) ∧
      (env.code.Spares (fun _ => ()) →
        (config.name = t ↔ e.Announced ∨ TitleAsked before ∨ t = e.label)) := by
  intro w e
  have hrun {quiet : Prop} {w₁ : World σ} (hcode : env.code.Respects (Tracked quiet))
      (hquiet : quiet → env.code.Spares fun _ => ()) (horderly : Orderly quiet w₁)
      (calls : List (Call σ)) : Onward quiet Anyone w₁ (run env calls w₁) :=
    (tracked_governed env.directory.within_any hcode hquiet).run
      (fun hready hid => ⟨hready, hid⟩) horderly calls horderly
  have hloud := hrun hcode.tracked False.elim (orderly_fresh s) calls
  have hnames := (hloud.orderly.titled id).named before _ after hinit c ref config rfl
  -- Where nothing is under way, no title is being found.
  obtain ⟨t, ht⟩ : ∃ t, e.title = .resolved t := by
    rcases hloud.title id trivial with hempty | ⟨-, hfound⟩
    · exact absurd hempty hnames.begun
    · exact hfound
  have hsame {name : String} (h : e.title = .resolved name) : name = t := by
    rw [ht] at h
    cases h
    rfl
  have hknown : config.name = t ∨ config.name = e.label := hnames.known.symm.imp_left hsame
  have hannounced (h : e.Announced) : config.name = t := hsame (hnames.sure (Or.inl h))
  refine ⟨t, fun more => ?_, hknown, hannounced, hnames.early, fun hspares => ⟨?_, ?_⟩⟩
  · have hmore := hrun hcode.tracked False.elim hloud.orderly more
    exact title_of_resolved ((hmore.title id trivial).resolved ht)
  · rintro rfl
    by_cases h : e.Announced ∨ TitleAsked before
    · exact h.imp_right Or.inl
    · rw [not_or] at h
      exact Or.inr (Or.inr (hnames.early h.1 h.2))
  · have hquiet : env.code.Respects (Tracked True) :=
      hspares.respects fun w s _ horderly => onward_withOutside horderly s
    have hstill := (hrun hquiet (fun _ => hspares) (orderly_fresh s) calls).orderly.titled id
    have hsure := (hstill.named before _ after hinit c ref config rfl).sure
    rintro (h | h | rfl)
    · exact hannounced h
    · exact hsame (hsure (Or.inr ⟨trivial, h⟩))
    · exact hknown.elim (fun h => h) fun h => h

def entitled : PluginCode (Site Nat) :=
  { PluginCode.still with title := fun _ => return .ok "A" }

def attached : List (Call (Site Nat)) :=
  [.registry (.addDirect "f" "a"), .registry (.setContext (some ⟨"x", []⟩))]

theorem lookedUp_named :
    let env := Site.environment entitled
    let w := run env (attached ++ [.registry (.lookup "a")]) { outside := ⟨{}, ⟨"", []⟩, 0⟩ }
    let p := Component.plugin (.made "f" 0)
    w.eventsOf 0 = [.create "f", .activate (.made "f" 0), .activated (.made "f" 0), .acquired p,
        .title p, .init p ⟨0, ⟨"x", []⟩⟩ ⟨"A", ⟨"x", []⟩, none⟩] ∧
      title env 0 w = ("A", w) := by
  have hspares : entitled.Spares fun _ : Site Nat => () := by
    constructor <;> intros <;> exact Act.Spares.pure _
  have hcode : CallsBack (Site.environment entitled) 0 entitled := hspares
  -- The run is evaluated while it still stands in full.
  have hevents : (run (Site.environment entitled) (attached ++ [.registry (.lookup "a")])
      { outside := ⟨{}, ⟨"", []⟩, 0⟩ }).eventsOf 0 = [.create "f", .activate (.made "f" 0),
        .activated (.made "f" 0), .acquired (.plugin (.made "f" 0)),
        .title (.plugin (.made "f" 0)),
        .init (.plugin (.made "f" 0)) ⟨0, ⟨"x", []⟩⟩ ⟨"A", ⟨"x", []⟩, none⟩] := rfl
  intro env w p
  obtain ⟨t, htitle, -, -, -, hexact⟩ :=
    run_named hcode _ _ 0 [.create "f", .activate (.made "f" 0), .activated (.made "f" 0),
      .acquired p, .title p] _ _ _ _ hevents
  have hname : "A" = t := (hexact hspares).mpr (Or.inr (Or.inl ⟨p, List.mem_of_getLast? rfl⟩))
  have hlast := htitle []
  rw [run_nil, ← hname] at hlast
  exact ⟨hevents, hlast⟩

/-- Whoever is asked for the title first is initialized on the way, and told the label. -/
theorem asked_misnamed :
    let env := Site.environment entitled
    let w := run env (attached ++ [.entry 0 .title]) { outside := ⟨{}, ⟨"", []⟩, 0⟩ }
    let p := Component.plugin (.made "f" 0)
    w.eventsOf 0 = [.create "f", .activate (.made "f" 0), .activated (.made "f" 0), .acquired p,
        .init p ⟨0, ⟨"x", []⟩⟩ ⟨"a", ⟨"x", []⟩, none⟩, .title p] ∧
      title env 0 w = ("A", w) :=
  ⟨rfl, rfl⟩

end Registry

end PluginConsole
