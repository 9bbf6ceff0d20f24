import PluginConsole.Proofs.Lifecycle.Course
import PluginConsole.Proofs.Lifecycle.Respect

/-!
# What becomes of an entry that is asked

The texts of an entry are found once, and so is its component, which is then initialized against the
attached context. Here stands exactly what an entry remembers of all this.
-/

open Relation (ReflTransGen)

namespace PluginConsole

theorem Source.filter_property {s : Source} {key text : String} (h : s.property key = some text) :
    (some text).filter (· ≠ "") = some text := by
  unfold property at h
  rw [← h, Option.filter_filter]
  simp

/-! ## Effects on an entry -/

/-- A binding after the component was asked for under a context. -/
def rebound (context bound : Option ContextRef) : Option ContextRef :=
  match context with
  | none => bound
  | some ref => if bound.any (·.serial == ref.serial) then bound else some ref

@[simp] theorem rebound_none (context : Option ContextRef) : rebound context none = context := by
  cases context <;> rfl

@[simp] theorem rebound_rebound (context bound : Option ContextRef) :
    rebound context (rebound context bound) = rebound context bound := by
  cases context with
  | none => rfl
  | some ref =>
    unfold rebound
    by_cases h : bound.any (·.serial == ref.serial) = true
    · simp only [h, if_true]
    · simp [h]

namespace Warm

def rebind (ref : ContextRef) (x : Warm) : Warm :=
  { x with bound := rebound (some ref) x.bound }

def unbind (x : Warm) : Warm :=
  { x with bound := none }

@[simp] theorem rebind_rebind (ref : ContextRef) (x : Warm) :
    (x.rebind ref).rebind ref = x.rebind ref := by
  simp [rebind]

@[simp] theorem unbind_unbind (x : Warm) : x.unbind.unbind = x.unbind := rfl

end Warm

namespace Entry

def rearm (armed : Bool) (e : Entry) : Entry :=
  { e with armed }

def mark (e : Entry) : Entry :=
  { e with broken := true }

/-- The component of an entry and the mark of a failed search, before and after. `allows` are the
outcomes that a search for the component may have. -/
inductive Slot (context : Option ContextRef) (allows : Bool → Prop) (disposed : Bool) :
    Option Warm → Bool → Option Warm → Bool → Prop where
  | same (warm : Option Warm) (broken : Bool) : Slot context allows disposed warm broken warm broken
  | missed (broken : Bool) (hlive : disposed = false) (hallows : allows false) :
    Slot context allows disposed none broken none true
  | found (broken : Bool) (c : Component) (hlive : disposed = false) (hallows : allows true) :
    Slot context allows disposed none broken (some ⟨c, context⟩) false
  | bound (broken : Bool) (c : Component) (bound : Option ContextRef) :
    Slot context allows disposed (some ⟨c, bound⟩) broken (some ⟨c, context⟩) broken

def Retold (before after : Cached) : Prop :=
  after = before ∨ (before = .empty ∧ ∃ t, after = .resolved t)

/-- An entry before and after it was asked. A category comes from the registration or from
the component. -/
structure Consulted (context : Option ContextRef) (allows : Bool → Prop) (e e' : Entry) :
    Prop where
  label : e'.label = e.label
  source : e'.source = e.source
  disposed : e'.disposed = e.disposed
  title : Retold e.title e'.title
  category : e'.category = e.category ∨ (e.category = .empty ∧ ∃ c, e'.category = .resolved c ∧
    ((e.source.property Property.category).isSome ∨ e'.warm.isSome))
  slot : Slot context allows e.disposed e.warm e.broken e'.warm e'.broken

/-- A context was attached: a component is bound to it, and the title may have been wanted. -/
def Attached (ref : ContextRef) (e e' : Entry) : Prop :=
  ∃ t, Retold e.title t ∧ e' = { e with title := t, warm := e.warm.map (Warm.rebind ref) }

def Detached (e e' : Entry) : Prop :=
  e' = { e with warm := e.warm.map Warm.unbind }

/-- A search was made: there is a component, or the entry is marked. -/
def Tried (allows : Bool → Prop) (e : Entry) : Prop :=
  e.warm = none → e.broken = true ∧ allows false

variable {context : Option ContextRef} {allows : Bool → Prop} {e e' e'' : Entry}

theorem Retold.refl (t : Cached) : Retold t t := Or.inl rfl

theorem Retold.trans {a b c : Cached} (h : Retold a b) (h' : Retold b c) : Retold a c := by
  rcases h with rfl | ⟨rfl, t, rfl⟩
  · exact h'
  · rcases h' with rfl | ⟨hempty, -⟩
    · exact Or.inr ⟨rfl, t, rfl⟩
    · cases hempty

theorem Retold.inFlight {a b : Cached} (h : Retold a b) (hflight : a = .inFlight) :
    b = .inFlight := by
  rcases h with hsame | ⟨hempty, -⟩
  · rw [hsame, hflight]
  · rw [hflight] at hempty
    cases hempty

theorem Retold.not_inFlight {a b : Cached} (h : Retold a b) (hfree : a ≠ .inFlight) :
    b ≠ .inFlight := by
  rcases h with rfl | ⟨-, t, rfl⟩
  · exact hfree
  · simp

theorem Retold.resolved {a b : Cached} (h : Retold a b) {t : String}
    (hresolved : a = .resolved t) : b = .resolved t := by
  rcases h with hsame | ⟨hempty, -⟩
  · rw [hsame, hresolved]
  · rw [hresolved] at hempty
    cases hempty

theorem Attached.trans {ref : ContextRef} (h : Attached ref e e') (h' : Attached ref e' e'') :
    Attached ref e e'' := by
  obtain ⟨t, ht, rfl⟩ := h
  obtain ⟨t', ht', rfl⟩ := h'
  refine ⟨t', ht.trans ht', ?_⟩
  simp [Option.map_map, Function.comp_def]

theorem Detached.trans (h : Detached e e') (h' : Detached e' e'') : Detached e e'' := by
  cases h
  cases h'
  simp [Detached, Option.map_map, Function.comp_def]

theorem Slot.trans {disposed : Bool} {warm warm' warm'' : Option Warm} {broken broken' broken'' : Bool}
    (h : Slot context allows disposed warm broken warm' broken')
    (h' : Slot context allows disposed warm' broken' warm'' broken'') :
    Slot context allows disposed warm broken warm'' broken'' := by
  cases h with
  | same => exact h'
  | missed _ hlive hallows =>
    cases h' with
    | same => exact .missed broken hlive hallows
    | missed => exact .missed broken hlive hallows
    | found _ c _ hfound => exact .found broken c hlive hfound
  | found _ c hlive hallows =>
    cases h' with
    | same => exact .found broken c hlive hallows
    | bound => exact .found broken c hlive hallows
  | bound _ c bound =>
    cases h' with
    | same => exact .bound broken c bound
    | bound => exact .bound broken c bound

theorem Slot.bound_or {disposed : Bool} {warm warm' : Option Warm} {broken broken' : Bool} {x : Warm}
    (h : Slot context allows disposed warm broken warm' broken') (hwarm : warm' = some x) :
    x.bound = context ∨ warm = some x := by
  cases h with
  | same => exact Or.inr hwarm
  | missed => cases hwarm
  | found | bound =>
    cases hwarm
    exact Or.inl rfl

theorem Slot.isSome {disposed : Bool} {warm warm' : Option Warm} {broken broken' : Bool}
    (h : Slot context allows disposed warm broken warm' broken') (hwarm : warm.isSome) :
    warm'.isSome := by
  cases h with
  | same => exact hwarm
  | missed => exact hwarm
  | found | bound => rfl

theorem Consulted.refl (e : Entry) : Consulted context allows e e :=
  ⟨rfl, rfl, rfl, .refl _, Or.inl rfl, .same _ _⟩

theorem Consulted.trans (h : Consulted context allows e e') (h' : Consulted context allows e' e'') :
    Consulted context allows e e'' := by
  have hslot := h'.slot
  have hcategory := h'.category
  rw [h.disposed] at hslot
  rw [h.source] at hcategory
  refine ⟨h'.label.trans h.label, h'.source.trans h.source, h'.disposed.trans h.disposed,
    h.title.trans h'.title, ?_, h.slot.trans hslot⟩
  rcases h.category with hsame | ⟨hempty, c, hc, hfrom⟩
  · rw [hsame] at hcategory
    exact hcategory
  · right
    refine ⟨hempty, c, ?_, hfrom.imp_right hslot.isSome⟩
    rcases hcategory with hsame | ⟨hnone, -⟩
    · exact hsame.trans hc
    · rw [hc] at hnone
      cases hnone

end Entry

namespace Lifecycle

open Act Entry

variable {σ δ : Type} {env : Environment σ} {view : σ → δ} {id : EntryId} {w w' : World σ}
variable {allows : Bool → Prop}

/-! ## Finding a component -/

/-- What a search for a component of this source may come to, with the surroundings as they are. -/
def MayYield (env : Environment σ) (id : EntryId) (allows : Bool → Prop) (s : σ)
    (source : Source) : Prop :=
  ∀ w, w.outside = s → (w.entry id).source = source → id < w.entries.length →
    (w.entry id).disposed = false →
    Ends (acquire env id) w fun found _ => allows found.isSome

theorem mayYield_any (env : Environment σ) (id : EntryId) (s : σ) (source : Source) :
    MayYield env id (fun _ => True) s source :=
  fun _ _ _ _ _ => trivial

theorem Found.frame {found : Option Component} (h : Found env view id w found w') :
    Frame id w w' := by
  cases found with
  | none => exact Moves.frame h
  | some c =>
    obtain ⟨w₁, hmoves, -, hacquired⟩ := h
    exact hmoves.frame.trans hacquired.frame

theorem report_entry (n : Notice) (hid : id < w.entries.length) :
    Ends (report id n) w fun _ w' => ∃ armed, w'.entry id = (w.entry id).rearm armed := by
  unfold report
  simp only [ends_bind, ends_entry]
  split
  · simp only [ends_bind, ends_modifyEntry, ends_note]
    exact ⟨false, World.entry_modifyEntry_self _ w hid⟩
  · exact ⟨(w.entry id).armed, rfl⟩

theorem instantiate_entry (hcode : env.code.Spares view) (factory : String) (known : Bool)
    (w : World σ) :
    Ends (instantiate env id factory known) w fun _ w' =>
      w'.entry id = w.entry id ∧ w'.entries.length = w.entries.length := by
  have h := (instantiate_unnoticed hcode id factory known).ends w
  exact h.imp fun _ w' h => ⟨World.entry_congr h.entries id, congrArg List.length h.entries⟩

theorem acquire_entry (hcode : env.code.Spares view) (hid : id < w.entries.length) :
    Ends (acquire env id) w fun _ w' => ∃ armed, w'.entry id = (w.entry id).rearm armed := by
  unfold acquire
  simp only [ends_bind, ends_entry]
  split
  · unfold acquireService
    simp only [ends_bind, ends_outside]
    rcases env.directory.getService _ w.outside with ⟨given, s⟩
    rcases given with _ | object | object | _ <;> exact ⟨(w.entry id).armed, rfl⟩
  · unfold acquireDirect
    simp only [ends_bind, ends_get]
    split
    · simp only [ends_bind]
      exact report_entry _ hid
    simp only [ends_bind]
    refine (instantiate_entry hcode _ _ w).imp ?_
    rintro (f | c) w' ⟨hentry, hlength⟩
    · simp only [ends_bind, ends_pure]
      rw [← hentry]
      exact report_entry _ (hlength ▸ hid)
    · simp only [ends_bind, ends_modifyEntry, ends_pure]
      rw [← hentry]
      exact ⟨true, World.entry_modifyEntry_self _ _ (hlength ▸ hid)⟩

theorem resolve_cold (hcode : env.code.Spares view) (hid : id < w.entries.length)
    (hmay : MayYield env id allows w.outside (w.entry id).source)
    (hlive : (w.entry id).disposed = false) (hcold : (w.entry id).warm = none) :
    Ends (resolve env id) w fun found w' => Frame id w w' ∧ ∃ armed, match found with
      | none => allows false ∧ w'.entry id = ((w.entry id).rearm armed).mark
      | some c => allows true ∧ w'.entry id = ((w.entry id).rearm armed).install c := by
  unfold resolve
  simp only [ends_bind, ends_entry, hlive, hcold, Bool.false_eq_true, if_false]
  have hacquired := ((acquire_spec hcode hlive).and (acquire_entry hcode hid)).and
    (hmay w rfl rfl hid hlive)
  refine hacquired.imp ?_
  rintro (_ | c) w₁ ⟨⟨hfound, armed, hentry⟩, hallows⟩
  all_goals have hframe := hfound.frame
  all_goals have hid₁ : id < w₁.entries.length := hframe.length ▸ hid
  · simp only [ends_bind, ends_modifyEntry, ends_pure]
    have hflag : Idle view id w₁ (w₁.modifyEntry id Entry.mark) :=
      .remember w₁ (SameSlot.ofFlags fun _ => rfl)
    refine ⟨hframe.trans hflag.frame, armed, hallows, ?_⟩
    rw [← hentry]
    exact World.entry_modifyEntry_self Entry.mark w₁ hid₁
  · have hlive₁ : (w₁.entry id).disposed = false := by
      rw [hentry]
      exact hlive
    have hcold₁ : (w₁.entry id).warm = none := by
      rw [hentry]
      exact hcold
    simp only [ends_bind, ends_record, ends_entry, World.entry_recorded, hlive₁, hcold₁,
      Bool.false_eq_true, if_false, ends_modifyEntry, ends_pure]
    have hinstalled := (hframe.trans (Frame.recorded (.acquired c) w₁)).trans (frame_install c _)
    refine ⟨hinstalled, armed, hallows, ?_⟩
    rw [← hentry]
    exact World.entry_modifyEntry_self (Entry.install c) (w₁.recorded id (.acquired c)) hid₁

/-! ## Initialization -/

/-- `titleOf` finds a title of a component that is bound already, and remembers it at most. -/
def Entitles (id : EntryId) (titleOf : Act σ String) : Prop :=
  ∀ w x ref, BoundNow id x ref w → id < w.entries.length →
    Ends titleOf w fun _ w' => ∃ t, Retold (w.entry id).title t ∧
      w'.entry id = { w.entry id with title := t }

theorem entitles_pure (id : EntryId) (label : String) : Entitles id (pure label : Act σ String) :=
  fun w _ _ _ _ => ⟨(w.entry id).title, .refl _, rfl⟩

theorem initComponent_entry (hcode : env.code.Spares view) {titleOf : Act σ String}
    (hentitles : Entitles id titleOf) {x : Warm} {ref : ContextRef} (h : BoundNow id x ref w)
    (hid : id < w.entries.length) :
    Ends (initComponent env titleOf id x.component ref) w fun _ w' =>
      ∃ t, Retold (w.entry id).title t ∧ w'.entry id = { w.entry id with title := t } := by
  unfold initComponent
  simp only [ends_bind]
  refine (hentitles w x ref h hid).imp fun name w₁ htitle => ?_
  simp only [ends_entry, ends_record]
  refine (callInit_spares hcode _ _).ends fun done s _ => ?_
  rcases done with f | _ <;> exact htitle

/-- A binding that is new is claimed before the component is initialized. -/
theorem claimed_entry (hcode : env.code.Spares view) {titleOf : Act σ String}
    (hentitles : Entitles id titleOf) {x : Warm} {ref : ContextRef}
    (hcontext : w.context = some ref) (hid : id < w.entries.length) :
    Ends (initComponent env titleOf id x.component ref)
      (w.modifyEntry id (Entry.bindTo x.component (some ref))) fun _ w' =>
        ∃ t, Retold (w.entry id).title t ∧
          w'.entry id = { w.entry id with title := t, warm := some ⟨x.component, some ref⟩ } := by
  have hentry := World.entry_modifyEntry_self (Entry.bindTo x.component (some ref)) w hid
  have hbound : BoundNow id ⟨x.component, some ref⟩ ref
      (w.modifyEntry id (Entry.bindTo x.component (some ref))) :=
    ⟨by rw [hentry]; rfl, hcontext, by simp⟩
  have hid' : id < (w.modifyEntry id (Entry.bindTo x.component (some ref))).entries.length := by
    rw [World.length_modifyEntry]
    exact hid
  refine (initComponent_entry hcode hentitles hbound hid').imp ?_
  rintro _ w₁ ⟨t, ht, h⟩
  rw [hentry] at ht h
  exact ⟨t, ht, h⟩

theorem componentNamed_warm (hcode : env.code.Spares view) {titleOf : Act σ String}
    (hentitles : Entitles id titleOf) (hid : id < w.entries.length) {x : Warm}
    (hlive : (w.entry id).disposed = false) (hwarm : (w.entry id).warm = some x) :
    Ends (componentNamed env titleOf id) w fun found w' => found = some x.component ∧
      ∃ t, Retold (w.entry id).title t ∧ w'.entry id =
        { w.entry id with title := t, warm := some ⟨x.component, rebound w.context x.bound⟩ } := by
  have hkept (h : rebound w.context x.bound = x.bound) : ∃ t, Retold (w.entry id).title t ∧
      w.entry id =
        { w.entry id with title := t, warm := some ⟨x.component, rebound w.context x.bound⟩ } := by
    refine ⟨(w.entry id).title, .refl _, ?_⟩
    rw [h]
    show w.entry id = { w.entry id with warm := some x }
    rw [← hwarm]
  unfold componentNamed
  rw [ends_bind]
  refine Ends.of_eq (resolve_of_warm hlive hwarm) ?_
  simp only [ends_bind, ends_get]
  split
  · rename_i hcontext
    exact ⟨rfl, hkept (by rw [hcontext]; rfl)⟩
  rename_i ref hcontext
  rw [ends_bind, ends_claimBinding hwarm]
  split
  · rename_i hbound
    refine ⟨rfl, hkept ?_⟩
    rw [hcontext]
    exact if_pos hbound
  rename_i hnew
  have hrebound : rebound w.context x.bound = some ref := by
    rw [hcontext]
    exact if_neg hnew
  rw [hrebound]
  simp only [if_true, ends_bind]
  refine (claimed_entry hcode hentitles hcontext hid).imp ?_
  rintro (f | _) w₁ hentry
  · exact ⟨rfl, hentry⟩
  · exact ⟨rfl, hentry⟩

structure Answers (context : Option ContextRef) (allows : Bool → Prop) (e : Entry)
    (found : Option Component) (e' : Entry) : Prop where
  consulted : Consulted context allows e e'
  category : e'.category = e.category
  gone : e.disposed = true → found = none
  tried : e.disposed = false → Tried allows e' ∧ found = e'.warm.map (·.component)

theorem slot_rebound (context : Option ContextRef) (allows : Bool → Prop) (disposed broken : Bool)
    (x : Warm) : Slot context allows disposed (some x) broken
      (some ⟨x.component, rebound context x.bound⟩) broken := by
  obtain ⟨c, bound⟩ := x
  unfold rebound
  split
  · exact .same _ _
  · split
    · exact .same _ _
    · exact .bound _ c bound

theorem componentNamed_cold (hcode : env.code.Spares view) {titleOf : Act σ String}
    (hentitles : Entitles id titleOf) (hid : id < w.entries.length)
    (hmay : MayYield env id allows w.outside (w.entry id).source)
    (hlive : (w.entry id).disposed = false) (hcold : (w.entry id).warm = none) :
    Ends (componentNamed env titleOf id) w fun found w' =>
      Answers w.context allows (w.entry id) found (w'.entry id) := by
  unfold componentNamed
  rw [ends_bind]
  refine (resolve_cold hcode hid hmay hlive hcold).imp ?_
  rintro (_ | c) w₁ ⟨hframe, armed, hallows, hentry⟩
  · have hslot : Slot w.context allows (w.entry id).disposed (w.entry id).warm (w.entry id).broken
        (w.entry id).warm true := by
      rw [hcold]
      exact .missed _ hlive hallows
    rw [ends_pure, hentry]
    refine ⟨⟨rfl, rfl, rfl, .refl _, Or.inl rfl, hslot⟩, rfl, fun _ => rfl,
      fun _ => ⟨fun _ => ⟨rfl, hallows⟩, ?_⟩⟩
    show none = (w.entry id).warm.map (·.component)
    rw [hcold]
    rfl
  -- From here on it is as if the component had been there before.
  · have hwarm₁ : (w₁.entry id).warm = some ⟨c, none⟩ := by
      rw [hentry]
      rfl
    have hlive₁ : (w₁.entry id).disposed = false := by
      rw [hentry]
      exact hlive
    have hslot : Slot w.context allows (w.entry id).disposed (w.entry id).warm (w.entry id).broken
        (some ⟨c, w.context⟩) false := by
      rw [hcold]
      exact .found _ c hlive hallows
    have hrest := componentNamed_warm (w := w₁) hcode hentitles (hframe.length ▸ hid) hlive₁ hwarm₁
    unfold componentNamed at hrest
    rw [ends_bind, ends_of_eq (resolve_of_warm hlive₁ hwarm₁)] at hrest
    refine hrest.imp ?_
    rintro _ w' ⟨rfl, t, ht, hentry'⟩
    rw [hentry, hframe.context, rebound_none] at hentry'
    rw [hentry] at ht
    rw [hentry']
    exact ⟨⟨rfl, rfl, rfl, ht, Or.inl rfl, hslot⟩, rfl,
      fun hdisposed => by simp [hlive] at hdisposed, fun _ => ⟨nofun, rfl⟩⟩

theorem componentNamed_answers (hcode : env.code.Spares view) {titleOf : Act σ String}
    (hentitles : Entitles id titleOf) (hid : id < w.entries.length)
    (hmay : MayYield env id allows w.outside (w.entry id).source) :
    Ends (componentNamed env titleOf id) w fun found w' =>
      Answers w.context allows (w.entry id) found (w'.entry id) := by
  by_cases hdisposed : (w.entry id).disposed = true
  · refine Ends.of_eq (componentNamed_of_disposed _ hdisposed) ?_
    exact ⟨.refl _, rfl, fun _ => rfl, fun hlive => by simp [hlive] at hdisposed⟩
  have hlive : (w.entry id).disposed = false := by simpa using hdisposed
  cases hwarm : (w.entry id).warm with
  | some x =>
    refine (componentNamed_warm hcode hentitles hid hlive hwarm).imp ?_
    rintro _ w' ⟨rfl, t, ht, hentry⟩
    have hslot : Slot w.context allows (w.entry id).disposed (w.entry id).warm (w.entry id).broken
        (some ⟨x.component, rebound w.context x.bound⟩) (w.entry id).broken := by
      rw [hwarm]
      exact slot_rebound _ _ _ _ x
    rw [hentry]
    exact ⟨⟨rfl, rfl, rfl, ht, Or.inl rfl, hslot⟩, rfl, fun h => absurd h hdisposed,
      fun _ => ⟨nofun, rfl⟩⟩
  | none => exact componentNamed_cold hcode hentitles hid hmay hlive hwarm

theorem Answers.warm {context : Option ContextRef} {e e' : Entry} {found : Option Component}
    (h : Answers context allows e found e') (hfound : found.isSome) : e'.warm.isSome := by
  cases hdisposed : e.disposed with
  | true =>
    rw [h.gone hdisposed] at hfound
    cases hfound
  | false =>
    rw [(h.tried hdisposed).2, Option.isSome_map] at hfound
    exact hfound

/-! ## The title -/

theorem resolveTitle_of_bound (hcode : env.code.Spares view) {x : Warm} {ref : ContextRef}
    (h : BoundNow id x ref w) :
    Ends (resolveTitle env id) w fun _ w' => w'.entry id = w.entry id ∧
      w'.entries.length = w.entries.length := by
  unfold resolveTitle
  simp only [ends_bind, ends_entry]
  split
  · exact ⟨rfl, rfl⟩
  simp only [ends_bind]
  by_cases hdisposed : (w.entry id).disposed = true
  · exact Ends.of_eq (componentNamed_of_disposed _ hdisposed) ⟨rfl, rfl⟩
  · refine Ends.of_eq (componentNamed_of_bound _ (by simpa using hdisposed) h) ?_
    simp only [ends_bind, ends_record]
    refine (callTitle_spares hcode x.component).ends fun found s _ => ?_
    rcases found with f | t <;> exact ⟨rfl, rfl⟩

theorem title_entitles (hcode : env.code.Spares view) (id : EntryId) :
    Entitles id (title env id) := by
  intro w x ref h hid
  unfold title claimTitle
  simp only [ends_bind, ends_entry]
  split
  · exact ⟨(w.entry id).title, .refl _, rfl⟩
  · exact ⟨(w.entry id).title, .refl _, rfl⟩
  rename_i hempty
  simp only [ends_bind, ends_modifyEntry, ends_pure]
  have hentry := World.entry_modifyEntry_self (fun e => { e with title := .inFlight }) w hid
  have hbound : BoundNow id x ref (w.modifyEntry id fun e => { e with title := .inFlight }) :=
    ⟨by rw [hentry]; exact h.warm, h.context, h.bound⟩
  refine (resolveTitle_of_bound hcode hbound).imp ?_
  rintro found w₁ ⟨hsame, hlength⟩
  have hid₁ : id < w₁.entries.length := by
    rw [hlength, World.length_modifyEntry]
    exact hid
  rw [World.entry_modifyEntry_self _ _ hid₁, hsame, hentry]
  exact ⟨_, Or.inr ⟨hempty, _, rfl⟩, rfl⟩

structure Entitled (context : Option ContextRef) (allows : Bool → Prop) (e e' : Entry) : Prop where
  consulted : Consulted context allows e e'
  category : e'.category = e.category
  known : e.title ≠ .empty ∨ (e.source.property Property.title).isSome →
    e'.warm = e.warm ∧ e'.broken = e.broken
  tried : e.title = .empty → e.source.property Property.title = none → e.disposed = false →
    Tried allows e'

theorem resolveTitle_answers (hcode : env.code.Spares view) (hid : id < w.entries.length)
    (hmay : MayYield env id allows w.outside (w.entry id).source) :
    Ends (resolveTitle env id) w fun _ w' =>
      ((w.entry id).source.property Property.title ≠ none → w'.entry id = w.entry id) ∧
      ((w.entry id).source.property Property.title = none →
        ∃ found, Answers w.context allows (w.entry id) found (w'.entry id)) := by
  unfold resolveTitle
  simp only [ends_bind, ends_entry]
  split
  · rename_i t hproperty
    exact ⟨fun _ => rfl, fun hnone => absurd (hproperty.symm.trans hnone) (by simp)⟩
  rename_i hproperty
  simp only [ends_bind]
  refine (componentNamed_answers hcode (entitles_pure id _) hid hmay).imp ?_
  rintro (_ | c) w' hanswers
  · exact ⟨fun hsome => absurd hproperty hsome, fun _ => ⟨none, hanswers⟩⟩
  simp only [ends_bind, ends_record]
  refine (callTitle_spares hcode c).ends fun found s _ => ?_
  rcases found with f | t
  all_goals exact ⟨fun hsome => absurd hproperty hsome, fun _ => ⟨some c, hanswers⟩⟩

theorem title_entitled (hcode : env.code.Spares view) (hid : id < w.entries.length)
    (hmay : MayYield env id allows w.outside (w.entry id).source) :
    Ends (title env id) w fun _ w' => Entitled w.context allows (w.entry id) (w'.entry id) := by
  have hstill (h : (w.entry id).title ≠ .empty) :
      Entitled w.context allows (w.entry id) (w.entry id) :=
    ⟨.refl _, rfl, fun _ => ⟨rfl, rfl⟩, fun hempty => absurd hempty h⟩
  unfold title claimTitle
  simp only [ends_bind, ends_entry]
  split
  · rename_i t htitle
    exact hstill (by rw [htitle]; simp)
  · rename_i htitle
    exact hstill (by rw [htitle]; simp)
  rename_i hempty
  simp only [ends_bind, ends_modifyEntry, ends_pure]
  have hentry := World.entry_modifyEntry_self (fun e => { e with title := .inFlight }) w hid
  generalize hw₁ : w.modifyEntry id (fun e => { e with title := .inFlight }) = w₁ at hentry ⊢
  have hframe₁ : Frame id w w₁ := hw₁ ▸ (idle_title view id .inFlight w).frame
  have hid₁ : id < w₁.entries.length := hframe₁.length ▸ hid
  have hmay₁ : MayYield env id allows w₁.outside (w₁.entry id).source := by
    rw [hentry, ← hw₁]
    exact hmay
  have hmoves := resolveTitle_spec hcode hid₁
  refine (hmoves.and (resolveTitle_answers hcode hid₁ hmay₁)).imp ?_
  rintro found w₂ ⟨hmoves, hsame, hanswers⟩
  rw [World.entry_modifyEntry_self _ _ (hmoves.frame.length ▸ hid₁)]
  rw [hentry] at hsame hanswers
  rw [hframe₁.context] at hanswers
  cases hproperty : (w.entry id).source.property Property.title with
  | some t =>
    rw [hsame (by rw [hproperty]; simp)]
    refine ⟨⟨rfl, rfl, rfl, Or.inr ⟨hempty, _, rfl⟩, Or.inl rfl, .same _ _⟩, rfl,
      fun _ => ⟨rfl, rfl⟩, fun _ hnone => ?_⟩
    rw [hproperty] at hnone
    cases hnone
  | none =>
    obtain ⟨c, h⟩ := hanswers hproperty
    refine ⟨⟨h.consulted.label, h.consulted.source, h.consulted.disposed,
      Or.inr ⟨hempty, _, rfl⟩, Or.inl h.category, h.consulted.slot⟩, h.category, fun hknown => ?_,
      fun _ _ hlive => (h.tried hlive).1⟩
    rcases hknown with htitle | hsome
    · exact absurd hempty htitle
    · rw [hproperty] at hsome
      cases hsome

theorem title_of_resolved {t : String} (h : (w.entry id).title = .resolved t) :
    title env id w = (t, w) := by
  have hends : Ends (title env id) w fun t' w' => (t', w') = (t, w) := by
    unfold title claimTitle
    simp only [ends_bind, ends_entry, h, ends_pure]
  exact hends

theorem title_of_inFlight (h : (w.entry id).title = .inFlight) :
    title env id w = ((w.entry id).label, w) := by
  have hends : Ends (title env id) w fun t' w' => (t', w') = ((w.entry id).label, w) := by
    unfold title claimTitle
    simp only [ends_bind, ends_entry, h, ends_pure]
  exact hends

theorem title_again (hcode : env.code.Spares view) (hid : id < w.entries.length) :
    Ends (title env id) w fun t w' => title env id w' = (t, w') := by
  have hframe : Ends (title env id) w fun _ w' => w'.entries.length = w.entries.length :=
    (title_spec hcode hid).imp fun _ _ h => h.frame.length
  unfold title claimTitle at hframe ⊢
  simp only [ends_bind, ends_entry] at hframe ⊢
  split
  · rename_i t htitle
    exact title_of_resolved htitle
  · rename_i htitle
    exact title_of_inFlight htitle
  rename_i hempty
  simp only [hempty, ends_bind, ends_modifyEntry, ends_pure] at hframe ⊢
  refine hframe.imp fun found w₁ hlength => title_of_resolved ?_
  rw [World.length_modifyEntry] at hlength
  rw [World.entry_modifyEntry_self _ w₁ (hlength ▸ hid)]

/-! ## The component and the category -/

theorem component_answers (hcode : env.code.Spares view) (hid : id < w.entries.length)
    (hmay : MayYield env id allows w.outside (w.entry id).source) :
    Ends (component env id) w fun found w' =>
      Answers w.context allows (w.entry id) found (w'.entry id) :=
  componentNamed_answers hcode (title_entitles hcode id) hid hmay

def keptCategory : Option String → Cached
  | some c => .resolved c
  | none => .empty

theorem keptCategory_eq_resolved {found : Option String} {c : String} :
    keptCategory found = .resolved c ↔ found = some c := by
  cases found <;> simp [keptCategory]

structure Categorized (context : Option ContextRef) (allows : Bool → Prop) (e : Entry)
    (found : Option String) (e' : Entry) : Prop where
  consulted : Consulted context allows e e'
  kept : e.category ≠ .inFlight → e'.category = keptCategory found
  known : e.category ≠ .empty ∨ (e.source.property Property.category).isSome →
    e'.warm = e.warm ∧ e'.broken = e.broken
  tried : e.category = .empty → e.source.property Property.category = none → e.disposed = false →
    Tried allows e'

theorem resolveCategory_answers (hcode : env.code.Spares view) (hid : id < w.entries.length)
    (hmay : MayYield env id allows w.outside (w.entry id).source) :
    Ends (resolveCategory env id) w fun text w' =>
      ((w.entry id).source.property Property.category ≠ none → w'.entry id = w.entry id) ∧
      ((w.entry id).source.property Property.category = none →
        ∃ found, Answers w.context allows (w.entry id) found (w'.entry id) ∧
          (text.isSome → found.isSome)) := by
  unfold resolveCategory
  simp only [ends_bind, ends_entry]
  split
  · rename_i t hproperty
    exact ⟨fun _ => rfl, fun hnone => absurd (hproperty.symm.trans hnone) (by simp)⟩
  rename_i hproperty
  simp only [ends_bind]
  refine (component_answers hcode hid hmay).imp ?_
  rintro (_ | c) w' hanswers
  · exact ⟨fun hsome => absurd hproperty hsome, fun _ => ⟨none, hanswers, fun h => h⟩⟩
  simp only [ends_bind, ends_record]
  refine (callCategory_spares hcode c).ends fun found s _ => ?_
  rcases found with f | t
  all_goals exact ⟨fun hsome => absurd hproperty hsome, fun _ => ⟨some c, hanswers, fun _ => rfl⟩⟩

theorem category_categorized (hcode : env.code.Spares view) (hid : id < w.entries.length)
    (hmay : MayYield env id allows w.outside (w.entry id).source) :
    Ends (category env id) w fun found w' =>
      Categorized w.context allows (w.entry id) found (w'.entry id) := by
  unfold category claimCategory
  simp only [ends_bind, ends_entry]
  split
  · rename_i c hcategory
    refine ⟨.refl _, fun _ => hcategory, fun _ => ⟨rfl, rfl⟩, fun hempty => ?_⟩
    rw [hcategory] at hempty
    cases hempty
  · rename_i hcategory
    refine ⟨.refl _, fun hfree => absurd hcategory hfree, fun _ => ⟨rfl, rfl⟩, fun hempty => ?_⟩
    rw [hcategory] at hempty
    cases hempty
  rename_i hempty
  simp only [ends_bind, ends_modifyEntry, ends_pure]
  have hentry := World.entry_modifyEntry_self (fun e => { e with category := .inFlight }) w hid
  generalize hw₁ : w.modifyEntry id (fun e => { e with category := .inFlight }) = w₁ at hentry ⊢
  have hframe₁ : Frame id w w₁ := hw₁ ▸ (idle_category view id .inFlight w).frame
  have hid₁ : id < w₁.entries.length := hframe₁.length ▸ hid
  have hmay₁ : MayYield env id allows w₁.outside (w₁.entry id).source := by
    rw [hentry, ← hw₁]
    exact hmay
  have hmoves := resolveCategory_spec hcode hid₁
  refine (hmoves.and (resolveCategory_answers hcode hid₁ hmay₁)).imp ?_
  rintro text w₂ ⟨hmoves, hsame, hanswers⟩
  rw [World.entry_modifyEntry_self _ _ (hmoves.frame.length ▸ hid₁)]
  rw [hentry] at hsame hanswers
  rw [hframe₁.context] at hanswers
  have hsome : (text.filter (· ≠ "")).isSome → text.isSome := by
    cases text <;> simp
  show Categorized w.context allows (w.entry id) (text.filter (· ≠ ""))
    { w₂.entry id with category := keptCategory (text.filter (· ≠ "")) }
  generalize text.filter (· ≠ "") = found at hsome
  cases hproperty : (w.entry id).source.property Property.category with
  | some t =>
    rw [hsame (by rw [hproperty]; simp)]
    refine ⟨⟨rfl, rfl, rfl, .refl _, ?_, .same _ _⟩, fun _ => rfl, fun _ => ⟨rfl, rfl⟩,
      fun _ hnone => ?_⟩
    · cases found with
      | none => exact Or.inl hempty.symm
      | some c => exact Or.inr ⟨hempty, c, rfl, Or.inl (by rw [hproperty]; rfl)⟩
    · rw [hproperty] at hnone
      cases hnone
  | none =>
    obtain ⟨c, h, hfound⟩ := hanswers hproperty
    refine ⟨⟨h.consulted.label, h.consulted.source, h.consulted.disposed, h.consulted.title, ?_,
      h.consulted.slot⟩, fun _ => rfl, fun hknown => ?_, fun _ _ hlive => (h.tried hlive).1⟩
    · cases found with
      | none => exact Or.inl hempty.symm
      | some t => exact Or.inr ⟨hempty, t, rfl, Or.inr (h.warm (hfound (hsome rfl)))⟩
    · rcases hknown with hcategory | hsome
      · exact absurd hempty hcategory
      · rw [hproperty] at hsome
        cases hsome

/-! ## Attaching and detaching -/

theorem init_entry (hcode : env.code.Spares view) (hid : id < w.entries.length) {ref : ContextRef}
    (hcontext : w.context = some ref) :
    Ends (init env id ref) w fun _ w' => Attached ref (w.entry id) (w'.entry id) := by
  have hkept (h : (w.entry id).warm.map (Warm.rebind ref) = (w.entry id).warm) :
      Attached ref (w.entry id) (w.entry id) := by
    refine ⟨(w.entry id).title, .refl _, ?_⟩
    rw [h]
  unfold init
  simp only [ends_bind, ends_entry]
  split
  · rename_i hcold
    exact hkept (by rw [hcold]; rfl)
  rename_i x hwarm
  simp only [ends_bind]
  rw [ends_claimBinding hwarm]
  split
  · rename_i hbound
    have hsame : rebound (some ref) x.bound = x.bound := if_pos hbound
    refine hkept ?_
    rw [hwarm, Option.map_some, Warm.rebind, hsame]
  rename_i hnew
  have hrebound : rebound (some ref) x.bound = some ref := if_neg hnew
  simp only [if_true]
  refine (claimed_entry hcode (title_entitles hcode id) hcontext hid).imp fun _ w' hentry => ?_
  unfold Attached
  rw [hwarm, Option.map_some, Warm.rebind, hrebound]
  exact hentry

theorem destroy_entry (hcode : env.code.Spares view) (hid : id < w.entries.length) :
    Ends (destroy env id) w fun _ w' => Detached (w.entry id) (w'.entry id) := by
  have hkept (h : (w.entry id).warm.map Warm.unbind = (w.entry id).warm) :
      Detached (w.entry id) (w.entry id) := by
    unfold Detached
    rw [h]
  unfold destroy
  simp only [ends_bind, ends_entry]
  split
  · rename_i hcold
    exact hkept (by rw [hcold]; rfl)
  rename_i x hwarm
  split
  · rename_i hunbound
    refine hkept ?_
    rw [hwarm, Option.map_some, Warm.unbind, ← hunbound]
  simp only [ends_bind, ends_modifyEntry, ends_record]
  refine (callDestroy_spares hcode x.component).ends fun done s _ => ?_
  have hentry := World.entry_modifyEntry_self
    (fun e => { e with warm := some { x with bound := none } }) w hid
  unfold Detached
  rw [hwarm]
  rcases done with f | _ <;> exact hentry

end Lifecycle

end PluginConsole
