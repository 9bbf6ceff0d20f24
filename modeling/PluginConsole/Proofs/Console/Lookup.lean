import PluginConsole.Proofs.Console.Furnished
import PluginConsole.Proofs.Console.Shutdown
import PluginConsole.Proofs.Registry.Quiet

/-!
# What the lookup of a label tells

A component is looked up under the label of an entry, and told of under its own: with the title of
the entry that has this label, if there is one, and with the category of the component itself.
-/

namespace PluginConsole

open Act Lifecycle Registry

variable {π : Type}

namespace Console

variable (env : Environment (Site π)) (c : Console)

/-! ## Entries and what is told -/

def shown (title origin : String) : String :=
  Id.run (localize c.localizer title origin c.config.console.locale)

variable {env c} in
@[simp] theorem ends_shownTitle {w : World (Site π)} {post : String → World (Site π) → Prop}
    (title origin : String) :
    Ends (c.shownTitle title origin) w post ↔ post (c.shown title origin) w := by
  unfold shownTitle shown localize
  cases messageKey? title <;> exact Iff.rfl

/-- What an entry says of itself. -/
def entryReport (id : EntryId) : Act (Site π) Found := do
  let title ← Lifecycle.title env id
  let w ← get
  let title ← c.shownTitle title (origin env w (w.entry id))
  let category ← Lifecycle.category env id
  return { label := (w.entry id).label, title, category }

/-- What is told of a component of this source, that was looked up under the label. -/
structure Told (label : String) (source : Source) (found : Found) (w : World (Site π)) :
    Prop where
  label : found.label = source.ownLabel label
  category : found.category = source.ownCategory
  /-- It is told under the title of the entry that has its own label. -/
  titled : ∀ id, w.table.lookup found.label = some id →
    found.title = (c.entryReport env id w).1.title
  /-- Only a plugin can have a label of its own that is in nobody's hands. -/
  untitled : w.table.lookup found.label = none →
    found.title = c.shown s!"%{found.label}.title" builtinOrigin

end Console

/-- A component of this source tells what an entry of the label says of itself. -/
def Source.Speaks (label : String) : Source → Prop
  | .directory r => r.textProperty Property.category ≠ some ""
  | .direct factory _ => factory = label

theorem Source.speaks_iff (label : String) (s : Source) :
    s.Speaks label ↔ s.ownLabel label = label ∧ s.ownCategory = s.shownCategory := by
  cases s with
  | directory r =>
    show _ ↔ label = label ∧ r.textProperty Property.category =
      (r.textProperty Property.category).filter (· ≠ "")
    cases hproperty : r.textProperty Property.category with
    | none => simp [Speaks, hproperty]
    | some c => by_cases h : c = "" <;> simp [Speaks, hproperty, Option.filter_some, h]
  | direct factory known =>
    show factory = label ↔ factory = label ∧ (Builtin.fresh? factory).bind Builtin.category =
      ((Builtin.fresh? factory).bind Builtin.category).filter (· ≠ "")
    cases Builtin.fresh? factory with
    | none => simp
    | some b => simpa using fun _ => (Builtin.filter_category b).symm

namespace Console

variable {store : Builtin.Store (Site π)} {w w' : World (Site π)} {id : EntryId} {label : String}

section Code

variable (hstore : store.Apart) (host : Site π → String)
include hstore

theorem lookup_served (hfiled : Filed w) (hfurnished : Furnished store w) (hlabel : label ≠ "") :
    Ends (Registry.lookup (Site.environment (Builtin.code store host)) label) w fun found w' =>
      Attended w w' ∧ Furnished store w' ∧ ∀ c, found = some c →
        ∃ id, w.table.lookup label = some id ∧ (w'.entry id).disposed = false ∧
          (w'.entry id).warm.isSome ∧ c.Serves label (w'.entry id).source := by
  have hcode : (Site.environment (Builtin.code store host)).code.Spares Site.directory :=
    builtin_spares host hstore.directory
  have hkept := (furnished_queried hstore host).lookup hfiled.ranged label
  suffices hfound : Ends (Registry.lookup (Site.environment (Builtin.code store host)) label) w
      fun found w' => Furnished store w' → ∀ c, found = some c →
        ∃ id, w.table.lookup label = some id ∧ (w'.entry id).disposed = false ∧
          (w'.entry id).warm.isSome ∧ c.Serves label (w'.entry id).source from
    (hkept.and hfound).imp fun found w' h =>
      ⟨h.1.1, h.1.2 hfurnished, h.2 (h.1.2 hfurnished)⟩
  unfold Registry.lookup
  rw [if_neg hlabel]
  simp only [ends_bind, ends_get]
  cases hlookup : w.table.lookup label with
  | none => rintro _ _ ⟨⟩
  | some id =>
    have hheld := hfiled.filed label id (Dict.mem_of_lookup hlookup)
    have hanswers := component_answers (w := { w with inHand := [id] ++ w.inHand }) hcode hheld.1
      (mayYield_any _ id w.outside _)
    simp only [ends_holding]
    refine hanswers.imp fun found w₁ hanswers hserved c hfound => ?_
    have hlive : (w.entry id).disposed = false := by
      cases hdisposed : (w.entry id).disposed with
      | false => rfl
      | true => cases (hanswers.gone hdisposed).symm.trans hfound
    have hwarm := (hanswers.tried hlive).2
    rw [hfound] at hwarm
    obtain ⟨x, hx, rfl⟩ := Option.map_eq_some_iff.mp hwarm.symm
    have hserves := hserved.serves id x hx
    have hsame : (w₁.entry id).label = label := hanswers.consulted.label.trans hheld.2
    refine ⟨id, rfl, hanswers.consulted.disposed.trans hlive, Option.isSome_iff_exists.mpr ⟨x, hx⟩, ?_⟩
    have hserves : x.component.Serves (w₁.entry id).label (w₁.entry id).source := hserves
    rw [hsame] at hserves
    exact hserves

omit hstore in
theorem entryReport_title {env : Environment (Site π)} (c : Console) {t : String}
    (h : title env id w = (t, w)) :
    (c.entryReport env id w).1.title = c.shown t (origin env w (w.entry id)) := by
  show Ends (c.entryReport env id) w fun report _ => report.title = _
  unfold entryReport
  rw [ends_bind]
  refine Ends.of_eq h ?_
  simp only [ends_bind, ends_get, ends_shownTitle]
  exact rfl

omit hstore in
theorem entryReport_label {env : Environment (Site π)} {view : Site π → δ}
    (hcode : env.code.Spares view) (c : Console) (hid : id < w.entries.length) :
    (c.entryReport env id w).1.label = (w.entry id).label := by
  show Ends (c.entryReport env id) w fun report _ => report.label = _
  unfold entryReport
  rw [ends_bind]
  refine (title_spec hcode hid).imp fun t w₁ hmoves => ?_
  simp only [ends_bind, ends_get, ends_shownTitle]
  exact hmoves.frame.label

/-- A component that was found is told of under its own label. -/
theorem describeComponent_told (console : Console) (hfiled : Filed w) {source : Source}
    {component : Component} (hserves : component.Serves label source)
    (hheld : w.table.lookup label ≠ none) :
    Ends (console.describeComponent (Site.environment (Builtin.code store host)) component) w
      fun answer w' => ∃ found, answer = .ok found ∧ Attended w w' ∧
        (Furnished store w → Furnished store w') ∧
        (∀ id, w'.table.lookup found.label = some id →
          (title (Site.environment (Builtin.code store host)) id w').2 = w') ∧
        Told (Site.environment (Builtin.code store host)) console label source found w' := by
  have hcode : (Site.environment (Builtin.code store host)).code.Spares Site.directory :=
    builtin_spares host hstore.directory
  unfold describeComponent titleOf
  rw [hserves.labelOf]
  simp only [ends_bind, ends_get]
  cases hown : w.table.lookup (source.ownLabel label) with
  | some id =>
    have hid := (hfiled.filed _ id (Dict.mem_of_lookup hown)).1
    simp only [ends_bind]
    refine (((furnished_queried hstore host).title hid).and (title_again hcode hid)).imp ?_
    rintro t w₁ ⟨⟨hattended, hfurnished⟩, hagain⟩
    have hsame (other : EntryId) (hother : w₁.table.lookup (source.ownLabel label) = some other) :
        other = id := by
      rw [hattended.kept.table] at hother
      exact Option.some.inj (hother.symm.trans hown)
    simp only [ends_get, ends_pure, ends_bind, ends_shownTitle]
    refine Ends.of_eq (hserves.callCategory w₁) ?_
    refine ⟨_, rfl, hattended, hfurnished, fun other hother => ?_, rfl, rfl, fun other hother => ?_,
      fun hnone => ?_⟩
    · rw [hsame other hother, hagain]
    · rw [hsame other hother, entryReport_title console hagain]
    · have hnone : w₁.table.lookup (source.ownLabel label) = none := hnone
      rw [hattended.kept.table, hown] at hnone
      cases hnone
  | none =>
    cases hserves with
    | handler => exact absurd hown hheld
    | @plugin factory known object hfresh =>
      have htitle : callTitle (Site.environment (Builtin.code store host)) (.plugin object) w =
          (.ok s!"%{factory}.title", w) := by
        rw [← Builtin.id_of_fresh? hfresh]
        rfl
      simp only [ends_bind]
      refine Ends.of_eq htitle ?_
      simp only [ends_pure, Except.map, ends_bind, ends_shownTitle]
      have hcategory : callCategory (Site.environment (Builtin.code store host)) (.plugin object) w =
          (.ok (Source.direct factory known).ownCategory, w) :=
        Component.Serves.callCategory (.plugin hfresh : Component.Serves label _ _) w
      refine Ends.of_eq hcategory ?_
      have hnone (other : EntryId) (hother : w.table.lookup factory = some other) : False := by
        cases hother.symm.trans hown
      exact ⟨_, rfl, .refl w, fun h => h, fun other hother => (hnone other hother).elim, rfl, rfl,
        fun other hother => (hnone other hother).elim, fun _ => rfl⟩

theorem entryReport_of_title (console : Console) (hfurnished : Furnished store w)
    (hid : id < w.entries.length) (hlive : (w.entry id).disposed = false)
    (hwarm : (w.entry id).warm.isSome) {t : String}
    (h : title (Site.environment (Builtin.code store host)) id w = (t, w)) :
    (console.entryReport (Site.environment (Builtin.code store host)) id w).1 =
      { label := (w.entry id).label
        title := (console.entryReport (Site.environment (Builtin.code store host)) id w).1.title
        category := (w.entry id).source.shownCategory } := by
  rw [entryReport_title console h]
  show Ends (console.entryReport (Site.environment (Builtin.code store host)) id) w
    fun report _ => report = _
  unfold entryReport
  rw [ends_bind]
  refine Ends.of_eq h ?_
  simp only [ends_bind, ends_get, ends_shownTitle]
  refine (category_told hstore host hfurnished.toServed (hfurnished.classed id) hid).imp ?_
  rintro category w' ⟨-, hcategory⟩
  rw [ends_pure, hcategory hlive hwarm]

theorem Told.eq_entryReport_iff {console : Console} {source : Source} {told : Found}
    (htold : Told (Site.environment (Builtin.code store host)) console label source told w)
    (hagain : ∀ id, w.table.lookup told.label = some id →
      (title (Site.environment (Builtin.code store host)) id w).2 = w)
    (hfurnished : Furnished store w) (hheld : w.table.lookup label = some id)
    (hid : id < w.entries.length) (hnamed : (w.entry id).label = label)
    (hsource : (w.entry id).source = source) (hlive : (w.entry id).disposed = false)
    (hwarm : (w.entry id).warm.isSome) :
    told = (console.entryReport (Site.environment (Builtin.code store host)) id w).1 ↔
      source.Speaks label := by
  have hcode : (Site.environment (Builtin.code store host)).code.Spares Site.directory :=
    builtin_spares host hstore.directory
  -- As long as both have one label, nothing but the category can differ.
  have hreport (hown : told.label = label) :
      (console.entryReport (Site.environment (Builtin.code store host)) id w).1 =
        { told with category := source.shownCategory } := by
    have hown' : w.table.lookup told.label = some id := by
      rw [hown]
      exact hheld
    have hall := entryReport_of_title hstore host console hfurnished hid hlive hwarm
      (Prod.ext rfl (hagain id hown'))
    rw [hall, ← htold.titled id hown', hnamed, hsource, ← hown]
  rw [Source.speaks_iff, ← htold.label, ← htold.category]
  constructor
  · intro hequal
    have hown : told.label = label := by
      rw [hequal, entryReport_label hcode console hid, hnamed]
    rw [hreport hown] at hequal
    exact ⟨hown, congrArg Found.category hequal⟩
  · rintro ⟨hown, hcategory⟩
    rw [hreport hown, ← hcategory]

end Code

/-! ## A console in use -/

theorem start_managed {code : PluginCode (Site π)} {ready : World (Site π) → Prop}
    {may : World (Site π) → EntryId → Prop} {R : World (Site π) → World (Site π) → Prop}
    (h : Managed (Site.environment code) (fun _ _ => True) ready may R)
    (hobserve : ∀ name event, (code.observe name event).Respects R)
    (hattach : ∀ w context, ready w →
      Ends (attach (Site.environment code) context) w fun _ w' => R w w')
    (hready : ready w) (c : Config) :
    Ends (start (Site.environment code) store c) w fun result w' => R w w' ∧
      ∀ console, result = .ok console → console.config = c := by
  have hpublish (w : World (Site π)) (hw : ready w) (s : ServiceSpec) :
      Ends (publishService (Site.environment code) store s) w fun _ w' => R w w' := by
    unfold publishService Builtin.Store.make Site.publish Site.current
    simp only [ends_bind, ends_outside, ends_get, ends_pure]
    have hmade (s₁ s₂ : Site π) : R w ((w.withOutside s₁).withOutside s₂) :=
      h.trans (h.outside trivial) (h.outside trivial)
    refine (Site.managed_announce hobserve ?_ h _ _).imp fun _ _ => h.trans (hmade _ _)
    exact h.keeps (hmade _ _) hw
  have hservices (services : List ServiceSpec) (w : World (Site π)) (hw : ready w) :
      Ends (services.mapM (publishService (Site.environment code) store)) w fun _ w' => R w w' := by
    induction services generalizing w with
    | nil => exact h.refl w
    | cons s rest ih =>
      rw [List.mapM_cons, ends_bind]
      refine (hpublish w hw s).imp fun _ w₁ h₁ => ?_
      rw [ends_bind]
      exact (ih w₁ (h.keeps h₁ hw)).imp fun _ _ => h.trans h₁
  unfold start
  split
  · refine ⟨h.refl w, ?_⟩
    rintro _ ⟨⟩
  rw [ends_bind]
  refine (h.openRegistry hready).imp fun opened w₁ h₁ => ?_
  rcases opened with f | _
  · refine ⟨h₁, ?_⟩
    rintro _ ⟨⟩
  simp only [ends_bind]
  refine (hservices c.services w₁ (h.keeps h₁ hready)).imp fun services w₂ h₂ => ?_
  have hpublished := h.trans h₁ h₂
  refine (h.forM (w := w₂) (R := R) (fun p _ w₃ h₃ => ?_)).imp fun _ w₃ h₃ => ?_
  · exact h.addDirect (h.keeps (h.trans hpublished h₃) hready) p.factory p.label
  have hadded := h.trans hpublished h₃
  simp only [setDefaultLabel, ends_modify]
  have hset := h.trans hadded (h.settings w₃ c.console.defaultLabel w₃.subscription w₃.keepers)
  refine (hattach _ (context c) (h.keeps hset hready)).imp fun _ w₄ h₄ => ?_
  simp only [ends_get, ends_note, ends_pure]
  refine ⟨h.trans hset (h.trans h₄ (h.log w₄ _)), ?_⟩
  rintro _ ⟨⟩
  rfl

def Blank (w : World (Site π)) : Prop :=
  ∀ id, (w.entry id).warm = none ∧ (w.entry id).category = .empty

theorem blank_managed (code : PluginCode (Site π)) :
    Managed (Site.environment code) (fun _ _ => True) (fun _ => True) (fun _ _ => True)
      fun w w' => Blank w → Blank w' where
  refl _ h := h
  trans h h' hblank := h' (h hblank)
  aside _ _ h := h
  stays _ _ := trivial
  keeps _ _ := trivial
  listed _ _ _ := trivial
  within := DirectoryAccess.within_any _
  destroy {w id} _ := by
    show Ends (destroy (Site.environment code) id) w fun _ w' => Blank w → Blank w'
    by_cases hblank : Blank w
    · unfold destroy
      simp only [ends_bind, ends_entry, (hblank id).1, ends_pure]
      exact fun h => h
    · exact fun h => absurd h hblank
  dispose {w id} _ := by
    by_cases hblank : Blank w
    · refine Ends.of_eq (dispose_cold (Site.environment code) (hblank id).1) fun _ other => ?_
      by_cases ho : other = id
      · rw [ho]
        rcases World.entry_modifyEntry_cases id _ w with hnew | hsame
        · rw [hnew]
          exact ⟨rfl, (hblank id).2⟩
        · rw [hsame]
          exact hblank id
      · rw [World.entry_modifyEntry_of_ne ho]
        exact hblank other
    · exact fun h => absurd h hblank
  log _ _ h := h
  settings _ _ _ _ h := h
  forgets _ h := h
  outside _ h := h
  enter w label source h id := by
    rw [World.entry_entered]
    split
    · exact ⟨rfl, rfl⟩
    · exact h id
  entered _ _ _ := trivial
  table _ _ h := h

theorem attach_blank {code : PluginCode (Site π)} (context : Context) (w : World (Site π)) :
    Ends (attach (Site.environment code) context) w fun _ w' => Blank w → Blank w' := by
  have h := blank_managed code
  have hinit (ref : ContextRef) (v : World (Site π)) (id : EntryId) :
      Ends (Lifecycle.init (Site.environment code) id ref) v fun _ w' => Blank v → Blank w' := by
    by_cases hblank : Blank v
    · exact (init_of_cold (hblank id).1 ref).imp fun _ w' hw' => hw' ▸ fun h => h
    · exact fun h => absurd h hblank
  unfold attach
  simp only [ends_bind, ends_get, ends_newContext, ends_modify, ends_note]
  refine (h.holding (snapshot w) (h.noted (fun {v id} _ => hinit _ v id) _
    fun _ _ => trivial)).imp fun _ w₂ hw₂ => ?_
  exact fun hblank => hw₂ hblank

/-- The console has the table that its configuration describes, and whatever was found is what the
sources give. -/
structure Running (store : Builtin.Store (Site π)) (c : Config) (w : World (Site π)) : Prop
    extends Site.Ready w where
  assembled : Assembled c.services c.console.plugins w
  furnished : Furnished store w

section Start

variable {c : Config} (hstore : store.Apart) (host : Site π → String)
include hstore

theorem start_running (own : π) (hvalid : Config.violations c = [])
    (hhandlers : ∀ s ∈ c.services, s.handler ∈ Builtin.handlerIds) :
    Ends (start (Site.environment (Builtin.code store host)) store c) { outside := site c own }
      fun result w' => ∃ console, result = .ok console ∧ console.config = c ∧
        Running store c w' := by
  have hcode := builtin_spares host hstore.directory
  have hblank : Ends (start (Site.environment (Builtin.code store host)) store c)
      { outside := site c own } fun result w' => (Blank ({ outside := site c own } : World (Site π)) →
        Blank w') ∧ ∀ console, result = .ok console → console.config = c :=
    start_managed (blank_managed (Builtin.code store host))
    (fun name event => (hcode.observe name event).respects fun _ _ _ h => h)
    (fun w context _ => attach_blank context w) trivial c
  refine ((start_prepared host hstore.directory own hhandlers).and
    ((start_assembled host hstore.directory own hvalid hhandlers).and hblank)).imp ?_
  rintro _ w' ⟨⟨console, ref, rfl, -, -, hprepared⟩, ⟨-, hassembled⟩, hblank, hconfig⟩
  have hblank : Blank w' := hblank fun _ => ⟨rfl, rfl⟩
  refine ⟨console, rfl, hconfig console rfl, hprepared.toReady, hassembled, ?_⟩
  refine ⟨⟨hprepared.numbered, fun id x hwarm => ?_⟩, fun id => Or.inl (hblank id).2⟩
  rw [(hblank id).1] at hwarm
  cases hwarm

theorem Running.use (h : Running store c w) {action : Site.Action π}
    (huse : action.IsUse fun s => (s.directory, store.read s)) :
    Ends (Site.act (Site.environment (Builtin.code store host)) action) w fun _ w' =>
      Running store c w' := by
  have hcode := builtin_spares host hstore.directory
  have hview : action.IsUse Site.directory := isUse_of_finer huse Prod.fst
  have hcalm : action.Calm := by
    cases action with
    | registry op => exact hview.2
    | publish | modify | withdraw | observe | setDisabled => exact trivial
  have hassembled : Assembled c.services c.console.plugins
      (Site.outcome (Builtin.code store host) action w) := by
    cases action with
    | registry op =>
      have hasks := hview.1
      cases op <;> first | exact h.assembled | exact absurd hasks id
    | setDisabled => exact h.assembled
    | publish | modify | withdraw | observe => exact absurd huse id
  refine ((Site.act_ready hcode h.toReady action hcalm).and
    (use_furnished hstore host h.furnished h.toFiled.ranged huse)).imp ?_
  rintro _ w' ⟨⟨hready, halike⟩, hfurnished⟩
  exact ⟨hready, hassembled.alike halike, hfurnished⟩

theorem Running.lookup (h : Running store c w) (console : Console) (hlabel : label ≠ "") :
    Ends (console.lookup (Site.environment (Builtin.code store host)) (some label)) w
      fun answer w' =>
        let found := (Registry.lookup (Site.environment (Builtin.code store host)) label w).1
        (found = none → answer = .ok none) ∧
        (found ≠ none → ∃ id source told, w.table.lookup label = some id ∧
          Awards c.services c.console.plugins label source ∧ answer = .ok (some told) ∧
          Told (Site.environment (Builtin.code store host)) console label source told w' ∧
          (told = (console.entryReport (Site.environment (Builtin.code store host)) id w').1 ↔
            source.Speaks label)) := by
  have hserved := lookup_served hstore host h.toFiled h.furnished hlabel
  unfold Console.lookup
  rw [ends_bind]
  rcases hlookup : Registry.lookup (Site.environment (Builtin.code store host)) label w with
    ⟨found, w₁⟩
  rw [ends_of_eq hlookup] at hserved
  refine Ends.of_eq hlookup ?_
  obtain ⟨hattended, hfurnished, hserves⟩ := hserved
  rcases found with _ | component
  · exact ⟨fun _ => rfl, fun hnone => absurd rfl hnone⟩
  obtain ⟨id, hheld, hlive, hwarm, hserves⟩ := hserves component rfl
  have hid : id < w.entries.length := (h.filed label id (Dict.mem_of_lookup hheld)).1
  have hnamed : (w.entry id).label = label := (h.filed label id (Dict.mem_of_lookup hheld)).2
  have hconsulted := hattended.consulted id
  have hawards : Awards c.services c.console.plugins label (w₁.entry id).source := by
    refine h.assembled.awarded label _ ?_
    unfold held
    rw [hheld, hconsulted.source]
    rfl
  generalize hsource : (w₁.entry id).source = source at hserves hawards
  have htold := describeComponent_told hstore host console
    (hattended.undisturbed.filed h.toFiled) hserves (by rw [hattended.kept.table, hheld]; simp)
  simp only [ends_bind]
  refine htold.imp ?_
  rintro _ w₂ ⟨told, rfl, hattended₂, hfurnished₂, hagain, htold⟩
  rw [ends_pure]
  refine ⟨fun hnone => absurd hnone (Option.some_ne_none component),
    fun _ => ⟨id, source, told, hheld, hawards, rfl, htold, ?_⟩⟩
  have hconsulted₂ := hattended₂.consulted id
  refine htold.eq_entryReport_iff hstore host hagain (hfurnished₂ hfurnished) ?_ ?_
    (hconsulted₂.label.trans (hconsulted.label.trans hnamed)) (hconsulted₂.source.trans hsource)
    (hconsulted₂.disposed.trans hlive) (hconsulted₂.slot.isSome hwarm)
  · rw [hattended₂.kept.table, hattended.kept.table]
    exact hheld
  · rw [hattended₂.kept.length, hattended.kept.length]
    exact hid

/-- Whatever a console was asked for before, the lookup of a label finds nothing just if nothing
resolves under the label, and else tells of the component that the configuration puts there, under
the component's own label. That is the report of the entry that was asked for just if the component
speaks for it: if it is the plugin of a factory that the label is named after, or a service whose
category is not the empty text. -/
theorem lookup_tells {c : Config} (own : π) (hvalid : Config.violations c = [])
    (hhandlers : ∀ s ∈ c.services, s.handler ∈ Builtin.handlerIds) {uses : List (Site.Action π)}
    (huses : ∀ action ∈ uses, action.IsUse fun s => (s.directory, store.read s)) {label : String}
    (hlabel : label ≠ "") :
    let env := Site.environment (Builtin.code store host)
    let started := start env store c { outside := site c own }
    ∃ console, started.1 = .ok console ∧ console.config = c ∧
      let w := Site.runActions env uses started.2
      let found := (Registry.lookup env label w).1
      let answered := lookup env console (some label) w
      (found = none → answered.1 = .ok none) ∧
      (found ≠ none → ∃ id source told, w.table.lookup label = some id ∧
        Awards c.services c.console.plugins label source ∧ answered.1 = .ok (some told) ∧
        Told env console label source told answered.2 ∧
        (told = (console.entryReport env id answered.2).1 ↔ source.Speaks label)) := by
  intro env started
  obtain ⟨console, hok, hconfig, hrunning⟩ := start_running hstore host own hvalid hhandlers
  refine ⟨console, hok, hconfig, ?_⟩
  have hused : Running store c (Site.runActions env uses started.2) :=
    Site.runActions_keeps (Running store c) (fun _ _ huse h => h.use hstore host huse) huses hrunning
  exact hused.lookup hstore host console hlabel

end Start

/-- A plugin stands under a label of its own choice, and another under the name of its factory. -/
def renamed : Config where
  console := { plugins := [⟨"licenses", "about"⟩, ⟨"status", "licenses"⟩] }

def rounds : List (Site.Action CommandLine.Own) :=
  [.registry (.labelMap (Catalog.localizer []) "en" "misc"), .registry .describe]

theorem renamed_tells :
    let env := Site.environment (Builtin.code CommandLine.builtins fun s => s.host.origin)
    let started := start env CommandLine.builtins renamed { outside := site renamed [] }
    CommandLine.builtins.Apart ∧ Config.violations renamed = [] ∧
      (∀ s ∈ renamed.services, s.handler ∈ Builtin.handlerIds) ∧
      (∀ action ∈ rounds, action.IsUse fun s => (s.directory, CommandLine.builtins.read s)) ∧
      ∃ console id told, started.1 = .ok console ∧
        let w := Site.runActions env rounds started.2
        let answered := lookup env console (some "about") w
        w.table.lookup "about" = some id ∧ answered.1 = .ok (some told) ∧
          told.label = "licenses" ∧ told ≠ (console.entryReport env id answered.2).1 := by
  have hstore : CommandLine.builtins.Apart := ⟨fun _ _ => rfl, fun _ _ => rfl, fun h => h⟩
  have hvalid : Config.violations renamed = [] := by decide +kernel
  have hhandlers : ∀ s ∈ renamed.services, s.handler ∈ Builtin.handlerIds :=
    fun _ hs => absurd hs List.not_mem_nil
  have huses : ∀ action ∈ rounds,
      action.IsUse fun s => (s.directory, CommandLine.builtins.read s) := by
    simp only [rounds, List.forall_mem_cons]
    exact ⟨⟨trivial, fun _ _ _ => rfl⟩, ⟨trivial, trivial⟩,
      fun _ hmem => absurd hmem List.not_mem_nil⟩
  have hfound :
      let env := Site.environment (Builtin.code CommandLine.builtins fun s => s.host.origin)
      let started := start env CommandLine.builtins renamed { outside := site renamed [] }
      (Registry.lookup env "about" (Site.runActions env rounds started.2)).1.isSome = true := by
    decide +kernel
  have hlabel : "about" ≠ "" := by decide
  obtain ⟨console, hok, -, -, htold⟩ :=
    lookup_tells hstore (fun s => s.host.origin) [] hvalid hhandlers huses hlabel
  obtain ⟨id, source, told, hheld, hawards, hanswer, htold, hspeaks⟩ :=
    htold (Option.isSome_iff_ne_none.mp hfound)
  have hsource : source = .direct "licenses" true := by
    cases hawards with
    | @plugin p hmem hlabel =>
      simp only [renamed, List.mem_cons, List.not_mem_nil, or_false] at hmem
      rcases hmem with rfl | rfl
      · rfl
      · exact absurd hlabel (by decide)
    | service hbest => exact absurd hbest.mem List.not_mem_nil
  subst hsource
  refine ⟨hstore, hvalid, hhandlers, huses, console, id, told, hok, hheld, hanswer, htold.label,
    fun hsame => ?_⟩
  have hname : "licenses" = "about" := hspeaks.mp hsame
  exact absurd hname (by decide)

/-- The plugin is told of under the name of its factory, with the title of the other plugin. -/
theorem renamed_mistaken :
    let env := CommandLine.environment
    let started := start env CommandLine.builtins renamed { outside := site renamed [] }
    Config.violations renamed = [] ∧ ∃ console, started.1 = .ok console ∧
      (lookup env console (some "about") started.2).1.toOption =
        some (some ⟨"licenses", "Status", some "Info"⟩) ∧
      (started.2.table.lookup "about").map
          (fun id => (console.entryReport env id started.2).1) =
        some ⟨"about", "Licenses", some "Info"⟩ := by
  have hstore : CommandLine.builtins.Apart := ⟨fun _ _ => rfl, fun _ _ => rfl, fun h => h⟩
  have hvalid : Config.violations renamed = [] := by decide +kernel
  obtain ⟨console, hok, -⟩ := start_running hstore (fun s => s.host.origin) [] hvalid
    fun _ hs => absurd hs List.not_mem_nil
  have hevery :
      let env := CommandLine.environment
      let started := start env CommandLine.builtins renamed { outside := site renamed [] }
      ∀ console ∈ started.1.toOption,
        (lookup env console (some "about") started.2).1.toOption =
          some (some ⟨"licenses", "Status", some "Info"⟩) ∧
        (started.2.table.lookup "about").map
            (fun id => (console.entryReport env id started.2).1) =
          some ⟨"about", "Licenses", some "Info"⟩ := by
    decide +kernel
  exact ⟨hvalid, console, hok, hevery console (congrArg Except.toOption hok)⟩

end Console

end PluginConsole
