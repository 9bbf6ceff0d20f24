import PluginConsole.Proofs.Console.Objects
import PluginConsole.Proofs.Registry.Attend
import PluginConsole.Proofs.Site.Usage

/-!
# What the built-in components say of themselves

A handler is served under the label of its entry, and a plugin calls itself by the name of its
factory. So what a component tells of itself can be read off the source of its entry.
-/

namespace PluginConsole

open Act Lifecycle Registry

variable {σ π : Type}

namespace Builtin

theorem id_of_fresh? {name : String} {b : Builtin} (h : fresh? name = some b) : b.id = name := by
  unfold fresh? at h
  split at h <;> first | cases h; rfl | cases h

theorem filter_category (b : Builtin) : b.category.filter (· ≠ "") = b.category := by
  cases b <;> rfl

end Builtin

namespace Source

/-- The label that a component of this source tells, whose entry has another perhaps. -/
def ownLabel (label : String) : Source → String
  | .directory _ => label
  | .direct factory _ => factory

def ownCategory : Source → Option String
  | .directory r => r.textProperty Property.category
  | .direct factory _ => (Builtin.fresh? factory).bind Builtin.category

/-- An entry takes an empty category for none. -/
def shownCategory (s : Source) : Option String :=
  s.ownCategory.filter (· ≠ "")

theorem shownCategory_of_property {s : Source} {c : String}
    (h : s.property Property.category = some c) : s.shownCategory = some c := by
  cases s with
  | directory r => exact h
  | direct factory known => cases h

end Source

/-- The component is one that this source gives to an entry of this label. -/
inductive Component.Serves (label : String) : Source → Component → Prop where
  | plugin {factory : String} {known : Bool} {object : Instance}
    (h : Builtin.fresh? factory = some (Builtin.nature object)) :
    Serves label (.direct factory known) (.plugin object)
  | handler (serial : Nat) (object : Instance) (r : Reference) :
    Serves label (.directory r) (.adapted serial object label r)

namespace Component.Serves

variable {store : Builtin.Store (Site π)} {host : Site π → String} {label : String}
variable {source : Source} {c : Component} (h : c.Serves label source)
include h

theorem labelOf : labelOf (Site.environment (Builtin.code store host)) c = source.ownLabel label := by
  cases h with
  | plugin h => exact Builtin.id_of_fresh? h
  | handler => rfl

theorem callCategory (w : World (Site π)) :
    callCategory (Site.environment (Builtin.code store host)) c w = (.ok source.ownCategory, w) := by
  cases h with
  | @plugin factory _ object h =>
    show ((.ok (Builtin.nature object).category, w) : Outcome _ × _) =
      (.ok ((Builtin.fresh? factory).bind Builtin.category), w)
    rw [h]
    rfl
  | handler => rfl

end Component.Serves

/-! ## Components of their sources -/

variable {store : Builtin.Store (Site π)} {w w' : World (Site π)} {id : EntryId}

structure Served (store : Builtin.Store (Site π)) (w : World (Site π)) : Prop
    extends Numbered store w where
  serves : ∀ id x, (w.entry id).warm = some x →
    x.component.Serves (w.entry id).label (w.entry id).source

theorem Served.framed (h : Served store w) (hframe : Frame id w w') (hnumbered : Numbered store w')
    (hself : ∀ x, (w'.entry id).warm = some x →
      x.component.Serves (w.entry id).label (w.entry id).source) : Served store w' where
  toNumbered := hnumbered
  serves other x hwarm := by
    by_cases ho : other = id
    · subst ho
      rw [hframe.label, hframe.source]
      exact hself x hwarm
    · rw [hframe.others other ho] at hwarm ⊢
      exact h.serves other x hwarm

theorem Served.ofSame (h : Served store w) (hnumbered : Numbered store w')
    (hentries : w'.entries = w.entries) : Served store w' where
  toNumbered := hnumbered
  serves id x hwarm := by
    rw [World.entry_congr hentries] at hwarm ⊢
    exact h.serves id x hwarm

section Code

variable (hstore : store.Apart) (host : Site π → String)

theorem instantiate_serves (id : EntryId) (label factory : String) (known : Bool)
    (w : World (Site π)) :
    Ends (instantiate (Site.environment (Builtin.code store host)) id factory known) w
      fun made _ => ∀ c, made = .ok c → c.Serves label (.direct factory known) := by
  have hmade (b : Builtin) (hfresh : Builtin.fresh? factory = some b) (n : Nat) :
      Component.Serves label (.direct factory known) (.plugin (.made b.id n)) := by
    have hid := Builtin.id_of_fresh? hfresh
    subst hid
    refine .plugin ?_
    show Builtin.fresh? b.id = some ((Builtin.fresh? b.id).getD default)
    rw [hfresh]
    rfl
  unfold instantiate
  split
  · rintro _ ⟨⟩
  simp only [ends_bind, ends_record]
  have hcreated : Ends ((Builtin.code store host).create factory) (w.recorded id (.create factory))
      fun made _ => ∀ object, made = .ok object →
        Component.Serves label (.direct factory known) (.plugin object) := by
    unfold Builtin.code
    dsimp only
    split
    · rename_i b hfresh
      rintro _ ⟨⟩
      exact hmade b hfresh _
    · rintro _ ⟨⟩
  refine hcreated.imp ?_
  rintro (f | object) w₁ hserves
  · rintro _ ⟨⟩
  have hplugin := hserves object rfl
  dsimp only
  split
  · rintro _ ⟨⟩
    exact hplugin
  · rintro _ ⟨⟩
    exact hplugin

theorem acquire_serves (hhandling : w.outside.directory.Handling) (id : EntryId) :
    Ends (acquire (Site.environment (Builtin.code store host)) id) w fun found _ =>
      ∀ c, found = some c → c.Serves (w.entry id).label (w.entry id).source := by
  unfold acquire
  simp only [ends_bind, ends_entry]
  generalize (w.entry id).label = label
  cases (w.entry id).source with
  | directory r =>
    dsimp only
    unfold acquireService
    have hgiven : ∀ o, (w.outside.directory.getService r.id).1 = some o →
        ∃ object, o = .handler object := by
      intro o ho
      unfold Directory.getService at ho
      cases hfound : w.outside.directory.find? r.id with
      | none =>
        rw [hfound] at ho
        cases ho
      | some service =>
        rw [hfound] at ho
        cases ho
        exact hhandling service (Directory.mem_of_find? hfound)
    simp only [ends_bind, ends_outside]
    rcases hget : (Site.environment (Builtin.code store host)).directory.getService r w.outside with
      ⟨_ | o, s⟩
    · rintro _ ⟨⟩
    have hfirst : (w.outside.directory.getService r.id).1 = some o := congrArg Prod.fst hget
    obtain ⟨object, rfl⟩ := hgiven o hfirst
    rintro _ ⟨⟩
    exact .handler _ object r
  | direct factory known =>
    dsimp only
    unfold acquireDirect
    simp only [ends_bind, ends_get]
    split
    · rintro _ ⟨⟩
    rw [ends_bind]
    refine (instantiate_serves host id label factory known w).imp ?_
    rintro (f | c) w₁ hserves
    · rintro _ ⟨⟩
    · rintro _ ⟨⟩
      exact hserves c rfl

include hstore

theorem resolve_served (h : Served store w) (hid : id < w.entries.length) :
    Ends (resolve (Site.environment (Builtin.code store host)) id) w fun _ w' =>
      w'.entries.length = w.entries.length ∧ Served store w' := by
  have hcode : (Site.environment (Builtin.code store host)).code.Spares Site.directory :=
    Console.builtin_spares host hstore.directory
  have hkept (w₁ : World (Site π)) (hnumbered : Numbered store w₁)
      (hframe : Frame id w w₁) (hself : ∀ x, (w₁.entry id).warm = some x →
        x.component.Serves (w.entry id).label (w.entry id).source) :
      w₁.entries.length = w.entries.length ∧ Served store w₁ :=
    ⟨hframe.length, h.framed hframe hnumbered hself⟩
  refine (?_ : Ends (resolve (Site.environment (Builtin.code store host)) id) w fun _ w' =>
    Frame id w w' ∧ ∀ x, (w'.entry id).warm = some x →
      x.component.Serves (w.entry id).label (w.entry id).source).and
    (resolve_numbered hstore host h.toNumbered id) |>.imp fun _ w' hw' =>
      hkept w' hw'.2 hw'.1.1 hw'.1.2
  unfold resolve
  simp only [ends_bind, ends_entry]
  split
  · exact ⟨.refl w, fun x => h.serves id x⟩
  rename_i hlive
  have hlive : (w.entry id).disposed = false := by simpa using hlive
  split
  · exact ⟨.refl w, fun x => h.serves id x⟩
  rename_i hcold
  simp only [ends_bind]
  refine (((acquire_spec hcode hlive).and (acquire_entry hcode hid)).and
    (acquire_serves host h.handling id)).imp ?_
  rintro (_ | c) w₁ ⟨⟨hfound, armed, hentry⟩, hserves⟩
  all_goals have hframe := hfound.frame
  all_goals have hid₁ : id < w₁.entries.length := hframe.length ▸ hid
  · simp only [ends_bind, ends_modifyEntry, ends_pure]
    refine ⟨hframe.trans (Frame.modifyEntry rfl rfl fun h => h), fun x hwarm => ?_⟩
    rw [World.entry_modifyEntry_self _ w₁ hid₁, hentry] at hwarm
    exact h.serves id x hwarm
  · have hlive₁ : (w₁.entry id).disposed = false := by rw [hentry]; exact hlive
    have hcold₁ : (w₁.entry id).warm = none := by rw [hentry]; exact hcold
    simp only [ends_bind, ends_record, ends_entry, World.entry_recorded, hlive₁, hcold₁,
      Bool.false_eq_true, if_false, ends_modifyEntry, ends_pure]
    refine ⟨(hframe.trans (Frame.recorded _ w₁)).trans (frame_install c _), fun x hwarm => ?_⟩
    have hinstalled := World.entry_modifyEntry_self (Entry.install c)
      (w₁.recorded id (.acquired c)) hid₁
    have hwarm : (((w₁.recorded id (.acquired c)).modifyEntry id (Entry.install c)).entry id).warm =
      some x := hwarm
    rw [hinstalled] at hwarm
    cases hwarm
    exact hserves c rfl

theorem served_asked (id : EntryId) :
    Asked (Site.environment (Builtin.code store host)) id fun w w' =>
      id < w.entries.length → w'.entries.length = w.entries.length ∧
        (Served store w → Served store w') where
  refl _ _ := ⟨rfl, fun h => h⟩
  trans h h' hid := by
    obtain ⟨hlength, hfirst⟩ := h hid
    obtain ⟨hlength', hsecond⟩ := h' (hlength ▸ hid)
    exact ⟨hlength'.trans hlength, fun hserved => hsecond (hfirst hserved)⟩
  code := by
    have hcode : (Builtin.code store host).Spares Site.directory :=
      Console.builtin_spares host hstore.directory
    have hentries : (Builtin.code store host).Respects fun w w' => w'.entries = w.entries :=
      hcode.respects fun _ _ _ => rfl
    refine (hentries.and (numbered_asked hstore host id).code).mono fun w w' h _ => ?_
    exact ⟨congrArg List.length h.1, fun hserved => hserved.ofSame (h.2 hserved.toNumbered) h.1⟩
  log w log _ :=
    ⟨rfl, fun h => h.ofSame ((numbered_asked hstore host id).log w log h.toNumbered) rfl⟩
  turn w _ hturn _ :=
    ⟨rfl, fun h => h.ofSame ((numbered_asked hstore host id).turn w hturn h.toNumbered) rfl⟩
  write w f hlabel hsource hhold hid := by
    refine ⟨World.length_modifyEntry id f w, fun h => ?_⟩
    have hnumbered := (numbered_asked hstore host id).write w hlabel hsource hhold h.toNumbered
    refine h.framed (Frame.modifyEntry (hlabel _) (hsource _) hhold.disposed.trans) hnumbered
      fun x hwarm => ?_
    rw [World.entry_modifyEntry_self f w hid] at hwarm
    have hcomponent := hhold.component
    rw [hwarm] at hcomponent
    obtain ⟨y, hy, hsame⟩ := Option.map_eq_some_iff.mp hcomponent.symm
    have hsame : y.component = x.component := hsame
    rw [← hsame]
    exact h.serves id y hy
  resolve w hid := by
    by_cases hserved : Served store w
    · exact ⟨(resolve_served hstore host hserved hid).1,
        fun h => (resolve_served hstore host h hid).2⟩
    · have hcode : (Site.environment (Builtin.code store host)).code.Spares Site.directory :=
        Console.builtin_spares host hstore.directory
      exact ⟨(resolve_spec hcode hid).1.frame.length, fun h => absurd h hserved⟩

end Code

/-! ## Categories that are remembered -/

def Entry.WellClassed (e : Entry) : Prop :=
  e.category = .empty ∨ ∃ c, e.category = .resolved c ∧ e.source.shownCategory = some c

theorem Entry.WellClassed.next {e e' : Entry} (h : e.WellClassed) (hsource : e'.source = e.source)
    (hcategory : e'.category = e.category) : e'.WellClassed := by
  unfold WellClassed
  rw [hsource, hcategory]
  exact h

theorem Entry.WellClassed.not_inFlight {e : Entry} (h : e.WellClassed) :
    e.category ≠ .inFlight := by
  obtain hempty | ⟨c, hc, -⟩ := h
  · rw [hempty]
    simp
  · rw [hc]
    simp

/-- Components and categories are what the sources give. -/
structure Furnished (store : Builtin.Store (Site π)) (w : World (Site π)) : Prop
    extends Served store w where
  classed : ∀ id, (w.entry id).WellClassed

theorem Furnished.framed (h : Furnished store w) (hframe : Frame id w w') (hserved : Served store w')
    (hself : (w'.entry id).WellClassed) : Furnished store w' where
  toServed := hserved
  classed other := by
    by_cases ho : other = id
    · rw [ho]
      exact hself
    · rw [hframe.others other ho]
      exact h.classed other

theorem Furnished.ofSame (h : Furnished store w) (hnumbered : Numbered store w')
    (hentries : w'.entries = w.entries) : Furnished store w' where
  toServed := h.toServed.ofSame hnumbered hentries
  classed id := by
    rw [World.entry_congr hentries]
    exact h.classed id

section Code

variable (hstore : store.Apart) (host : Site π → String)
include hstore

theorem resolveCategory_told (h : Served store w) (hid : id < w.entries.length) :
    Ends (resolveCategory (Site.environment (Builtin.code store host)) id) w fun found _ =>
      (∀ c, found.filter (· ≠ "") = some c → (w.entry id).source.shownCategory = some c) ∧
      ((w.entry id).disposed = false → (w.entry id).warm.isSome →
        found.filter (· ≠ "") = (w.entry id).source.shownCategory) := by
  have hcode : (Site.environment (Builtin.code store host)).code.Spares Site.directory :=
    Console.builtin_spares host hstore.directory
  unfold resolveCategory
  simp only [ends_bind, ends_entry]
  split
  · rename_i c hproperty
    have hshown := Source.shownCategory_of_property hproperty
    have hfilter : (some c).filter (· ≠ "") = some c := Source.filter_property hproperty
    rw [ends_pure, hfilter, hshown]
    exact ⟨fun _ h => h, fun _ _ => rfl⟩
  simp only [ends_bind]
  have hserved : Ends (component (Site.environment (Builtin.code store host)) id) w fun _ w' =>
      Served store w' := ((served_asked hstore host id).component w hid).2 h
  refine ((component_answers hcode hid (mayYield_any _ id w.outside _)).and hserved).imp ?_
  rintro (_ | c) w₁ ⟨hanswers, hserved⟩
  · refine ⟨fun c hnone => absurd hnone.symm (Option.some_ne_none c), fun hlive hwarm => ?_⟩
    have hfound := (hanswers.tried hlive).2
    have hkept := hanswers.consulted.slot.isSome hwarm
    rw [Option.map_eq_none_iff.mp hfound.symm] at hkept
    cases hkept
  · have hlive : (w.entry id).disposed = false := by
      by_contra hdisposed
      cases hanswers.gone (by simpa using hdisposed)
    obtain ⟨x, hwarm, rfl⟩ := Option.map_eq_some_iff.mp (hanswers.tried hlive).2.symm
    have hserves := hserved.serves id x hwarm
    rw [hanswers.consulted.source] at hserves
    simp only [ends_bind, ends_record]
    refine Ends.of_eq (hserves.callCategory _) ?_
    exact ⟨fun _ h => h, fun _ _ => rfl⟩

theorem category_told (h : Served store w) (hclassed : (w.entry id).WellClassed)
    (hid : id < w.entries.length) :
    Ends (category (Site.environment (Builtin.code store host)) id) w fun found _ =>
      (∀ c, found = some c → (w.entry id).source.shownCategory = some c) ∧
      ((w.entry id).disposed = false → (w.entry id).warm.isSome →
        found = (w.entry id).source.shownCategory) := by
  unfold category claimCategory
  simp only [ends_bind, ends_entry]
  split
  · rename_i c hcategory
    obtain hempty | ⟨c', hc, hshown⟩ := hclassed
    · cases hcategory.symm.trans hempty
    · cases hcategory.symm.trans hc
      rw [ends_pure, hshown]
      exact ⟨fun _ h => h, fun _ _ => rfl⟩
  · rename_i hcategory
    obtain hempty | ⟨c', hc, -⟩ := hclassed
    · cases hcategory.symm.trans hempty
    · cases hcategory.symm.trans hc
  simp only [ends_bind, ends_modifyEntry, ends_pure]
  have hentry := World.entry_modifyEntry_self (fun e => { e with category := .inFlight }) w hid
  have hclaimed : (w.modifyEntry id fun e => { e with category := .inFlight }).entries.length =
      w.entries.length ∧ (Served store w →
        Served store (w.modifyEntry id fun e => { e with category := .inFlight })) :=
    (served_asked hstore host id).write w (fun _ => rfl) (fun _ => rfl) ⟨rfl, rfl⟩ hid
  generalize w.modifyEntry id (fun e => { e with category := .inFlight }) = w₁ at hentry hclaimed
  have htold := resolveCategory_told hstore host (hclaimed.2 h) (hclaimed.1 ▸ hid)
  rw [hentry] at htold
  exact htold

/-- Queries leave components and categories as the sources give them. -/
theorem furnished_queried : Queried (Site.environment (Builtin.code store host)) Ranged
    (fun w id => id < w.entries.length)
    fun w w' => Attended w w' ∧ (Furnished store w → Furnished store w') := by
  have hcode : (Site.environment (Builtin.code store host)).code.Spares Site.directory :=
    Console.builtin_spares host hstore.directory
  have hattended := attended_queried hcode
  exact {
    refl := fun w => ⟨.refl w, fun h => h⟩
    trans := fun h h' => ⟨hattended.trans h.1 h'.1, fun hfurnished => h'.2 (h.2 hfurnished)⟩
    aside := fun w inHand => ⟨hattended.aside w inHand, fun h => h.ofSame
      ((numbered_queried hstore host).aside w inHand h.toNumbered) rfl⟩
    stays := fun h hmay => hattended.stays h.1 hmay
    keeps := fun h hready => hattended.keeps h.1 hready
    listed := hattended.listed
    component := fun {w id} hid => by
      have hserved : Ends (component (Site.environment (Builtin.code store host)) id) w
          fun _ w' => Served store w → Served store w' :=
        ((served_asked hstore host id).component w hid).2
      refine (((hattended.component hid).and hserved).and ((component_spec hcode hid).and
        (component_answers hcode hid (mayYield_any _ id w.outside _)))).imp ?_
      rintro _ w' ⟨⟨hattends, hserved⟩, hmoves, hanswers⟩
      refine ⟨hattends, fun h => h.framed hmoves.1.frame (hserved h.toServed) ?_⟩
      exact (h.classed id).next hanswers.consulted.source hanswers.category
    title := fun {w id} hid => by
      have hserved : Ends (title (Site.environment (Builtin.code store host)) id) w
          fun _ w' => Served store w → Served store w' :=
        ((served_asked hstore host id).title w hid).2
      refine (((hattended.title hid).and hserved).and ((title_spec hcode hid).and
        (title_entitled hcode hid (mayYield_any _ id w.outside _)))).imp ?_
      rintro _ w' ⟨⟨hattends, hserved⟩, hmoves, hentitled⟩
      refine ⟨hattends, fun h => h.framed hmoves.frame (hserved h.toServed) ?_⟩
      exact (h.classed id).next hentitled.consulted.source hentitled.category
    category := fun {w id} hid => by
      have hserved : Ends (category (Site.environment (Builtin.code store host)) id) w
          fun _ w' => Served store w → Served store w' :=
        ((served_asked hstore host id).category w hid).2
      by_cases hfurnished : Furnished store w
      · refine (((hattended.category hid).and hserved).and (((category_spec hcode hid).and
          (category_categorized hcode hid (mayYield_any _ id w.outside _))).and
          (category_told hstore host hfurnished.toServed (hfurnished.classed id) hid))).imp ?_
        rintro found w' ⟨⟨hattends, hserved⟩, ⟨hmoves, hcategorized⟩, htold, -⟩
        refine ⟨hattends, fun h => h.framed hmoves.frame (hserved h.toServed) ?_⟩
        have hkept := hcategorized.kept (h.classed id).not_inFlight
        unfold Entry.WellClassed
        rw [hcategorized.consulted.source, hkept]
        cases found with
        | none => exact Or.inl rfl
        | some c => exact Or.inr ⟨c, rfl, htold c rfl⟩
      · exact (hattended.category hid).imp fun _ _ h => ⟨h, fun h' => absurd h' hfurnished⟩ }

theorem use_furnished (h : Furnished store w) (hranged : Ranged w) {action : Site.Action π}
    (huse : action.IsUse fun s => (s.directory, store.read s)) :
    Ends (Site.act (Site.environment (Builtin.code store host)) action) w fun _ w' =>
      Furnished store w' := by
  have hcalm {s : Site π} (v : World (Site π)) (hdirectory : s.directory = v.outside.directory)
      (hread : store.read s = store.read v.outside) (h : Furnished store v) :
      Furnished store (v.withOutside s) :=
    h.ofSame (h.toNumbered.advances (.ofSame hdirectory (Nat.le_refl _)
      (Nat.le_of_eq (congrArg List.length hread.symm)) rfl)) rfl
  cases action with
  | registry op =>
    have hperform := (furnished_queried hstore host).perform (w := w) (fun messages hmessages title
      origin locale v => ⟨.ofSame rfl ⟨rfl, rfl, rfl, rfl, rfl, rfl⟩ (Nat.le_refl _), ?_⟩)
      hranged huse.1 huse.2
    · exact hperform.imp fun _ _ hnext => hnext.2 h
    · have hsame := localize_calm hmessages title origin locale v.outside
      exact hcalm v (congrArg Prod.fst hsame) (congrArg Prod.snd hsame)
  | setDisabled factories => exact hcalm w rfl (hstore.read_own rfl) h
  | publish | modify | withdraw | observe => exact absurd huse id

end Code

end PluginConsole
