import PluginConsole.Proofs.Lifecycle.Memo

/-!
# What an entry remembers of its texts

A text of an entry stays what it was, or it was found in the meantime by one call, which was the
first. The component is asked for its title in that call at most.
-/

namespace PluginConsole.Lifecycle

open Act Entry

variable {σ δ α : Type} {env : Environment σ} {view : σ → δ} {id : EntryId} {w w' w'' : World σ}

/-! ## Who found a text -/

/-- Nobody had found the text before this call, and this is what it gave. -/
structure FirstCall (text : Entry → Cached) (ask : Act σ α) (id : EntryId) (w : World σ) (a : α) :
    Prop where
  made : id < w.entries.length
  empty : text (w.entry id) = .empty
  gave : (ask w).1 = a

/-- Some call for the text of this same entry, back in `w₀`, was the first. -/
structure FoundBy (text : Entry → Cached) (ask : Act σ α) (id : EntryId) (w w₀ : World σ) (a : α) :
    Prop where
  call : FirstCall text ask id w₀ a
  label : (w₀.entry id).label = (w.entry id).label
  source : (w₀.entry id).source = (w.entry id).source
  past : (ask w₀).2.history <+: w.history

abbrev TitleFoundBy (env : Environment σ) (id : EntryId) (w w₀ : World σ) (t : String) : Prop :=
  FoundBy Entry.title (title env id) id w w₀ t

abbrev CategoryFoundBy (env : Environment σ) (id : EntryId) (w w₀ : World σ) (c : String) : Prop :=
  FoundBy Entry.category (category env id) id w w₀ (some c)

theorem FoundBy.later {text : Entry → Cached} {ask : Act σ α} {w₀ : World σ} {a : α}
    (h : FoundBy text ask id w w₀ a) (hlabel : (w'.entry id).label = (w.entry id).label)
    (hsource : (w'.entry id).source = (w.entry id).source) (hhistory : w.history <+: w'.history) :
    FoundBy text ask id w' w₀ a :=
  ⟨h.call, h.label.trans hlabel.symm, h.source.trans hsource.symm, h.past.trans hhistory⟩

theorem found_later {text : Entry → Cached} {ask : Act σ α} {answer : String → α}
    (h : ∀ t, text (w.entry id) = .resolved t → ∃ w₀, FoundBy text ask id w w₀ (answer t))
    (hsame : text (w'.entry id) = text (w.entry id))
    (hlabel : (w'.entry id).label = (w.entry id).label)
    (hsource : (w'.entry id).source = (w.entry id).source) (hhistory : w.history <+: w'.history)
    (t : String) (ht : text (w'.entry id) = .resolved t) :
    ∃ w₀, FoundBy text ask id w' w₀ (answer t) := by
  obtain ⟨w₀, hfound⟩ := h t (hsame.symm.trans ht)
  exact ⟨w₀, hfound.later hlabel hsource hhistory⟩

/-! ## The title -/

inductive TitleCourse (env : Environment σ) (id : EntryId) (w w' : World σ) : Prop where
  | kept (htitle : (w'.entry id).title = (w.entry id).title)
    (hasked : titlesAsked (w'.eventsOf id) = titlesAsked (w.eventsOf id))
  | found (w₀ : World σ) (t : String) (hempty : (w.entry id).title = .empty)
    (hfound : TitleFoundBy env id w' w₀ t) (htitle : (w'.entry id).title = .resolved t)
    (hasked : titlesAsked (w'.eventsOf id) ≤ titlesAsked (w.eventsOf id) + 1)

structure Heard (env : Environment σ) (id : EntryId) (w w' : World σ) : Prop
    extends Remains id w w' where
  course : TitleCourse env id w w'

theorem Hushed.heard (h : Hushed id w w') : Heard env id w w' :=
  ⟨h.toRemains, .kept h.title h.asked⟩

theorem Heard.trans (h : Heard env id w w') (h' : Heard env id w' w'') : Heard env id w w'' := by
  refine ⟨h.toRemains.trans h'.toRemains, ?_⟩
  cases h.course with
  | kept htitle hasked =>
    cases h'.course with
    | kept htitle' hasked' => exact .kept (htitle'.trans htitle) (hasked'.trans hasked)
    | found w₀ t hempty hfound htitle' hasked' =>
      exact .found w₀ t (htitle ▸ hempty) hfound htitle' (hasked ▸ hasked')
  | found w₀ t hempty hfound htitle hasked =>
    cases h'.course with
    | kept htitle' hasked' =>
      exact .found w₀ t hempty (hfound.later h'.label h'.source h'.history)
        (htitle'.trans htitle) (hasked'.symm ▸ hasked)
    | found _ _ hempty' =>
      -- A title is found in the first stretch or in the second, not in both.
      rw [htitle] at hempty'
      cases hempty'

theorem Heard.retold (h : Heard env id w w') : Retold (w.entry id).title (w'.entry id).title := by
  cases h.course with
  | kept htitle => exact Or.inl htitle
  | found _ t hempty _ htitle => exact Or.inr ⟨hempty, t, htitle⟩

def HeardAt (env : Environment σ) (id : EntryId) (w w' : World σ) : Prop :=
  id < w.entries.length → Heard env id w w'

theorem heardAt_trans (h : HeardAt env id w w') (h' : HeardAt env id w' w'') :
    HeardAt env id w w'' := by
  intro hid
  have hfirst := h hid
  exact hfirst.trans (h' (hfirst.length.symm ▸ hid))

def Unsorted (id : EntryId) (w w' : World σ) : Prop :=
  id < w.entries.length → w'.entries.length = w.entries.length ∧
    (w'.entry id).category = (w.entry id).category

section Spares

variable (hcode : env.code.Spares view)
include hcode

theorem heard_conversant (id : EntryId) : Conversant env id (HeardAt env id) := by
  have h := hushed_conversant hcode id
  exact
    { refl := fun w _ => (h.refl w).heard
      trans := heardAt_trans
      code := h.code.mono fun _ _ hhushed _ => hhushed.heard
      log := fun w log _ => (h.log w log).heard
      records := fun w _ hsupply _ => (h.records w hsupply).heard
      count := fun w _ => (h.count w).heard
      write := fun w _ hsame _ => (h.write w hsame).heard
      getService := fun r w _ => (h.getService r w).heard
      releaseService := fun r w _ => (h.releaseService r w).heard
      destroys := fun w c _ => (h.destroys w c).heard
      tells := fun w c ref config _ => (h.tells w c ref config).heard
      sorts := fun w c _ => (h.sorts w c).heard }

theorem resolveTitle_asked (w : World σ) :
    Ends (resolveTitle env id) w fun _ w' => Remains id w w' ∧
      titlesAsked (w'.eventsOf id) ≤ titlesAsked (w.eventsOf id) + 1 := by
  have hhushed := hushed_conversant hcode id
  unfold resolveTitle
  simp only [ends_bind, ends_entry]
  split
  · exact ⟨(Hushed.refl w).toRemains, Nat.le_succ _⟩
  simp only [ends_bind]
  refine ((hhushed.componentNamed (hhushed.pure _)).ends w).imp fun found w₁ h => ?_
  rcases found with _ | c
  · exact ⟨h.toRemains, h.asked ▸ Nat.le_succ _⟩
  simp only [ends_bind, ends_record]
  have hasked : titlesAsked ((w₁.recorded id (.title c)).eventsOf id) =
      titlesAsked (w.eventsOf id) + 1 := by
    rw [World.eventsOf_recorded_self, titlesAsked_snoc, h.asked]
    rfl
  have htold : Remains id w₁ (w₁.recorded id (.title c)) :=
    ⟨rfl, rfl, rfl, List.prefix_append _ _⟩
  refine (callTitle_spares hcode c).ends fun answer s _ => ?_
  have hdone := h.toRemains.trans (htold.trans (Hushed.withOutside s _).toRemains)
  rcases answer with f | t <;> exact ⟨hdone, Nat.le_of_eq hasked⟩

omit hcode in
theorem remains_writeTitle (t : Cached) (w : World σ) : Remains id w (writeTitle id t w) := by
  refine ⟨World.length_modifyEntry id _ w, ?_, ?_, List.prefix_rfl⟩
  all_goals
    unfold writeTitle
    rcases World.entry_modifyEntry_cases id (fun e => { e with title := t }) w with h | h <;> rw [h]

theorem title_asked (hempty : (w.entry id).title = .empty) :
    Ends (title env id) w fun _ w' => Remains id w w' ∧
      titlesAsked (w'.eventsOf id) ≤ titlesAsked (w.eventsOf id) + 1 := by
  rw [ends_title_of_empty hempty]
  refine (resolveTitle_asked hcode _).imp ?_
  rintro found w₁ ⟨hremains, hasked⟩
  exact ⟨((remains_writeTitle _ w).trans hremains).trans (remains_writeTitle _ w₁), hasked⟩

theorem title_heard (id : EntryId) : (title env id).Respects (HeardAt env id) := by
  intro w hid
  cases htitle : (w.entry id).title with
  | resolved t =>
    rw [title_of_resolved htitle]
    exact (Hushed.refl w).heard
  | inFlight =>
    rw [title_of_inFlight htitle]
    exact (Hushed.refl w).heard
  | empty =>
    have hkept := title_kept hcode hid (by rw [htitle]; simp)
    obtain ⟨hremains, hasked⟩ := title_asked hcode htitle
    have hfound : TitleFoundBy env id (title env id w).2 w (title env id w).1 :=
      ⟨⟨hid, htitle, rfl⟩, hremains.label.symm, hremains.source.symm, List.prefix_rfl⟩
    exact ⟨hremains, .found w _ htitle hfound hkept hasked⟩

/-! ## The category -/

theorem unsorted_conversant (id : EntryId) : Conversant env id (Unsorted id : World σ → _) where
  refl _ _ := ⟨rfl, rfl⟩
  trans h h' hid := by
    obtain ⟨hlength, hsame⟩ := h hid
    obtain ⟨hlength', hsame'⟩ := h' (hlength.symm ▸ hid)
    exact ⟨hlength'.trans hlength, hsame'.trans hsame⟩
  code := hcode.respects fun _ _ _ _ => ⟨rfl, rfl⟩
  log _ _ _ := ⟨rfl, rfl⟩
  records _ _ _ _ := ⟨rfl, rfl⟩
  count _ _ := ⟨rfl, rfl⟩
  write w f hsame hid := by
    refine ⟨World.length_modifyEntry id f w, ?_⟩
    rw [World.entry_modifyEntry_self f w hid]
    exact (hsame _).category
  getService _ _ _ := ⟨rfl, rfl⟩
  releaseService _ _ _ := ⟨rfl, rfl⟩
  destroys _ _ _ := ⟨rfl, rfl⟩
  tells _ _ _ _ _ := ⟨rfl, rfl⟩
  sorts _ _ _ := ⟨rfl, rfl⟩

theorem title_unsorted (id : EntryId) : (title env id).Respects (Unsorted id) := by
  intro w hid
  have hmay := mayYield_any env id w.outside (w.entry id).source
  have hlength := (title_heard hcode id w hid).length
  exact ⟨hlength, (title_entitled hcode hid hmay).category⟩

/-! ## All that is done with an entry -/

theorem frame_dismantled (id : EntryId) : Dismantled env id (Frame id) where
  refl := .refl
  trans := .trans
  code := hcode.respects fun w s _ => .withOutside s w
  log w log := .aside log w.serial w.inHand w
  records w _ _ := .recorded _ w
  count w := .aside w.log (w.serial + 1) w.inHand w
  write _ _ hsame := .modifyEntry (hsame _).label (hsame _).source (hsame _).disposed
  getService _ w := .withOutside _ w
  releaseService _ w := .withOutside _ w
  destroys w c := .recorded (.destroy c) w

theorem frame_asked (id : EntryId) : Asked env id (Frame id) where
  toBehaved := (frame_dismantled hcode id).toBehaved
  log := (frame_dismantled hcode id).log
  turn w _ _ := .recorded _ w
  write _ _ hlabel hsource hhold :=
    .modifyEntry (hlabel _) (hsource _) fun hd => hhold.disposed.trans hd
  resolve := (frame_dismantled hcode id).resolve

end Spares

inductive CategoryCourse (env : Environment σ) (id : EntryId) (w w' : World σ) : Prop where
  | kept (hsame : (w'.entry id).category = (w.entry id).category)
  | found (c : String) (hfound : CategoryFoundBy env id w' w c)
    (hcategory : (w'.entry id).category = .resolved c)

theorem CategoryCourse.retold (h : CategoryCourse env id w w') :
    Retold (w.entry id).category (w'.entry id).category := by
  cases h with
  | kept hsame => exact Or.inl hsame
  | found c hfound hcategory => exact Or.inr ⟨hfound.call.empty, c, hcategory⟩

/-- What became of the texts of an entry, whatever was asked of it. -/
structure Reworded (env : Environment σ) (id : EntryId) (w w' : World σ) : Prop
    extends Heard env id w w' where
  frame : Frame id w w'
  category : CategoryCourse env id w w'

theorem reworded {act : Act σ α} (hid : id < w.entries.length)
    (hheard : act.Respects (HeardAt env id)) (hunsorted : act.Respects (Unsorted id))
    (hframe : act.Respects (Frame id)) : Ends act w fun _ w' => Reworded env id w w' where
  toHeard := hheard w hid
  frame := hframe w
  category := .kept (hunsorted w hid).2

section Entry

variable (hcode : env.code.Spares view) (hid : id < w.entries.length)
include hcode hid

theorem title_reworded : Ends (title env id) w fun _ w' => Reworded env id w w' :=
  reworded hid (title_heard hcode id) (title_unsorted hcode id) (frame_asked hcode id).title

theorem component_reworded : Ends (component env id) w fun _ w' => Reworded env id w w' :=
  reworded hid ((heard_conversant hcode id).component (title_heard hcode id))
    ((unsorted_conversant hcode id).component (title_unsorted hcode id))
    (frame_asked hcode id).component

theorem init_reworded (ref : ContextRef) :
    Ends (init env id ref) w fun _ w' => Reworded env id w w' :=
  reworded hid ((heard_conversant hcode id).init (title_heard hcode id) ref)
    ((unsorted_conversant hcode id).init (title_unsorted hcode id) ref)
    ((frame_asked hcode id).init ref)

theorem destroy_reworded : Ends (destroy env id) w fun _ w' => Reworded env id w w' :=
  reworded hid (heard_conversant hcode id).destroy (unsorted_conversant hcode id).destroy
    (frame_dismantled hcode id).destroy

theorem dispose_reworded : Ends (dispose env id) w fun _ w' => Reworded env id w w' :=
  reworded hid (heard_conversant hcode id).dispose (unsorted_conversant hcode id).dispose
    (frame_dismantled hcode id).dispose

/-- A category that was found is kept, and none is looked for again. -/
theorem category_kept (hfree : (w.entry id).category ≠ .inFlight) :
    Ends (category env id) w fun found w' => (w'.entry id).category = keptCategory found :=
  (category_categorized hcode hid (mayYield_any env id w.outside _)).imp fun _ _ h => h.kept hfree

theorem category_heard : Ends (category env id) w fun _ w' => Heard env id w w' := by
  refine (heard_conversant hcode id).category (title_heard hcode id) (fun w category _ => ?_) w hid
  have hsame (e : Entry) : Entry.SameTitle e { e with category } := ⟨rfl, rfl, rfl, fun hd => hd⟩
  exact (Hushed.modifyEntry hsame w).heard

theorem category_course :
    Ends (category env id) w fun _ w' => CategoryCourse env id w w' := by
  have hmay := mayYield_any env id w.outside (w.entry id).source
  have hheard := category_heard hcode hid
  rcases (category_categorized hcode hid hmay).consulted.category with hsame | ⟨hempty, c, hc, -⟩
  · exact .kept hsame
  · have hkept := category_kept hcode hid (by rw [hempty]; simp)
    have hgave : (category env id w).1 = some c :=
      keptCategory_eq_resolved.mp (Eq.trans hkept.symm hc)
    exact .found c ⟨⟨hid, hempty, hgave⟩, hheard.label.symm, hheard.source.symm, List.prefix_rfl⟩ hc

theorem category_reworded : Ends (category env id) w fun _ w' => Reworded env id w w' where
  toHeard := category_heard hcode hid
  frame := (frame_asked hcode id).category w
  category := category_course hcode hid

end Entry

theorem category_of_resolved {c : String} (h : (w.entry id).category = .resolved c) :
    category env id w = (some c, w) := by
  have hends : Ends (category env id) w fun found w' => (found, w') = (some c, w) := by
    unfold category claimCategory
    simp only [ends_bind, ends_entry, h, ends_pure]
  exact hends

/-! ## What an entry remembers between two calls -/

structure Recalled (env : Environment σ) (id : EntryId) (w : World σ) : Prop where
  title : (w.entry id).title ≠ .inFlight
  category : (w.entry id).category ≠ .inFlight
  unasked : (w.entry id).title = .empty → titlesAsked (w.eventsOf id) = 0
  once : titlesAsked (w.eventsOf id) ≤ 1
  found : ∀ t, (w.entry id).title = .resolved t → ∃ w₀, TitleFoundBy env id w w₀ t
  sorted : ∀ c, (w.entry id).category = .resolved c → ∃ w₀, CategoryFoundBy env id w w₀ c

namespace Recalled

theorem fresh (htitle : (w.entry id).title = .empty) (hcategory : (w.entry id).category = .empty)
    (hunborn : w.eventsOf id = []) : Recalled env id w where
  title := by simp [htitle]
  category := by simp [hcategory]
  unasked _ := by rw [hunborn]; rfl
  once := by rw [hunborn]; exact Nat.zero_le 1
  found t ht := by
    rw [htitle] at ht
    cases ht
  sorted c hc := by
    rw [hcategory] at hc
    cases hc

theorem same (h : Recalled env id w) (hentry : w'.entry id = w.entry id)
    (hevents : w'.eventsOf id = w.eventsOf id) (hhistory : w.history <+: w'.history) :
    Recalled env id w' where
  title := hentry ▸ h.title
  category := hentry ▸ h.category
  unasked := by
    rw [hentry, hevents]
    exact h.unasked
  once := hevents ▸ h.once
  found := found_later h.found (by rw [hentry]) (by rw [hentry]) (by rw [hentry]) hhistory
  sorted := found_later h.sorted (by rw [hentry]) (by rw [hentry]) (by rw [hentry]) hhistory

theorem reworded (h : Recalled env id w) (hreworded : Reworded env id w w') :
    Recalled env id w' where
  title := hreworded.retold.not_inFlight h.title
  category := hreworded.category.retold.not_inFlight h.category
  unasked hempty := by
    cases hreworded.course with
    | kept htitle hasked =>
      rw [hasked]
      exact h.unasked (htitle ▸ hempty)
    | found _ _ _ _ htitle =>
      rw [htitle] at hempty
      cases hempty
  once := by
    cases hreworded.course with
    | kept _ hasked => exact hasked ▸ h.once
    | found _ _ hempty _ _ hasked =>
      rw [h.unasked hempty] at hasked
      exact hasked
  found t ht := by
    cases hreworded.course with
    | kept htitle =>
      exact found_later h.found htitle hreworded.label hreworded.source hreworded.history t ht
    | found w₀ t' _ hfound htitle =>
      rw [htitle] at ht
      cases ht
      exact ⟨w₀, hfound⟩
  sorted c hc := by
    cases hreworded.category with
    | kept hsame =>
      exact found_later h.sorted hsame hreworded.label hreworded.source hreworded.history c hc
    | found c' hfound hcategory =>
      rw [hcategory] at hc
      cases hc
      exact ⟨w, hfound⟩

end Recalled

end PluginConsole.Lifecycle
