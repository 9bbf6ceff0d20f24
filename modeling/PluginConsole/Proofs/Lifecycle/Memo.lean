import PluginConsole.Proofs.Lifecycle.Respect
import PluginConsole.Proofs.Lifecycle.Titled

/-!
# Texts are found once

What the first call for a text comes to, and that between two calls nothing is done to what was
found. A component is asked for its title only on the way to a title that nobody had found before.
-/

namespace PluginConsole

variable {σ δ α : Type}

/-! ## How often a title is asked for -/

def EntryEvent.isTitle : EntryEvent → Bool
  | .title _ => true
  | _ => false

def titlesAsked (trace : List EntryEvent) : Nat :=
  trace.countP (·.isTitle)

@[simp] theorem titlesAsked_snoc (trace : List EntryEvent) (event : EntryEvent) :
    titlesAsked (trace ++ [event]) = titlesAsked trace + if event.isTitle then 1 else 0 := by
  simp [titlesAsked, List.countP_cons]

namespace Lifecycle

open Act

variable {env : Environment σ} {view : σ → δ} {id : EntryId} {w w' w'' : World σ}

theorem Ends.congr {act : Act σ α} {info post post' : α → World σ → Prop} (h : Ends act w info)
    (hiff : ∀ a w', info a w' → (post a w' ↔ post' a w')) : Ends act w post ↔ Ends act w post' :=
  hiff _ _ h

theorem ends_congr {act : Act σ α} {post post' : α → World σ → Prop}
    (hiff : ∀ a w', post a w' ↔ post' a w') : Ends act w post ↔ Ends act w post' :=
  hiff _ _

/-! ## Whatever is done without asking for the title -/

structure Remains (id : EntryId) (w w' : World σ) : Prop where
  length : w'.entries.length = w.entries.length
  label : (w'.entry id).label = (w.entry id).label
  source : (w'.entry id).source = (w.entry id).source
  history : w.history <+: w'.history

/-- The entry has the title that it had, and its component was not asked for it. -/
structure Hushed (id : EntryId) (w w' : World σ) : Prop extends Remains id w w' where
  title : (w'.entry id).title = (w.entry id).title
  asked : titlesAsked (w'.eventsOf id) = titlesAsked (w.eventsOf id)

theorem Remains.trans (h : Remains id w w') (h' : Remains id w' w'') : Remains id w w'' where
  length := h'.length.trans h.length
  label := h'.label.trans h.label
  source := h'.source.trans h.source
  history := h.history.trans h'.history

namespace Hushed

theorem refl (w : World σ) : Hushed id w w :=
  ⟨⟨rfl, rfl, rfl, List.prefix_rfl⟩, rfl, rfl⟩

theorem trans (h : Hushed id w w') (h' : Hushed id w' w'') : Hushed id w w'' where
  toRemains := h.toRemains.trans h'.toRemains
  title := h'.title.trans h.title
  asked := h'.asked.trans h.asked

theorem recorded {event : EntryEvent} (hother : event.isTitle = false) (w : World σ) :
    Hushed id w (w.recorded id event) :=
  ⟨⟨rfl, rfl, rfl, List.prefix_append _ _⟩, rfl, by simp [hother]⟩

theorem withOutside (s : σ) (w : World σ) : Hushed id w (w.withOutside s) :=
  ⟨⟨rfl, rfl, rfl, List.prefix_rfl⟩, rfl, rfl⟩

theorem modifyEntry {f : Entry → Entry} (hsame : ∀ e, Entry.SameTitle e (f e)) (w : World σ) :
    Hushed id w (w.modifyEntry id f) := by
  refine ⟨⟨World.length_modifyEntry id f w, ?_, ?_, List.prefix_rfl⟩, ?_, rfl⟩
  all_goals rcases World.entry_modifyEntry_cases id f w with h | h <;> rw [h]
  · exact (hsame _).label
  · exact (hsame _).source
  · exact (hsame _).title

end Hushed

theorem hushed_conversant (hcode : env.code.Spares view) (id : EntryId) :
    Conversant env id (Hushed id) where
  refl := .refl
  trans := .trans
  code := hcode.respects fun w s _ => .withOutside s w
  log _ _ := ⟨⟨rfl, rfl, rfl, List.prefix_rfl⟩, rfl, rfl⟩
  records w event hsupply := .recorded (by cases event <;> first | rfl | exact hsupply.elim) w
  count _ := ⟨⟨rfl, rfl, rfl, List.prefix_rfl⟩, rfl, rfl⟩
  write w _ hsame := .modifyEntry (fun e => (hsame e).toSameTitle) w
  getService _ w := .withOutside _ w
  releaseService _ w := .withOutside _ w
  destroys w _ := .recorded rfl w
  tells w _ _ _ := .recorded rfl w
  sorts w _ := .recorded rfl w

theorem ends_componentNamed_congr (hcode : env.code.Spares view) {titleOf titleOf' : Act σ String}
    (htitles : ∀ w', Hushed id w w' → titleOf w' = titleOf' w')
    {post : Option Component → World σ → Prop} :
    Ends (componentNamed env titleOf id) w post ↔ Ends (componentNamed env titleOf' id) w post := by
  have hhushed := hushed_conversant hcode id
  unfold componentNamed
  simp only [ends_bind]
  refine Ends.congr (hhushed.toSupplied.resolve.ends w) fun found w₁ h₁ => ?_
  rcases found with _ | c
  · exact Iff.rfl
  simp only [ends_bind, ends_get]
  split
  · exact Iff.rfl
  simp only [ends_bind]
  refine Ends.congr ((hhushed.toSupplied.claimBinding c _).ends w₁) fun claimed w₂ h₂ => ?_
  cases claimed with
  | false => exact Iff.rfl
  | true =>
    unfold initComponent
    simp only [if_true, ends_bind]
    unfold Ends
    rw [htitles w₂ (h₁.trans h₂)]

theorem ends_component_of_inFlight (hcode : env.code.Spares view)
    (h : (w.entry id).title = .inFlight) {post : Option Component → World σ → Prop} :
    Ends (component env id) w post ↔
      Ends (componentNamed env (pure (w.entry id).label) id) w post := by
  refine ends_componentNamed_congr hcode fun w' hhushed => ?_
  rw [title_of_inFlight (hhushed.title.trans h), hhushed.label]
  rfl

/-! ## The first call -/

/-- What an answer is worth as a title. -/
def wordedTitle (label : String) : Outcome String → String
  | .ok t => if t = "" then label else t
  | .error _ => label

def wordedCategory : Outcome (Option String) → Option String
  | .ok found => found.filter (· ≠ "")
  | .error _ => none

def writeTitle (id : EntryId) (title : Cached) (w : World σ) : World σ :=
  w.modifyEntry id fun e => { e with title }

def writeCategory (id : EntryId) (category : Cached) (w : World σ) : World σ :=
  w.modifyEntry id fun e => { e with category }

/-- The title of an entry that nobody has found yet: what the registration brings, or else what the
component says if it is there, or else the label. -/
structure FirstTitle (env : Environment σ) (id : EntryId) (w : World σ) (t : String)
    (w' : World σ) : Prop where
  announced : ∀ p, (w.entry id).source.property Property.title = some p →
    t = p ∧ w' = writeTitle id (.resolved p) w
  otherwise : (w.entry id).source.property Property.title = none →
    Ends (component env id) (writeTitle id .inFlight w) fun found w₁ => match found with
      | none => t = (w.entry id).label ∧ w' = writeTitle id (.resolved t) w₁
      | some c => Ends (callTitle env c) (w₁.recorded id (.title c)) fun answer w₂ =>
        t = wordedTitle (w.entry id).label answer ∧ w' = writeTitle id (.resolved t) w₂

/-- The category of an entry while it has none. There is no label to fall back on. -/
structure FreshCategory (env : Environment σ) (id : EntryId) (w : World σ) (found : Option String)
    (w' : World σ) : Prop where
  announced : ∀ p, (w.entry id).source.property Property.category = some p →
    found = some p ∧ w' = writeCategory id (.resolved p) w
  otherwise : (w.entry id).source.property Property.category = none →
    Ends (component env id) (writeCategory id .inFlight w) fun component w₁ => match component with
      | none => found = none ∧ w' = writeCategory id .empty w₁
      | some c => Ends (callCategory env c) (w₁.recorded id (.category c)) fun answer w₂ =>
        found = wordedCategory answer ∧ w' = writeCategory id (keptCategory found) w₂

theorem writeTitle_writeTitle (t t' : Cached) (w : World σ) :
    writeTitle id t' (writeTitle id t w) = writeTitle id t' w := by
  simp [writeTitle, World.modifyEntry, List.modify_modify_eq, Function.comp_def]

theorem writeCategory_writeCategory (c c' : Cached) (w : World σ) :
    writeCategory id c' (writeCategory id c w) = writeCategory id c' w := by
  simp [writeCategory, World.modifyEntry, List.modify_modify_eq, Function.comp_def]

theorem entry_writeTitle (hid : id < w.entries.length) (t : Cached) :
    (writeTitle id t w).entry id = { w.entry id with title := t } :=
  World.entry_modifyEntry_self _ w hid

theorem entry_writeCategory (hid : id < w.entries.length) (c : Cached) :
    (writeCategory id c w).entry id = { w.entry id with category := c } :=
  World.entry_modifyEntry_self _ w hid

theorem filter_answer (label t : String) :
    ((some t).filter (· ≠ "")).getD label = wordedTitle label (.ok t) := by
  by_cases ht : t = "" <;> simp [wordedTitle, Option.filter, ht]

section Empty

variable {post : String → World σ → Prop} {post' : Option String → World σ → Prop}

theorem ends_title_of_empty (h : (w.entry id).title = .empty) :
    Ends (title env id) w post ↔
      Ends (resolveTitle env id) (writeTitle id .inFlight w) fun found w' =>
        let t := (found.filter (· ≠ "")).getD (w.entry id).label
        post t (writeTitle id (.resolved t) w') := by
  unfold title claimTitle
  simp only [ends_bind, ends_entry, h, ends_modifyEntry, ends_pure]
  exact Iff.rfl

theorem ends_category_of_empty (h : (w.entry id).category = .empty) :
    Ends (category env id) w post' ↔
      Ends (resolveCategory env id) (writeCategory id .inFlight w) fun found w' =>
        let c := found.filter (· ≠ "")
        post' c (writeCategory id (keptCategory c) w') := by
  unfold category claimCategory
  simp only [ends_bind, ends_entry, h, ends_modifyEntry, ends_pure]
  exact Iff.rfl

variable (hid : id < w.entries.length)
include hid

theorem ends_category_of_silent (h : (w.entry id).category = .empty)
    (hsilent : (w.entry id).source.property Property.category = none) :
    Ends (category env id) w post' ↔
      Ends (component env id) (writeCategory id .inFlight w) fun component w₁ =>
        match component with
        | none => post' none (writeCategory id .empty w₁)
        | some c => Ends (callCategory env c) (w₁.recorded id (.category c)) fun answer w₂ =>
          post' (wordedCategory answer) (writeCategory id (keptCategory (wordedCategory answer)) w₂) := by
  rw [ends_category_of_empty h]
  unfold resolveCategory
  rw [ends_bind, ends_entry, entry_writeCategory hid]
  dsimp only
  rw [hsilent]
  rw [ends_bind]
  refine ends_congr fun found w₁ => ?_
  cases found with
  | none => exact Iff.rfl
  | some c =>
    simp only [ends_bind, ends_record]
    refine ends_congr fun answer w₂ => ?_
    rcases answer with f | text <;> exact Iff.rfl

theorem ends_title_of_silent (hcode : env.code.Spares view) (h : (w.entry id).title = .empty)
    (hsilent : (w.entry id).source.property Property.title = none) :
    Ends (title env id) w post ↔
      Ends (component env id) (writeTitle id .inFlight w) fun found w₁ => match found with
        | none => post (w.entry id).label (writeTitle id (.resolved (w.entry id).label) w₁)
        | some c => Ends (callTitle env c) (w₁.recorded id (.title c)) fun answer w₂ =>
          let t := wordedTitle (w.entry id).label answer
          post t (writeTitle id (.resolved t) w₂) := by
  have hentry := entry_writeTitle hid .inFlight
  rw [ends_title_of_empty h, ends_component_of_inFlight hcode (by rw [hentry])]
  unfold resolveTitle
  rw [ends_bind, ends_entry, hentry]
  dsimp only
  rw [hsilent]
  rw [ends_bind]
  refine ends_congr fun found w₁ => ?_
  cases found with
  | none => exact Iff.rfl
  | some c =>
    simp only [ends_bind, ends_record]
    refine ends_congr fun answer w₂ => ?_
    rcases answer with f | t
    · exact Iff.rfl
    · rw [← filter_answer]
      exact Iff.rfl

end Empty

theorem title_first (hcode : env.code.Spares view) (hid : id < w.entries.length)
    (hempty : (w.entry id).title = .empty) :
    FirstTitle env id w (title env id w).1 (title env id w).2 where
  announced p hp := by
    have hends : Ends (title env id) w fun t w' => t = p ∧ w' = writeTitle id (.resolved p) w := by
      rw [ends_title_of_empty hempty]
      unfold resolveTitle
      rw [ends_bind, ends_entry, entry_writeTitle hid]
      dsimp only
      rw [hp]
      simp only [ends_pure, Source.filter_property hp, Option.getD_some]
      exact ⟨trivial, writeTitle_writeTitle _ _ w⟩
    exact hends
  otherwise hsilent := by
    have hresult : Ends (title env id) w fun t w' =>
        (title env id w).1 = t ∧ (title env id w).2 = w' := ⟨rfl, rfl⟩
    rw [ends_title_of_silent hid hcode hempty hsilent] at hresult
    refine hresult.imp fun found w₁ h => ?_
    cases found with
    | none =>
      obtain ⟨ht, hw⟩ := h
      rw [ht]
      exact ⟨rfl, hw⟩
    | some c =>
      refine Ends.imp h ?_
      rintro answer w₂ ⟨ht, hw⟩
      rw [ht]
      exact ⟨rfl, hw⟩

theorem category_fresh (hid : id < w.entries.length) (hempty : (w.entry id).category = .empty) :
    FreshCategory env id w (category env id w).1 (category env id w).2 where
  announced p hp := by
    have hends : Ends (category env id) w fun found w' =>
        found = some p ∧ w' = writeCategory id (.resolved p) w := by
      rw [ends_category_of_empty hempty]
      unfold resolveCategory
      rw [ends_bind, ends_entry, entry_writeCategory hid]
      dsimp only
      rw [hp]
      simp only [ends_pure, Source.filter_property hp]
      exact ⟨trivial, writeCategory_writeCategory _ _ w⟩
    exact hends
  otherwise hsilent := by
    have hresult : Ends (category env id) w fun found w' =>
        (category env id w).1 = found ∧ (category env id w).2 = w' := ⟨rfl, rfl⟩
    rw [ends_category_of_silent hid hempty hsilent] at hresult
    refine hresult.imp fun found w₁ h => ?_
    cases found with
    | none => exact h
    | some c =>
      refine Ends.imp h ?_
      rintro answer w₂ ⟨hfound, hw⟩
      rw [hfound]
      exact ⟨rfl, hw⟩

theorem title_kept (hcode : env.code.Spares view) (hid : id < w.entries.length)
    (hfree : (w.entry id).title ≠ .inFlight) :
    Ends (title env id) w fun t w' => (w'.entry id).title = .resolved t := by
  cases htitle : (w.entry id).title with
  | inFlight => exact absurd htitle hfree
  | resolved t => exact Ends.of_eq (title_of_resolved htitle) htitle
  | empty =>
    have hid₁ : id < (writeTitle id .inFlight w).entries.length := by
      unfold writeTitle
      rw [World.length_modifyEntry]
      exact hid
    rw [ends_title_of_empty htitle]
    refine (resolveTitle_spec hcode hid₁).imp fun found w₁ hmoves => ?_
    show ((writeTitle id (.resolved _) w₁).entry id).title = .resolved _
    rw [entry_writeTitle (hmoves.frame.length ▸ hid₁)]

end Lifecycle

end PluginConsole
