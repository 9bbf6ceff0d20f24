import PluginConsole.Registry.World

/-!
# How steps end

`Act.Ends` says of a step, started in one world, what holds of its result and of the
world it leaves. One rule for each elementary step opens a larger one from the left.
-/

namespace PluginConsole

variable {σ δ α β : Type}

theorem split_snoc {P : List α → α → Prop} {items : List α}
    (h : ∀ before item after, items = before ++ item :: after → P before item) {last : α}
    (hlast : P items last) (before : List α) (item : α) (after : List α)
    (heq : items ++ [last] = before ++ item :: after) : P before item := by
  rcases List.eq_nil_or_concat after with rfl | ⟨after, other, rfl⟩
  · obtain ⟨rfl, hsame⟩ := List.append_inj' heq rfl
    cases hsame
    exact hlast
  · rw [List.concat_eq_append, ← List.cons_append, ← List.append_assoc] at heq
    exact h before item after (List.append_inj' heq rfl).1

namespace World

def recorded (id : EntryId) (event : EntryEvent) (w : World σ) : World σ :=
  { w with history := w.history ++ [⟨id, event, w.outside⟩] }

def withOutside (s : σ) (w : World σ) : World σ :=
  { w with outside := s }

def eventsOf (id : EntryId) (w : World σ) : List EntryEvent :=
  (w.history.filter (·.entry = id)).map (·.event)

@[simp] theorem entry_recorded (id other : EntryId) (event : EntryEvent) (w : World σ) :
    (w.recorded id event).entry other = w.entry other := rfl

@[simp] theorem entry_withOutside (s : σ) (id : EntryId) (w : World σ) :
    (w.withOutside s).entry id = w.entry id := rfl

@[simp] theorem entries_recorded (id : EntryId) (event : EntryEvent) (w : World σ) :
    (w.recorded id event).entries = w.entries := rfl

@[simp] theorem entries_withOutside (s : σ) (w : World σ) : (w.withOutside s).entries = w.entries := rfl

@[simp] theorem eventsOf_withOutside (s : σ) (id : EntryId) (w : World σ) :
    (w.withOutside s).eventsOf id = w.eventsOf id := rfl

@[simp] theorem eventsOf_modifyEntry (id other : EntryId) (f : Entry → Entry) (w : World σ) :
    (w.modifyEntry id f).eventsOf other = w.eventsOf other := rfl

@[simp] theorem eventsOf_recorded_self (id : EntryId) (event : EntryEvent) (w : World σ) :
    (w.recorded id event).eventsOf id = w.eventsOf id ++ [event] := by
  simp [eventsOf, recorded]

theorem eventsOf_recorded_of_ne {id other : EntryId} (h : other ≠ id) (event : EntryEvent)
    (w : World σ) : (w.recorded id event).eventsOf other = w.eventsOf other := by
  simp [eventsOf, recorded, Ne.symm h]

@[simp] theorem length_modifyEntry (id : EntryId) (f : Entry → Entry) (w : World σ) :
    (w.modifyEntry id f).entries.length = w.entries.length := by
  simp [modifyEntry]

theorem entry_of_le {id : EntryId} {w : World σ} (h : w.entries.length ≤ id) :
    w.entry id = default := by
  simp [entry, List.getD_eq_getElem?_getD, List.getElem?_eq_none h]

theorem entry_congr {w w' : World σ} (h : w'.entries = w.entries) (id : EntryId) :
    w'.entry id = w.entry id := by
  unfold entry
  rw [h]

theorem eventsOf_congr {w w' : World σ} (h : w'.history = w.history) (id : EntryId) :
    w'.eventsOf id = w.eventsOf id := by
  unfold eventsOf
  rw [h]

theorem entry_modifyEntry_cases (id : EntryId) (f : Entry → Entry) (w : World σ) :
    (w.modifyEntry id f).entry id = f (w.entry id) ∨
      (w.modifyEntry id f).entry id = w.entry id := by
  by_cases h : id < w.entries.length
  · exact Or.inl (entry_modifyEntry_self f w h)
  · right
    simp [entry, modifyEntry, List.getD_eq_getElem?_getD, List.getElem?_eq_none (Nat.not_lt.mp h)]

end World

namespace Act

/-- What holds of the result of a step and of the world after it. -/
def Ends (act : Act σ α) (w : World σ) (post : α → World σ → Prop) : Prop :=
  post (act w).1 (act w).2

variable {post : α → World σ → Prop} {w : World σ}

theorem Ends.imp {act : Act σ α} {post' : α → World σ → Prop} (h : Ends act w post)
    (himp : ∀ a w', post a w' → post' a w') : Ends act w post' :=
  himp _ _ h

theorem Ends.and {act : Act σ α} {post' : α → World σ → Prop} (h : Ends act w post)
    (h' : Ends act w post') : Ends act w fun a w' => post a w' ∧ post' a w' :=
  ⟨h, h'⟩

theorem ends_of_eq {act : Act σ α} {a : α} {w' : World σ} (h : act w = (a, w')) :
    Ends act w post ↔ post a w' := by
  unfold Ends
  rw [h]

theorem Ends.of_eq {act : Act σ α} {a : α} {w' : World σ} (h : act w = (a, w'))
    (hpost : post a w') : Ends act w post :=
  (ends_of_eq h).mpr hpost

/-! ## Elementary steps -/

@[simp] theorem ends_bind (x : Act σ β) (f : β → Act σ α) :
    Ends (x >>= f) w post ↔ Ends x w fun b w' => Ends (f b) w' post := Iff.rfl

@[simp] theorem ends_pure (a : α) : Ends (pure a) w post ↔ post a w := Iff.rfl

@[simp] theorem ends_get {post : World σ → World σ → Prop} :
    Ends (get : Act σ (World σ)) w post ↔ post w w := Iff.rfl

@[simp] theorem ends_modify {post : PUnit → World σ → Prop} (f : World σ → World σ) :
    Ends (modify f : Act σ PUnit) w post ↔ post ⟨⟩ (f w) := Iff.rfl

@[simp] theorem ends_entry {post : Entry → World σ → Prop} (id : EntryId) :
    Ends (entry id) w post ↔ post (w.entry id) w := Iff.rfl

@[simp] theorem ends_modifyEntry {post : Unit → World σ → Prop} (id : EntryId)
    (f : Entry → Entry) : Ends (modifyEntry id f) w post ↔ post () (w.modifyEntry id f) := Iff.rfl

@[simp] theorem ends_note {post : Unit → World σ → Prop} (n : Notice) :
    Ends (note n) w post ↔ post () { w with log := w.log ++ [n] } := Iff.rfl

@[simp] theorem ends_record {post : Unit → World σ → Prop} (id : EntryId) (event : EntryEvent) :
    Ends (record id event) w post ↔ post () (w.recorded id event) := Iff.rfl

@[simp] theorem ends_outside (step : StateM σ α) :
    Ends (outside step) w post ↔
      post (step w.outside).1 (w.withOutside (step w.outside).2) := Iff.rfl

@[simp] theorem ends_freshSerial {post : Nat → World σ → Prop} :
    Ends freshSerial w post ↔ post w.serial { w with serial := w.serial + 1 } := Iff.rfl

@[simp] theorem ends_newContext {post : ContextRef → World σ → Prop} (context : Context) :
    Ends (newContext context) w post ↔
      post ⟨w.serial, context⟩ { w with serial := w.serial + 1 } := Iff.rfl

@[simp] theorem ends_newEntry {post : EntryId → World σ → Prop} (e : Entry) :
    Ends (newEntry e) w post ↔
      post w.entries.length { w with entries := w.entries ++ [e] } := Iff.rfl

@[simp] theorem ends_holding (ids : List EntryId) (act : Act σ α) :
    Ends (holding ids act) w post ↔
      Ends act { w with inHand := ids ++ w.inHand } fun a w' =>
        post a { w' with inHand := w.inHand } := Iff.rfl

@[simp] theorem ends_discard {post : PUnit → World σ → Prop} (act : Act σ α) :
    Ends (discard act) w post ↔ Ends act w fun _ w' => post ⟨⟩ w' := Iff.rfl

/-! ## Calls that do not come back -/

/-- A call that leaves the registry alone, and of its surroundings what `view` shows. -/
def Spares (view : σ → δ) (act : Act σ α) : Prop :=
  ∀ w, ∃ s, view s = view w.outside ∧ (act w).2 = w.withOutside s

theorem Spares.pure {view : σ → δ} (a : α) : (Pure.pure a : Act σ α).Spares view :=
  fun w => ⟨w.outside, rfl, rfl⟩

theorem Spares.bind {view : σ → δ} {x : Act σ β} {f : β → Act σ α} (hx : x.Spares view)
    (hf : ∀ b, (f b).Spares view) : (x >>= f).Spares view := by
  intro w
  obtain ⟨s, hs, hw⟩ := hx w
  obtain ⟨s', hs', hw'⟩ := hf (x w).1 (x w).2
  refine ⟨s', ?_, ?_⟩
  · rw [hs', hw]
    exact hs
  · show (f (x w).1 (x w).2).2 = _
    rw [hw', hw]
    rfl

theorem Spares.outside {view : σ → δ} {step : StateM σ α} (h : ∀ s, view (step s).2 = view s) :
    (Act.outside step).Spares view :=
  fun w => ⟨(step w.outside).2, h w.outside, rfl⟩

theorem Spares.ends {view : σ → δ} {act : Act σ α} (h : act.Spares view)
    (hpost : ∀ a s, view s = view w.outside → post a (w.withOutside s)) : Ends act w post := by
  obtain ⟨s, hs, hw⟩ := h w
  unfold Ends
  rw [hw]
  exact hpost _ s hs

end Act

/-- Code that never calls back into the registry. -/
structure PluginCode.Spares (view : σ → δ) (code : PluginCode σ) : Prop where
  create (factory : String) : (code.create factory).Spares view
  activate (object : Instance) : (code.activate object).Spares view
  deactivate (object : Instance) : (code.deactivate object).Spares view
  title (object : Instance) : (code.title object).Spares view
  category (object : Instance) : (code.category object).Spares view
  init (object : Instance) (config : InitConfig) : (code.init object config).Spares view
  destroy (object : Instance) : (code.destroy object).Spares view
  observe (name : String) (event : DirectoryEvent) : (code.observe name event).Spares view

theorem Act.Spares.blind {view : σ → δ} {act : Act σ α} (h : act.Spares view) :
    act.Spares fun _ : σ => () := by
  intro w
  obtain ⟨s, -, hw⟩ := h w
  exact ⟨s, rfl, hw⟩

theorem PluginCode.Spares.blind {view : σ → δ} {code : PluginCode σ} (h : code.Spares view) :
    code.Spares fun _ : σ => () where
  create factory := (h.create factory).blind
  activate object := (h.activate object).blind
  deactivate object := (h.deactivate object).blind
  title object := (h.title object).blind
  category object := (h.category object).blind
  init object config := (h.init object config).blind
  destroy object := (h.destroy object).blind
  observe name event := (h.observe name event).blind

namespace PluginCode

/-- Code that succeeds in everything and does nothing. -/
def still : PluginCode σ where
  hasFactory _ := true
  label _ := ""
  providerName _ := ""
  activatable _ := true
  create factory := return .ok (.made factory 0)
  activate _ := return .ok ()
  deactivate _ := return .ok ()
  title _ := return .ok ""
  category _ := return .ok none
  init _ _ := return .ok ()
  destroy _ := return .ok ()
  observe _ _ := return ()

theorem still_spares (view : σ → δ) : (still : PluginCode σ).Spares view := by
  constructor <;> intros <;> exact Act.Spares.pure _

end PluginCode

end PluginConsole
