import Mathlib.Data.List.Basic
import PluginConsole.Proofs.Lifecycle.Course

/-!
# What others see of an entry

`World.seen` is what a world shows to all but one entry: not the text of its title, nor the names
that its component was initialized under, nor the log. Worlds that show the same go on to do so,
however the calls of that component end in each.
-/

namespace PluginConsole

variable {σ δ α β : Type}

/-! ## Both runs at once -/

namespace Act

/-- What holds of two steps, each started in its own world. -/
def EndBoth (act act' : Act σ α) (w w' : World σ)
    (post : α → α → World σ → World σ → Prop) : Prop :=
  post (act w).1 (act' w').1 (act w).2 (act' w').2

variable {post : α → α → World σ → World σ → Prop} {w w' : World σ}

theorem EndBoth.imp {act act' : Act σ α} {post' : α → α → World σ → World σ → Prop}
    (h : EndBoth act act' w w' post) (himp : ∀ a a' w₁ w₁', post a a' w₁ w₁' → post' a a' w₁ w₁') :
    EndBoth act act' w w' post' :=
  himp _ _ _ _ h

theorem EndBoth.of_eq {act act' : Act σ α} {r r' : α} {w₁ w₁' : World σ} (h : act w = (r, w₁))
    (h' : act' w' = (r', w₁')) (hpost : post r r' w₁ w₁') : EndBoth act act' w w' post := by
  unfold EndBoth
  rw [h, h']
  exact hpost

@[simp] theorem endBoth_bind (x x' : Act σ β) (f f' : β → Act σ α) :
    EndBoth (x >>= f) (x' >>= f') w w' post ↔
      EndBoth x x' w w' fun b b' w₁ w₁' => EndBoth (f b) (f' b') w₁ w₁' post := Iff.rfl

@[simp] theorem endBoth_pure (a a' : α) :
    EndBoth (pure a) (pure a') w w' post ↔ post a a' w w' := Iff.rfl

@[simp] theorem endBoth_get {post : World σ → World σ → World σ → World σ → Prop} :
    EndBoth (get : Act σ (World σ)) get w w' post ↔ post w w' w w' := Iff.rfl

@[simp] theorem endBoth_modify {post : PUnit → PUnit → World σ → World σ → Prop}
    (f f' : World σ → World σ) :
    EndBoth (modify f : Act σ PUnit) (modify f') w w' post ↔ post ⟨⟩ ⟨⟩ (f w) (f' w') := Iff.rfl

@[simp] theorem endBoth_entry {post : Entry → Entry → World σ → World σ → Prop} (id : EntryId) :
    EndBoth (entry id) (entry id) w w' post ↔ post (w.entry id) (w'.entry id) w w' := Iff.rfl

@[simp] theorem endBoth_modifyEntry {post : Unit → Unit → World σ → World σ → Prop} (id : EntryId)
    (f f' : Entry → Entry) :
    EndBoth (modifyEntry id f) (modifyEntry id f') w w' post ↔
      post () () (w.modifyEntry id f) (w'.modifyEntry id f') := Iff.rfl

@[simp] theorem endBoth_record {post : Unit → Unit → World σ → World σ → Prop} (id : EntryId)
    (event event' : EntryEvent) :
    EndBoth (record id event) (record id event') w w' post ↔
      post () () (w.recorded id event) (w'.recorded id event') := Iff.rfl

@[simp] theorem endBoth_newContext {post : ContextRef → ContextRef → World σ → World σ → Prop}
    (context : Context) :
    EndBoth (newContext context) (newContext context) w w' post ↔
      post ⟨w.serial, context⟩ ⟨w'.serial, context⟩ { w with serial := w.serial + 1 }
        { w' with serial := w'.serial + 1 } := Iff.rfl

@[simp] theorem endBoth_holding (ids ids' : List EntryId) (act act' : Act σ α) :
    EndBoth (holding ids act) (holding ids' act') w w' post ↔
      EndBoth act act' { w with inHand := ids ++ w.inHand } { w' with inHand := ids' ++ w'.inHand }
        fun a a' w₁ w₁' =>
          post a a' { w₁ with inHand := w.inHand } { w₁' with inHand := w'.inHand } := Iff.rfl

end Act

/-! ## What is seen of an entry -/

def Cached.shape : Cached → Cached
  | .empty => .empty
  | .inFlight => .inFlight
  | .resolved _ => .resolved ""

def Entry.untitled (e : Entry) : Entry :=
  { e with title := e.title.shape }

def EntryEvent.unnamed : EntryEvent → EntryEvent
  | .init c ref config => .init c ref { config with name := "" }
  | event => event

def Component.object : Component → Instance
  | .plugin object => object
  | .adapted _ handler _ _ => handler

namespace World

variable (view : σ → δ) (a : EntryId) {w : World σ} {id : EntryId}

/-- What is seen of a world by all but the entry `a`. -/
def seen (w : World σ) : World δ where
  entries := w.entries.modify a Entry.untitled
  table := w.table
  defaultLabel := w.defaultLabel
  subscription := w.subscription
  context := w.context
  keepers := w.keepers
  inHand := w.inHand
  serial := w.serial
  history := w.history.map fun r =>
    ⟨r.entry, if r.entry = a then r.event.unnamed else r.event, view r.outside⟩
  outside := view w.outside

theorem entry_seen (w : World σ) (id : EntryId) :
    (w.seen view a).entry id = if id = a then (w.entry id).untitled else w.entry id := by
  have hentry : (w.seen view a).entry id =
      (Option.map (fun e => if a = id then e.untitled else e) w.entries[id]?).getD default := by
    simp only [seen, entry, List.getD_eq_getElem?_getD, List.getElem?_modify]
    rfl
  rw [hentry, entry, List.getD_eq_getElem?_getD]
  by_cases h : id = a
  · simp only [h, if_true]
    cases w.entries[a]? <;> rfl
  · simp only [Ne.symm h, h, if_false, Option.map_id']

theorem seen_recorded (id : EntryId) (event : EntryEvent) (w : World σ) :
    (w.recorded id event).seen view a =
      (w.seen view a).recorded id (if id = a then event.unnamed else event) := by
  simp [seen, recorded]

theorem seen_modifyEntry {f g : Entry → Entry} (h : ∀ e, (f e).untitled = g e.untitled)
    (w : World σ) : (w.modifyEntry a f).seen view a = (w.seen view a).modifyEntry a g := by
  have hcomp : Entry.untitled ∘ f = g ∘ Entry.untitled := funext h
  simp [seen, modifyEntry, List.modify_modify_eq, hcomp]

theorem seen_modifyEntry_of_ne (h : id ≠ a) (f : Entry → Entry) (w : World σ) :
    (w.modifyEntry id f).seen view a = (w.seen view a).modifyEntry id f := by
  simp [seen, modifyEntry, List.modify_modify_ne, h]

theorem eventsOf_seen (w : World σ) (id : EntryId) :
    (w.seen view a).eventsOf id =
      if id = a then (w.eventsOf id).map EntryEvent.unnamed else w.eventsOf id := by
  unfold eventsOf seen
  rw [List.filter_map, List.map_map]
  split
  · rename_i h
    rw [List.map_map]
    refine List.map_congr_left fun r hr => ?_
    have hentry : r.entry = id := of_decide_eq_true (List.mem_filter.mp hr).2
    simp [hentry, h]
  · rename_i h
    refine List.map_congr_left fun r hr => ?_
    have hentry : r.entry = id := of_decide_eq_true (List.mem_filter.mp hr).2
    simp [hentry, h]

end World

/-! ## Worlds that differ about one entry -/

/-- The objects in `mine` belong to the component of the entry `a`, and to no other component. -/
def Owned (mine : Instance → Prop) (a : EntryId) (w : World σ) : Prop :=
  ∀ id x, (w.entry id).warm = some x → (mine x.component.object ↔ id = a)

/-- The others see no difference. -/
structure Akin (view : σ → δ) (mine : Instance → Prop) (a : EntryId) (w w' : World σ) : Prop where
  seen : w'.seen view a = w.seen view a
  owned : Owned mine a w

theorem Owned.modifyEntry {mine : Instance → Prop} {a id : EntryId} {w : World σ}
    (h : Owned mine a w) {f : Entry → Entry}
    (hf : ∀ x, (f (w.entry id)).warm = some x →
      ∃ y, (w.entry id).warm = some y ∧ x.component = y.component) :
    Owned mine a (w.modifyEntry id f) := by
  intro other x hx
  by_cases ho : other = id
  · subst ho
    rcases World.entry_modifyEntry_cases other f w with he | he <;> rw [he] at hx
    · obtain ⟨y, hy, hsame⟩ := hf x hx
      rw [hsame]
      exact h other y hy
    · exact h other x hx
  · rw [World.entry_modifyEntry_of_ne ho] at hx
    exact h other x hx

namespace Akin

variable {view : σ → δ} {mine : Instance → Prop} {a id : EntryId} {w w' : World σ}

theorem refl (h : Owned mine a w) : Akin view mine a w w := ⟨rfl, h⟩

variable (h : Akin view mine a w w')
include h

/-! ### What is alike -/

theorem other (hid : id ≠ a) : w'.entry id = w.entry id := by
  have hseen := congrArg (World.entry · id) h.seen
  simpa only [World.entry_seen, if_neg hid] using hseen

theorem untitled (id : EntryId) : (w'.entry id).untitled = (w.entry id).untitled := by
  by_cases hid : id = a
  · have hseen := congrArg (World.entry · id) h.seen
    simpa only [World.entry_seen, if_pos hid] using hseen
  · rw [h.other hid]

theorem label (id : EntryId) : (w'.entry id).label = (w.entry id).label :=
  (congrArg Entry.label (h.untitled id) :)

theorem source (id : EntryId) : (w'.entry id).source = (w.entry id).source :=
  (congrArg Entry.source (h.untitled id) :)

theorem warm (id : EntryId) : (w'.entry id).warm = (w.entry id).warm :=
  (congrArg Entry.warm (h.untitled id) :)

theorem disposed (id : EntryId) : (w'.entry id).disposed = (w.entry id).disposed :=
  (congrArg Entry.disposed (h.untitled id) :)

theorem titleShape (id : EntryId) : (w'.entry id).title.shape = (w.entry id).title.shape :=
  (congrArg Entry.title (h.untitled id) :)

theorem view_eq : view w'.outside = view w.outside :=
  (congrArg World.outside h.seen :)

theorem table : w'.table = w.table :=
  (congrArg World.table h.seen :)

theorem context : w'.context = w.context :=
  (congrArg World.context h.seen :)

theorem subscription : w'.subscription = w.subscription :=
  (congrArg World.subscription h.seen :)

theorem defaultLabel : w'.defaultLabel = w.defaultLabel :=
  (congrArg World.defaultLabel h.seen :)

theorem serial : w'.serial = w.serial :=
  (congrArg World.serial h.seen :)

theorem inHand : w'.inHand = w.inHand :=
  (congrArg World.inHand h.seen :)

theorem events_other (hid : id ≠ a) : w'.eventsOf id = w.eventsOf id := by
  have hseen := congrArg (World.eventsOf id) h.seen
  simpa only [World.eventsOf_seen, if_neg hid] using hseen

theorem events_own :
    (w'.eventsOf a).map EntryEvent.unnamed = (w.eventsOf a).map EntryEvent.unnamed := by
  have hseen := congrArg (World.eventsOf a) h.seen
  simpa only [World.eventsOf_seen, if_true] using hseen

/-! ### What keeps them alike -/

theorem aside (log log' : List Notice) :
    Akin view mine a { w with log } { w' with log := log' } :=
  ⟨h.seen, h.owned⟩

theorem change {f : World σ → World σ} {g : World δ → World δ}
    (hf : ∀ w, (f w).seen view a = g (w.seen view a)) (hentries : ∀ w, (f w).entries = w.entries) :
    Akin view mine a (f w) (f w') := by
  refine ⟨by rw [hf, hf, h.seen], fun id x hx => h.owned id x ?_⟩
  unfold World.entry at hx ⊢
  rw [← hentries]
  exact hx

theorem holding (ids : List EntryId) :
    Akin view mine a { w with inHand := ids } { w' with inHand := ids } :=
  h.change (f := fun v => { v with inHand := ids }) (g := fun v => { v with inHand := ids })
    (fun _ => rfl) fun _ => rfl

theorem withOutside {s s' : σ} (hs : view s' = view s) :
    Akin view mine a (w.withOutside s) (w'.withOutside s') := by
  refine ⟨?_, h.owned⟩
  show (w'.seen view a).withOutside (view s') = (w.seen view a).withOutside (view s)
  rw [h.seen, hs]

theorem recorded (id : EntryId) (event : EntryEvent) :
    Akin view mine a (w.recorded id event) (w'.recorded id event) := by
  refine ⟨?_, h.owned⟩
  rw [World.seen_recorded, World.seen_recorded, h.seen]

theorem named {c : Component} {ref : ContextRef} {reference : Option Reference}
    {name name' : String} (hname : id = a ∨ name' = name) :
    Akin view mine a (w.recorded id (.init c ref ⟨name, ref.context, reference⟩))
      (w'.recorded id (.init c ref ⟨name', ref.context, reference⟩)) := by
  refine ⟨?_, h.owned⟩
  rw [World.seen_recorded, World.seen_recorded, h.seen]
  rcases hname with hid | rfl
  · rw [if_pos hid, if_pos hid]
    rfl
  · rfl

theorem modifyEntry {f : Entry → Entry} (hf : ∀ e, (f e).untitled = f e.untitled)
    (hkept : ∀ x, (f (w.entry id)).warm = some x →
      ∃ y, (w.entry id).warm = some y ∧ x.component = y.component) :
    Akin view mine a (w.modifyEntry id f) (w'.modifyEntry id f) := by
  refine ⟨?_, h.owned.modifyEntry hkept⟩
  by_cases hid : id = a
  · subst hid
    rw [World.seen_modifyEntry view id hf, World.seen_modifyEntry view id hf, h.seen]
  · rw [World.seen_modifyEntry_of_ne view a hid, World.seen_modifyEntry_of_ne view a hid, h.seen]

theorem titled {t t' : String} (ht : id = a ∨ t' = t) :
    Akin view mine a (w.modifyEntry id fun e => { e with title := .resolved t })
      (w'.modifyEntry id fun e => { e with title := .resolved t' }) := by
  refine ⟨?_, h.owned.modifyEntry fun x hx => ⟨x, hx, rfl⟩⟩
  by_cases hid : id = a
  · subst hid
    have hshape (t : String) (w : World σ) :
        (w.modifyEntry id fun e => { e with title := .resolved t }).seen view id =
          (w.seen view id).modifyEntry id fun e => { e with title := .resolved "" } := by
      refine World.seen_modifyEntry view id ?_ w
      exact fun _ => rfl
    rw [hshape, hshape, h.seen]
  · rw [World.seen_modifyEntry_of_ne view a hid, World.seen_modifyEntry_of_ne view a hid, h.seen,
      ht.resolve_left hid]

end Akin

/-! ## Code that ends its calls otherwise -/

/-- The code of plugins in two runs. Its calls lead from related worlds to related worlds, and as
long as they do, it may come back to the registry. Only objects in `mine` tell other titles and are
told other names. How the rest of the calls end does not count, for it is only noted. -/
structure PluginCode.Differs (R : World σ → World σ → Prop) (mine : Instance → Prop)
    (code code' : PluginCode σ) : Prop where
  activatable : code'.activatable = code.activatable
  title {w w' : World σ} (h : R w w') (object : Instance) :
    Act.EndBoth (code.title object) (code'.title object) w w' fun t t' w₁ w₁' =>
      (mine object ∨ t' = t) ∧ R w₁ w₁'
  init {w w' : World σ} (h : R w w') (object : Instance) {name name' : String}
    (hname : mine object ∨ name' = name) (context : Context) (reference : Option Reference) :
    Act.EndBoth (code.init object ⟨name, context, reference⟩)
      (code'.init object ⟨name', context, reference⟩) w w' fun _ _ => R
  destroy {w w' : World σ} (h : R w w') (object : Instance) :
    Act.EndBoth (code.destroy object) (code'.destroy object) w w' fun _ _ => R
  deactivate {w w' : World σ} (h : R w w') (object : Instance) :
    Act.EndBoth (code.deactivate object) (code'.deactivate object) w w' fun _ _ => R

/-- Callbacks that do not come back to the registry. -/
structure Callbacks (σ : Type) where
  deactivate : Instance → StateM σ (Outcome Unit)
  title : Instance → StateM σ (Outcome String)
  init : Instance → InitConfig → StateM σ (Outcome Unit)
  destroy : Instance → StateM σ (Outcome Unit)

namespace Callbacks

def within (c : Callbacks σ) (rest : PluginCode σ) : PluginCode σ :=
  { rest with
    deactivate := fun object => Act.outside (c.deactivate object)
    title := fun object => Act.outside (c.title object)
    init := fun object config => Act.outside (c.init object config)
    destroy := fun object => Act.outside (c.destroy object) }

structure Differs (view : σ → δ) (mine : Instance → Prop) (c c' : Callbacks σ) : Prop where
  title (object : Instance) {s s' : σ} (h : view s' = view s) :
    (mine object ∨ (c'.title object s').1 = (c.title object s).1) ∧
      view (c'.title object s').2 = view (c.title object s).2
  init (object : Instance) {name name' : String} (hname : mine object ∨ name' = name)
    (context : Context) (reference : Option Reference) {s s' : σ} (h : view s' = view s) :
    view (c'.init object ⟨name', context, reference⟩ s').2 =
      view (c.init object ⟨name, context, reference⟩ s).2
  destroy (object : Instance) {s s' : σ} (h : view s' = view s) :
    view (c'.destroy object s').2 = view (c.destroy object s).2
  deactivate (object : Instance) {s s' : σ} (h : view s' = view s) :
    view (c'.deactivate object s').2 = view (c.deactivate object s).2

theorem Differs.within {view : σ → δ} {mine : Instance → Prop} {a : EntryId} {c c' : Callbacks σ}
    (h : c.Differs view mine c') (rest : PluginCode σ) :
    (c.within rest).Differs (Akin view mine a) mine (c'.within rest) where
  activatable := rfl
  title hw object := ⟨(h.title object hw.view_eq).1, hw.withOutside (h.title object hw.view_eq).2⟩
  init hw object _ _ hname context reference :=
    hw.withOutside (h.init object hname context reference hw.view_eq)
  destroy hw object := hw.withOutside (h.destroy object hw.view_eq)
  deactivate hw object := hw.withOutside (h.deactivate object hw.view_eq)

end Callbacks

/-- The same surroundings, but for the component of one entry. What is seen of the directory does
not depend on what is not seen. -/
structure Environment.Differs (view : σ → δ) (mine : Instance → Prop) (a : EntryId)
    (env env' : Environment σ) : Prop where
  directory : env'.directory = env.directory
  code : env.code.Differs (Akin view mine a) mine env'.code
  unsubscribe (n : Nat) {s s' : σ} (h : view s' = view s) :
    view (env.directory.unsubscribe n s').2 = view (env.directory.unsubscribe n s).2
  releaseService (r : Reference) {s s' : σ} (h : view s' = view s) :
    view (env.directory.releaseService r s').2 = view (env.directory.releaseService r s).2

inductive Lifecycle.Claim.Akin (own : Prop) : Claim → Claim → Prop where
  | hit {t t' : String} (h : own ∨ t' = t) : Akin own (.hit t) (.hit t')
  | inFlight : Akin own .inFlight .inFlight
  | claimed : Akin own .claimed .claimed

def HasComponent (id : EntryId) (c : Component) (w : World σ) : Prop :=
  ∃ x, (w.entry id).warm = some x ∧ x.component = c

theorem HasComponent.modifyEntry {id : EntryId} {c : Component} {w : World σ}
    (h : HasComponent id c w) {f : Entry → Entry}
    (hf : ∃ x, (f (w.entry id)).warm = some x ∧ x.component = c) :
    HasComponent id c (w.modifyEntry id f) := by
  unfold HasComponent
  rcases World.entry_modifyEntry_cases id f w with he | he <;> rw [he]
  · exact hf
  · exact h

namespace Environment.Differs

open Act Lifecycle

variable {view : σ → δ} {mine : Instance → Prop} {a id : EntryId} {env env' : Environment σ}
variable {w w' : World σ}
variable (hd : Environment.Differs view mine a env env') (h : Akin view mine a w w')
include hd h

/-! ### Calls -/

theorem callTitle (c : Component) :
    EndBoth (callTitle env c) (callTitle env' c) w w' fun t t' w₁ w₁' =>
      (mine c.object ∨ t' = t) ∧ Akin view mine a w₁ w₁' := by
  cases c with
  | plugin object => exact hd.code.title h object
  | adapted => exact ⟨Or.inr rfl, h⟩

theorem callInit (c : Component) {name name' : String} (hname : mine c.object ∨ name' = name)
    (context : Context) (reference : Option Reference) :
    EndBoth (callInit env c ⟨name, context, reference⟩)
      (callInit env' c ⟨name', context, reference⟩) w w' fun _ _ => Akin view mine a := by
  cases c with
  | plugin object => exact hd.code.init h object hname context reference
  | adapted _ handler => exact hd.code.init h handler hname context reference

theorem callDestroy (c : Component) :
    EndBoth (callDestroy env c) (callDestroy env' c) w w' fun _ _ => Akin view mine a := by
  cases c with
  | plugin object => exact hd.code.destroy h object
  | adapted _ handler => exact hd.code.destroy h handler

theorem release (c : Component) :
    EndBoth (release env id c) (release env' id c) w w' fun _ _ => Akin view mine a := by
  unfold Lifecycle.release
  have hreleased := h.recorded id (.released c)
  simp only [endBoth_bind, endBoth_record, endBoth_entry, World.entry_recorded, h.source,
    hd.directory, hd.code.activatable]
  split
  · rename_i r _
    have hgiven := hreleased.recorded id (.giveBack r)
    exact hgiven.withOutside (hd.releaseService r hgiven.view_eq)
  split
  · rename_i object
    split
    · simp only [endBoth_bind, endBoth_record]
      refine (hd.code.deactivate (hreleased.recorded id (.deactivate object)) object).imp ?_
      intro done done' w₁ w₁' hdone
      cases done <;> cases done' <;> exact hdone.aside _ _
    · exact hreleased
  · exact hreleased

theorem dispose :
    EndBoth (dispose env id) (dispose env' id) w w' fun _ _ => Akin view mine a := by
  unfold Lifecycle.dispose
  simp only [endBoth_bind, endBoth_entry, endBoth_modifyEntry, h.warm, h.label]
  have hshut : Akin view mine a (w.modifyEntry id Entry.shut) (w'.modifyEntry id Entry.shut) :=
    h.modifyEntry (fun _ => rfl) fun _ hx => by cases hx
  split
  · exact hshut
  rename_i x _
  split
  · simp only [endBoth_bind, endBoth_record]
    refine (hd.callDestroy (hshut.recorded id (.destroy x.component)) x.component).imp ?_
    intro done done' w₁ w₁' hdone
    cases done <;> cases done' <;> exact hd.release (hdone.aside _ _) x.component
  · exact hd.release hshut x.component

theorem destroy :
    EndBoth (destroy env id) (destroy env' id) w w' fun _ _ => Akin view mine a := by
  unfold Lifecycle.destroy
  simp only [endBoth_bind, endBoth_entry, h.warm]
  split
  · exact h
  rename_i x hwarm
  split
  · exact h
  simp only [endBoth_bind, endBoth_modifyEntry, endBoth_record]
  have hunbound : Akin view mine a
      (w.modifyEntry id fun e => { e with warm := some { x with bound := none } })
      (w'.modifyEntry id fun e => { e with warm := some { x with bound := none } }) := by
    refine h.modifyEntry (fun _ => rfl) fun y hy => ⟨x, hwarm, ?_⟩
    cases hy
    rfl
  refine (hd.callDestroy (hunbound.recorded id (.destroy x.component)) x.component).imp ?_
  intro done done' w₁ w₁' hdone
  cases done <;> cases done' <;> exact hdone

/-! ### Initialization -/

omit hd in
theorem claimBinding (c : Component) (ref : ContextRef) :
    EndBoth (claimBinding id c ref) (claimBinding id c ref) w w' fun claimed claimed' w₁ w₁' =>
      claimed' = claimed ∧ Akin view mine a w₁ w₁' ∧
        ∀ c', HasComponent id c' w → HasComponent id c' w₁ := by
  unfold Lifecycle.claimBinding
  simp only [endBoth_bind, endBoth_entry, h.warm]
  split
  · exact ⟨rfl, h, fun _ hhas => hhas⟩
  rename_i x hwarm
  split
  · exact ⟨rfl, h, fun _ hhas => hhas⟩
  split
  · exact ⟨rfl, h, fun _ hhas => hhas⟩
  refine ⟨rfl, h.modifyEntry (fun _ => rfl) fun y hy => ⟨x, hwarm, ?_⟩, fun c' hhas => ?_⟩
  · cases hy
    rfl
  · refine hhas.modifyEntry ⟨_, rfl, ?_⟩
    obtain ⟨y, hy, hsame⟩ := hhas
    cases hwarm.symm.trans hy
    exact hsame

omit h in
theorem initComponent {titleOf titleOf' : Act σ String} {c : Component} {ref : ContextRef}
    (htitle : EndBoth titleOf titleOf' w w' fun t t' w₁ w₁' =>
      (id = a ∨ t' = t) ∧ Akin view mine a w₁ w₁') (hmine : id = a → mine c.object) :
    EndBoth (initComponent env titleOf id c ref) (initComponent env' titleOf' id c ref) w w'
      fun _ _ => Akin view mine a := by
  unfold Lifecycle.initComponent
  rw [endBoth_bind]
  refine htitle.imp ?_
  rintro name name' w₁ w₁' ⟨hname, h₁⟩
  simp only [endBoth_bind, endBoth_entry, endBoth_record, h₁.source]
  refine (hd.callInit (h₁.named hname) c (hname.imp_left hmine) ref.context
    (w₁.entry id).source.reference).imp ?_
  intro done done' w₂ w₂' hdone
  cases done <;> cases done' <;> exact hdone

theorem componentNamed {c : Component} (hhas : HasComponent id c w)
    (hmine : id = a → mine c.object) (label : String) :
    EndBoth (componentNamed env (pure label) id) (componentNamed env' (pure label) id) w w'
      fun found found' w₁ w₁' =>
        found' = found ∧ (∀ c', found = some c' → c' = c) ∧ Akin view mine a w₁ w₁' := by
  obtain ⟨x, hwarm, rfl⟩ := hhas
  unfold Lifecycle.componentNamed
  rw [endBoth_bind]
  cases hdisposed : (w.entry id).disposed with
  | true =>
    refine EndBoth.of_eq (resolve_of_disposed hdisposed)
      (resolve_of_disposed ((h.disposed id).trans hdisposed)) ⟨rfl, ?_, h⟩
    rintro _ ⟨⟩
  | false =>
    refine EndBoth.of_eq (resolve_of_warm hdisposed hwarm)
      (resolve_of_warm ((h.disposed id).trans hdisposed) ((h.warm id).trans hwarm)) ?_
    have hfound (c' : Component) (hc' : some x.component = some c') : c' = x.component :=
      (Option.some.inj hc').symm
    simp only [endBoth_bind, endBoth_get, h.context]
    split
    · exact ⟨rfl, hfound, h⟩
    rename_i ref _
    rw [endBoth_bind]
    refine (claimBinding h x.component ref).imp ?_
    rintro claimed _ w₁ w₁' ⟨rfl, h₁, -⟩
    split
    · simp only [endBoth_bind]
      have htitle : EndBoth (pure label) (pure label) w₁ w₁' fun t t' w₂ w₂' =>
          (id = a ∨ t' = t) ∧ Akin view mine a w₂ w₂' := ⟨Or.inr rfl, h₁⟩
      refine (hd.initComponent htitle hmine).imp ?_
      intro done done' w₂ w₂' hdone
      cases done <;> cases done' <;> exact ⟨rfl, hfound, hdone.aside _ _⟩
    · exact ⟨rfl, hfound, h₁⟩

theorem resolveTitle {c : Component} (hhas : HasComponent id c w)
    (hmine : mine c.object ↔ id = a) :
    EndBoth (resolveTitle env id) (resolveTitle env' id) w w' fun t t' w₁ w₁' =>
      (id = a ∨ t' = t) ∧ Akin view mine a w₁ w₁' := by
  unfold Lifecycle.resolveTitle
  simp only [endBoth_bind, endBoth_entry, h.source, h.label]
  split
  · exact ⟨Or.inr rfl, h⟩
  rw [endBoth_bind]
  refine (hd.componentNamed h hhas hmine.mpr _).imp ?_
  intro found found' w₁ w₁' ⟨hsame, hfound, h₁⟩
  rw [hsame]
  cases found with
  | none => exact ⟨Or.inr rfl, h₁⟩
  | some c' =>
    cases hfound c' rfl
    simp only [endBoth_bind, endBoth_record]
    refine (hd.callTitle (h₁.recorded id (.title c)) c).imp ?_
    rintro t t' w₂ w₂' ⟨ht, h₂⟩
    rcases ht with hobject | rfl
    · cases t <;> cases t' <;> exact ⟨Or.inl (hmine.mp hobject), h₂⟩
    · cases t' <;> exact ⟨Or.inr rfl, h₂⟩

omit hd in
theorem claimTitle :
    EndBoth (claimTitle id) (claimTitle id) w w' fun claim claim' w₁ w₁' =>
      Claim.Akin (id = a) claim claim' ∧ Akin view mine a w₁ w₁' ∧
        ∀ c, HasComponent id c w → HasComponent id c w₁ := by
  have hshape := h.titleShape id
  unfold Lifecycle.claimTitle
  simp only [endBoth_bind, endBoth_entry]
  cases ht : (w.entry id).title <;> cases ht' : (w'.entry id).title <;>
    rw [ht, ht'] at hshape <;> cases hshape
  case empty.empty =>
    exact ⟨.claimed, h.modifyEntry (fun _ => rfl) fun y hy => ⟨y, hy, rfl⟩,
      fun c hhas => hhas.modifyEntry hhas⟩
  case inFlight.inFlight => exact ⟨.inFlight, h, fun _ hhas => hhas⟩
  case resolved.resolved t t' =>
    refine ⟨.hit ?_, h, fun _ hhas => hhas⟩
    by_cases hid : id = a
    · exact Or.inl hid
    · rw [h.other hid, ht] at ht'
      cases ht'
      exact Or.inr rfl

theorem title {c : Component} (hhas : HasComponent id c w) (hmine : mine c.object ↔ id = a) :
    EndBoth (title env id) (title env' id) w w' fun t t' w₁ w₁' =>
      (id = a ∨ t' = t) ∧ Akin view mine a w₁ w₁' := by
  unfold Lifecycle.title
  simp only [endBoth_bind, endBoth_entry, h.label]
  refine (claimTitle h).imp ?_
  rintro _ _ w₁ w₁' ⟨hclaim, h₁, hkept⟩
  cases hclaim with
  | hit ht => exact ⟨ht, h₁⟩
  | inFlight => exact ⟨Or.inr rfl, h₁⟩
  | claimed =>
    rw [endBoth_bind]
    refine (hd.resolveTitle h₁ (hkept c hhas) hmine).imp ?_
    rintro found found' w₂ w₂' ⟨hfound, h₂⟩
    have ht : id = a ∨ (found'.filter (· ≠ "")).getD (w.entry id).label =
        (found.filter (· ≠ "")).getD (w.entry id).label :=
      hfound.imp_right fun hsame => by rw [hsame]
    exact ⟨ht, h₂.titled ht⟩

theorem init (ref : ContextRef) :
    EndBoth (init env id ref) (init env' id ref) w w' fun _ _ => Akin view mine a := by
  unfold Lifecycle.init
  simp only [endBoth_bind, endBoth_entry, h.warm]
  split
  · exact h
  rename_i x hwarm
  have hmine := h.owned id x hwarm
  rw [endBoth_bind]
  refine (claimBinding h x.component ref).imp ?_
  rintro claimed _ w₁ w₁' ⟨rfl, h₁, hkept⟩
  split
  · exact hd.initComponent (hd.title h₁ (hkept _ ⟨x, hwarm, rfl⟩) hmine) hmine.mpr
  · exact h₁

end Environment.Differs

end PluginConsole
