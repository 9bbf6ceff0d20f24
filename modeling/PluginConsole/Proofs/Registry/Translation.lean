import PluginConsole.Proofs.LabelMap.Likeness
import PluginConsole.Proofs.Registry.Quiet
import PluginConsole.Proofs.Registry.Recall

/-!
# Titles and their translation

What a navigation map is made of is found out without any messages. These only put words in the
place of raw titles, one entry at a time.
-/

namespace PluginConsole

/-- An entry on its way into the map, before its title is translated. -/
structure Draft where
  id : EntryId
  category : String
  label : String
  title : String
  /-- The module whose messages count. -/
  origin : String

def spoken {σ : Type} (messages : Localizer Id) : Localizer (StateM σ) :=
  fun origin locale => return messages origin locale

theorem localize_spoken {σ : Type} (messages : Localizer Id) (title origin locale : String) :
    localize (spoken messages) title origin locale =
      (pure (localize messages title origin locale) : StateM σ String) := by
  unfold localize
  cases messageKey? title <;> rfl

section Localize

variable {messages messages' : Localizer Id} {raw origin locale : String}

theorem messageKey?_of_plain (h : raw.toList.head? ≠ some '%') : messageKey? raw = none := by
  unfold messageKey?
  split
  · rename_i key hkey
    rw [hkey] at h
    exact absurd rfl h
  · rfl

theorem localize_of_key {key : String} (h : messageKey? raw = some key) :
    localize messages raw origin locale = localized raw key (messages origin locale) := by
  unfold localize
  rw [h]
  rfl

theorem localize_congr (h : messages origin locale = messages' origin locale) :
    localize messages' raw origin locale = localize messages raw origin locale := by
  unfold localize
  rw [h]

end Localize

/-- The text is the raw title, or the message that the raw title is the key of. -/
def Renders (messages : Localizer Id) (origin locale raw text : String) : Prop :=
  text = raw ∨ ∃ key table, messageKey? raw = some key ∧ messages origin locale = .ok table ∧
    table.lookup key = some text

theorem localize_renders (messages : Localizer Id) (raw origin locale : String) :
    Renders messages origin locale raw (localize messages raw origin locale) := by
  cases hkey : messageKey? raw with
  | none => exact Or.inl (localize_of_messageKey?_eq_none messages hkey origin locale)
  | some key =>
    rw [localize_of_key hkey]
    cases hanswer : messages origin locale with
    | error f => exact Or.inl rfl
    | ok table =>
      cases hlookup : table.lookup key with
      | none =>
        left
        simp [localized, hlookup]
      | some text =>
        right
        exact ⟨key, table, hkey, hanswer, by simp [localized, hlookup]⟩

namespace Draft

def filing (messages : Localizer Id) (locale : String) (d : Draft) : Filing :=
  ⟨d.category, d.label, localize messages d.title d.origin locale⟩

end Draft

namespace Registry

open Act Lifecycle

variable {σ δ : Type} {view : σ → δ} (env : Environment σ) (defaultCategory : String)

def draft (id : EntryId) : Act σ (Option Draft) := do
  let w ← get
  if !isEnabled env w (w.entry id) then
    return none
  let title ← Lifecycle.title env id
  let found ← Lifecycle.category env id
  let category := (found.filter fun c => !Text.isBlankText c).getD defaultCategory
  let w ← get
  let e := w.entry id
  if e.broken then
    return none
  return some { id, category, label := e.label, title, origin := origin env w e }

def drafts : List EntryId → Act σ (List Draft)
  | [] => return []
  | id :: rest => do
    let first ← holding (id :: rest) (draft env defaultCategory id)
    let others ← drafts rest
    return first.toList ++ others

variable (messages : Localizer Id) (locale : String)

theorem fileEntry_eq (id : EntryId) (map : LabelMap) :
    fileEntry env (spoken messages) locale defaultCategory id map =
      (fun found => LabelMap.insertAll (found.toList.map (Draft.filing messages locale)) map) <$>
        draft env defaultCategory id := by
  unfold fileEntry draft
  rw [map_bind]
  refine bind_congr fun w => ?_
  split
  · rfl
  simp only [map_bind]
  refine bind_congr fun title => bind_congr fun found => bind_congr fun w' => ?_
  split
  · rfl
  · rw [localize_spoken]
    rfl

theorem fileEntries_eq (ids : List EntryId) (map : LabelMap) :
    fileEntries env (spoken messages) locale defaultCategory ids map =
      (fun found => LabelMap.insertAll (found.map (Draft.filing messages locale)) map) <$>
        drafts env defaultCategory ids := by
  induction ids generalizing map with
  | nil => rfl
  | cons id rest ih =>
    unfold fileEntries drafts
    rw [fileEntry_eq]
    simp only [map_bind, map_pure]
    show (holding (id :: rest) (draft env defaultCategory id) >>= fun found =>
      fileEntries env (spoken messages) locale defaultCategory rest
        (LabelMap.insertAll (found.toList.map (Draft.filing messages locale)) map)) = _
    refine bind_congr fun first => ?_
    rw [ih, map_eq_pure_bind]
    refine bind_congr fun others => ?_
    rw [List.map_append]
    unfold LabelMap.insertAll
    rw [List.foldl_append]

theorem labelMap_eq :
    labelMap env (spoken messages) locale defaultCategory =
      (fun found => LabelMap.insertAll (found.map (Draft.filing messages locale)) {}) <$>
        (get >>= fun w => drafts env defaultCategory (snapshot w)) := by
  unfold labelMap
  rw [map_bind]
  exact bind_congr fun w => fileEntries_eq env defaultCategory messages locale (snapshot w) {}

/-! ## What drafts tell -/

def SameOrigin (env : Environment σ) (w w' : World σ) : Prop :=
  env.host.origin w'.outside = env.host.origin w.outside

structure Depicts (env : Environment σ) (w : World σ) (d : Draft) : Prop where
  label : d.label = (w.entry d.id).label
  title : (w.entry d.id).title = .resolved d.title
  origin : d.origin = Lifecycle.origin env w (w.entry d.id)

variable {env defaultCategory} {w w' w'' : World σ}

theorem origin_congr {e e' : Entry} (horigin : SameOrigin env w w') (hsource : e'.source = e.source) :
    Lifecycle.origin env w' e' = Lifecycle.origin env w e := by
  unfold Lifecycle.origin
  rw [hsource]
  cases e.source with
  | directory r => rfl
  | direct factory known => exact horigin

abbrev Interviewed (env : Environment σ) : World σ → World σ → Prop :=
  Consulting (SameOrigin env) Anyway

theorem Depicts.later {d : Draft} (h : Depicts env w d) (hasked : Interviewed env w w') :
    Depicts env w' d where
  label := h.label.trans (hasked.consulted d.id).label.symm
  title := (hasked.consulted d.id).title.resolved h.title
  origin := h.origin.trans (origin_congr hasked.within (hasked.consulted d.id).source).symm

/-- What was found out of some entries is true of them in the end. -/
structure Drafted (env : Environment σ) (ids : List EntryId) (w : World σ) (found : List Draft)
    (w' : World σ) : Prop where
  asked : Interviewed env w w'
  depicts : ∀ d ∈ found, d.id ∈ ids ∧ Depicts env w' d

section Spares

variable (hcode : env.code.Spares view) (horigin : Respected env (SameOrigin env))
include hcode horigin

theorem interviewed_queried :
    Queried env Ranged (fun w id => id < w.entries.length) (Interviewed env) :=
  (foreseen_anyway horigin).queried hcode

theorem Drafted.append {id : EntryId} {rest : List EntryId} {found found' : List Draft}
    (h : Drafted env [id] w found w') (h' : Drafted env rest w' found' w'') :
    Drafted env (id :: rest) w (found ++ found') w'' where
  asked := (interviewed_queried hcode horigin).trans h.asked h'.asked
  depicts d hmem := by
    rcases List.mem_append.mp hmem with hmem | hmem
    · obtain ⟨hid, hdepicts⟩ := h.depicts d hmem
      rw [List.mem_singleton.mp hid]
      exact ⟨List.mem_cons_self, hdepicts.later h'.asked⟩
    · obtain ⟨hid, hdepicts⟩ := h'.depicts d hmem
      exact ⟨List.mem_cons_of_mem id hid, hdepicts⟩

theorem draft_drafted {id : EntryId} (hid : id < w.entries.length)
    (hfree : (w.entry id).title ≠ .inFlight) :
    Ends (draft env defaultCategory id) w fun found w' => Drafted env [id] w found.toList w' := by
  have hqueried := interviewed_queried hcode horigin
  unfold draft
  simp only [ends_bind, ends_get]
  split
  · exact ⟨hqueried.refl w, fun _ hmem => absurd hmem List.not_mem_nil⟩
  simp only [ends_bind]
  refine ((hqueried.title hid).and (title_kept hcode hid hfree)).imp ?_
  rintro title w₁ ⟨hasked₁, hkept⟩
  have hid₁ : id < w₁.entries.length := hqueried.stays hasked₁ hid
  refine (hqueried.category hid₁).imp fun found w₂ hasked₂ => ?_
  have hasked := hqueried.trans hasked₁ hasked₂
  simp only [ends_get]
  split
  · exact ⟨hasked, fun _ hmem => absurd hmem List.not_mem_nil⟩
  · refine ⟨hasked, fun d hmem => ?_⟩
    obtain rfl := List.mem_singleton.mp hmem
    exact ⟨List.mem_singleton_self id, rfl, (hasked₂.consulted id).title.resolved hkept, rfl⟩

theorem drafts_drafted {ids : List EntryId}
    (hids : ∀ id ∈ ids, id < w.entries.length ∧ (w.entry id).title ≠ .inFlight) :
    Ends (drafts env defaultCategory ids) w fun found w' => Drafted env ids w found w' := by
  have hqueried := interviewed_queried hcode horigin
  induction ids generalizing w with
  | nil => exact ⟨hqueried.refl w, fun _ hmem => absurd hmem List.not_mem_nil⟩
  | cons id rest ih =>
    obtain ⟨hid, hfree⟩ := hids id List.mem_cons_self
    unfold drafts
    simp only [ends_bind, ends_holding, ends_pure]
    have hfirst : Ends (draft env defaultCategory id) { w with inHand := id :: rest ++ w.inHand }
        fun found w' => Drafted env [id] { w with inHand := id :: rest ++ w.inHand } found.toList w' :=
      draft_drafted hcode horigin hid hfree
    refine hfirst.imp fun first w₁ h => ?_
    have hclosed := hqueried.aside w₁ w.inHand
    have hone : Drafted env [id] w first.toList { w₁ with inHand := w.inHand } := by
      refine ⟨hqueried.trans (hqueried.aside w _) (hqueried.trans h.asked hclosed), fun d hmem => ?_⟩
      obtain ⟨hin, hdepicts⟩ := h.depicts d hmem
      exact ⟨hin, hdepicts.later hclosed⟩
    refine (ih fun other hother => ?_).imp fun others w₂ => hone.append hcode horigin
    obtain ⟨hmade, hfree⟩ := hids other (List.mem_cons_of_mem id hother)
    exact ⟨hqueried.stays hone.asked hmade,
      (hone.asked.consulted other).title.not_inFlight hfree⟩

end Spares

/-! ## Two localizers -/

/-- What two localizers make of the title of one entry. Either result is the raw title or a message
of the module that the entry belongs to, and they differ only if this is the module `apart`. -/
structure TwoTitles (env : Environment σ) (w : World σ) (messages messages' : Localizer Id)
    (locale apart label t t' : String) (id : EntryId) (raw : String) : Prop where
  listed : w.table.lookup label = some id
  found : (w.entry id).title = .resolved raw
  renders : Renders messages (Lifecycle.origin env w (w.entry id)) locale raw t
  renders' : Renders messages' (Lifecycle.origin env w (w.entry id)) locale raw t'
  same : Lifecycle.origin env w (w.entry id) ≠ apart → t' = t
  plain : raw.toList.head? ≠ some '%' → t = raw ∧ t' = raw

/-- Two maps with the same groups and labels, made from the entries of one registry. -/
def AlikeBut (env : Environment σ) (w : World σ) (messages messages' : Localizer Id)
    (locale apart : String) (map map' : LabelMap) : Prop :=
  LabelNode.OneShape (fun label t t' =>
    ∃ id raw, TwoTitles env w messages messages' locale apart label t t' id raw) map.root map'.root

variable {messages messages' : Localizer Id} {locale apart : String}

theorem Depicts.twoTitles {d : Draft} (h : Depicts env w d) (hfiled : Filed w)
    (hlisted : d.id ∈ snapshot w)
    (hagree : ∀ origin, origin ≠ apart → messages origin locale = messages' origin locale) :
    TwoTitles env w messages messages' locale apart d.label (d.filing messages locale).title
      (d.filing messages' locale).title d.id d.title := by
  obtain ⟨label, hentry⟩ := mem_snapshot.mp hlisted
  rw [← (hfiled.filed label d.id hentry).2, ← h.label] at hentry
  refine ⟨hfiled.lookup.mp hentry, h.title, ?_, ?_, ?_, fun hplain => ?_⟩
  · rw [← h.origin]
    exact localize_renders messages d.title d.origin locale
  · rw [← h.origin]
    exact localize_renders messages' d.title d.origin locale
  · rw [← h.origin]
    exact fun hother => localize_congr (hagree _ hother)
  · have hunkeyed := messageKey?_of_plain hplain
    exact ⟨localize_of_messageKey?_eq_none messages hunkeyed _ _,
      localize_of_messageKey?_eq_none messages' hunkeyed _ _⟩

/-- The entries are asked in the same way, whatever the messages are. -/
theorem labelMap_alike (hcode : env.code.Spares view) (horigin : Respected env (SameOrigin env))
    (hfiled : Filed w) (hfree : ∀ id ∈ snapshot w, (w.entry id).title ≠ .inFlight)
    (hagree : ∀ origin, origin ≠ apart → messages origin locale = messages' origin locale) :
    Ends (labelMap env (spoken messages) locale defaultCategory) w fun map after =>
      Ends (labelMap env (spoken messages') locale defaultCategory) w fun map' after' =>
        after' = after ∧ AlikeBut env after messages messages' locale apart map map' := by
  rw [labelMap_eq, labelMap_eq]
  have hdrafted : Ends (drafts env defaultCategory (snapshot w)) w fun found after =>
      Drafted env (snapshot w) w found after :=
    drafts_drafted hcode horigin fun id hmem => ⟨hfiled.ranged id hmem, hfree id hmem⟩
  refine ⟨rfl, ?_⟩
  refine LabelMap.oneShape_insertAll (fun _ => rfl) (fun _ => rfl) (fun d hmem => ?_) .nil
  obtain ⟨hlisted, hdepicts⟩ := hdrafted.depicts d hmem
  have hundisturbed := hdrafted.asked.undisturbed
  refine ⟨d.id, d.title, hdepicts.twoTitles (hundisturbed.filed hfiled) ?_ hagree⟩
  rw [snapshot_congr hundisturbed.table]
  exact hlisted

/-! ## Every run -/

theorem serveEntry_respects {R : World σ → World σ → Prop} (h : Respected env R) (id : EntryId)
    (call : EntryCall) : (serveEntry env id call).Respects R := by
  cases call with
  | component => exact h.component id
  | title => exact h.title id
  | category => exact h.category id
  | init ref => exact h.init id ref
  | destroy => exact h.destroy id
  | dispose => exact h.dispose id

theorem serve_filed (hcode : env.code.Spares fun _ : σ => ()) (hfiled : Filed w) (call : Call σ) :
    Ends (serve env call) w fun _ w' => Filed w' := by
  have hundisturbed : Respected env Undisturbed := by
    refine respected_undisturbed (hcode.respects fun w s _ => ?_)
    exact ⟨rfl, Nat.le_refl _, fun _ _ => rfl, fun _ _ => rfl⟩
  cases call with
  | registry op =>
    exact (perform_changes env.directory.within_any hcode hfiled.ranged op op.calm_blind).imp
      fun _ _ h => h.filed hfiled
  | make label source => exact .grown (grown_entered w _) hfiled.sorted hfiled.filed
  | register id =>
    refine ends_ifMade (fun hid => ?_) hfiled
    exact (register_spec hcode hid hfiled.ranged).imp fun _ _ h => h.filed hid hfiled
  | entry id call =>
    exact ends_ifMade (fun _ => (serveEntry_respects hundisturbed id call w).filed hfiled) hfiled
  | around f => exact ⟨hfiled.sorted, hfiled.filed⟩

theorem filed_run (hcode : env.code.Spares view) (s : σ) (calls : List (Call σ)) :
    Filed (run env calls { outside := s }) := by
  refine run_keeps Filed (fun w call _ hfiled => serve_filed hcode.blind hfiled call)
    (fun _ _ => trivial) (tidy_fresh s).toFiled

/-- The messages of one module are of no consequence for the others. Whatever was asked of the
registry before, and whatever two localizers say of the module `apart`, the maps made with them
differ in the titles of its entries alone, and the registry is the same afterwards. -/
theorem run_alike {π : Type} {code : PluginCode (Site π)} (hcode : code.Spares (·.host.origin))
    (s : Site π) (calls : List (Call (Site π))) {messages messages' : Localizer Id}
    {locale apart : String}
    (hagree : ∀ origin, origin ≠ apart → messages origin locale = messages' origin locale)
    (defaultCategory : String) :
    let env := Site.environment code
    let before := run env calls { outside := s }
    Ends (labelMap env (spoken messages) locale defaultCategory) before fun map after =>
      Ends (labelMap env (spoken messages') locale defaultCategory) before fun map' after' =>
        after' = after ∧ AlikeBut env after messages messages' locale apart map map' := by
  intro env before
  have horigin : Respected env (SameOrigin env) :=
    { refl := fun _ => rfl
      trans := fun h h' => Eq.trans h' h
      code := hcode.respects fun _ _ hs => hs
      aside := fun _ _ _ => rfl
      records := fun _ _ _ _ => rfl
      destroys := fun _ _ _ => rfl
      count := fun _ => rfl
      write := fun _ _ _ _ _ => rfl
      getService := fun _ _ => rfl
      releaseService := fun _ _ => rfl }
  have hremembered : Remembered env before := ((remembered_fresh s).run hcode calls).remembered
  exact labelMap_alike hcode horigin (filed_run hcode s calls)
    (fun id _ => (hremembered.landed id).1) hagree

/-- A service that announces all its texts, with a title to be translated. -/
def foreign (id : Nat) (origin label : String) : Reference :=
  .make id origin [(Property.category, .text "x"), (Property.label, .text label),
    (Property.title, .text "%t")]

def ownName : Localizer Id :=
  fun origin _ => .ok [("t", origin)]

def ownNameBut : Localizer Id :=
  fun origin locale => if origin = "m" then .error (.fault (.localization "m" "en" "gone"))
    else ownName origin locale

theorem foreign_alike :
    let env := Site.environment (PluginCode.still : PluginCode (Site Unit))
    let calls : List (Call (Site Unit)) :=
      [.registry (.addService (foreign 1 "m" "a")), .registry (.addService (foreign 2 "n" "b"))]
    let before := run env calls { outside := ⟨{}, ⟨"", []⟩, ()⟩ }
    Ends (labelMap env (spoken ownName) "en" "misc") before fun map after =>
      Ends (labelMap env (spoken ownNameBut) "en" "misc") before fun map' after' =>
        (map.flat = [("a", "m"), ("b", "n")] ∧ map'.flat = [("a", "%t"), ("b", "n")]) ∧
          after' = after ∧ AlikeBut env after ownName ownNameBut "en" "m" map map' := by
  intro env calls before
  have hcode : (PluginCode.still : PluginCode (Site Unit)).Spares (·.host.origin) :=
    PluginCode.still_spares _
  have hagree (origin : String) (hother : origin ≠ "m") :
      ownName origin "en" = ownNameBut origin "en" := (if_neg hother).symm
  have hflats : (labelMap env (spoken ownName) "en" "misc" before).1.flat = [("a", "m"), ("b", "n")] ∧
      (labelMap env (spoken ownNameBut) "en" "misc" before).1.flat = [("a", "%t"), ("b", "n")] := by
    decide +kernel
  exact ⟨hflats, run_alike hcode _ calls hagree "misc"⟩

end Registry

end PluginConsole
