import PluginConsole.Proofs.LabelMap
import PluginConsole.Proofs.Registry.Quiet

/-!
# What the navigation map lists

Filing an entry asks for its title and its category, and leaves it out if it is marked as broken
then. An entry that announces both is never searched for on the way.
-/

namespace PluginConsole

namespace Entry

/-- Title and category are known without the component. -/
def Described (e : Entry) : Prop :=
  (e.source.property Property.category).isSome ∧
    (e.title ≠ .empty ∨ (e.source.property Property.title).isSome)

instance (e : Entry) : Decidable e.Described :=
  inferInstanceAs (Decidable (_ ∧ _))

def filedUnder (defaultCategory : String) (e : Entry) : String :=
  match e.category with
  | .resolved c => if Text.isBlankText c then defaultCategory else c
  | _ => defaultCategory

end Entry

namespace Lifecycle

variable {context : Option ContextRef} {e e' : Entry} {found : Option Component} {b : Bool}

theorem Answers.isSome_iff (h : Answers context (· = b) e found e') (hlive : e.disposed = false) :
    found.isSome ↔ e.warm.isSome ∨ b = true := by
  obtain ⟨htried, hfound⟩ := h.tried hlive
  rw [hfound, Option.isSome_map]
  constructor
  · intro hwarm
    rcases hslot : e.warm with _ | x
    · right
      have hsearch := h.consulted.slot
      rw [hslot] at hsearch
      generalize e'.warm = warm' at hsearch hwarm
      generalize e'.broken = broken' at hsearch
      cases hsearch with
      | same | missed => cases hwarm
      | found _ _ _ hyields => exact hyields.symm
    · exact Or.inl rfl
  · rintro (hwarm | hyields)
    · exact h.consulted.slot.isSome hwarm
    · by_contra hcold
      have hfalse := (htried (Option.not_isSome_iff_eq_none.mp hcold)).2
      rw [hyields] at hfalse
      cases hfalse

end Lifecycle

namespace Registry

open Act Lifecycle

variable {σ δ : Type} {env : Environment σ} {stock : σ → δ} {yields : δ → Source → Bool}
variable {w w' w'' : World σ} {id : EntryId}

/-- What a search for a component comes to depends on the stock of the surroundings alone, and
searching does not change the stock. -/
structure Stocked (env : Environment σ) (stock : σ → δ) (yields : δ → Source → Bool) : Prop where
  code : env.code.Spares stock
  getService (r : Reference) (s : σ) : stock (env.directory.getService r s).2 = stock s
  releaseService (r : Reference) (s : σ) : stock (env.directory.releaseService r s).2 = stock s
  isDisabled {s s' : σ} (h : stock s' = stock s) : env.host.isDisabled s' = env.host.isDisabled s
  mayYield (id : EntryId) (s : σ) (source : Source) :
    MayYield env id (· = yields (stock s) source) s source

def SameStock (stock : σ → δ) (w w' : World σ) : Prop :=
  stock w'.outside = stock w.outside

/-! ## One entry -/

/-- What becomes of an entry that is filed. `b` says whether a search gives a component. -/
structure FiledAway (context : Option ContextRef) (b : Bool) (e e' : Entry) : Prop where
  consulted : Entry.Consulted context (· = b) e e'
  described : e.Described → e'.broken = e.broken
  tried : ¬ e.Described → Entry.Tried (· = b) e'

theorem tried_consulted {context : Option ContextRef} {allows : Bool → Prop} {e e' : Entry}
    (htried : Entry.Tried allows e) (hconsulted : Entry.Consulted context allows e e') :
    Entry.Tried allows e' := by
  intro hcold
  have hslot := hconsulted.slot
  unfold Entry.Tried at htried
  generalize e.warm = warm at hslot htried
  generalize e.broken = broken at hslot htried
  generalize e'.broken = broken' at hslot ⊢
  rw [hcold] at hslot
  cases hslot with
  | same => exact htried rfl
  | missed _ _ hallows => exact ⟨rfl, hallows⟩

theorem filedAway_of_asked {context : Option ContextRef} {b : Bool} {e e₁ e' : Entry}
    {found : Option String} (hrest : e.AtRest) (htitle : Entitled context (· = b) e e₁)
    (hcategory : Categorized context (· = b) e₁ found e') : FiledAway context b e e' where
  consulted := htitle.consulted.trans hcategory.consulted
  described hdescribed := by
    have hsource := htitle.consulted.source
    rw [(hcategory.known (Or.inr (by rw [hsource]; exact hdescribed.1))).2]
    exact (htitle.known hdescribed.2).2
  tried hasked := by
    have hrest₁ := hrest.consulted htitle.consulted
    by_cases hwanted : e.title = .empty ∧ e.source.property Property.title = none
    · exact tried_consulted (htitle.tried hwanted.1 hwanted.2 hrest.live) hcategory.consulted
    -- The title was known, so the category was not announced.
    have hnone : e₁.source.property Property.category = none := by
      rw [htitle.consulted.source, ← Option.not_isSome_iff_eq_none]
      intro hsome
      refine hasked ⟨hsome, ?_⟩
      rw [not_and_or] at hwanted
      exact hwanted.imp_right fun htitle => Option.isSome_iff_ne_none.mpr htitle
    cases hcached : e₁.category with
    | empty => exact hcategory.tried hcached hnone hrest₁.live
    | inFlight => exact absurd hcached hrest₁.category
    | resolved c =>
      have hwarm : e₁.warm.isSome := by
        refine (hrest₁.known c hcached).resolve_left fun hsome => ?_
        rw [hnone] at hsome
        cases hsome
      intro hcold
      have hstays := hcategory.consulted.slot.isSome hwarm
      rw [hcold] at hstays
      cases hstays

/-! ## Many entries -/

def filing (env : Environment σ) (defaultCategory : String) (titles : EntryId → String)
    (w : World σ) (id : EntryId) : Option Filing :=
  if isEnabled env w (w.entry id) && !(w.entry id).broken then
    some ⟨(w.entry id).filedUnder defaultCategory, (w.entry id).label, titles id⟩
  else none

structure FiledAll (env : Environment σ) (stock : σ → δ) (yields : δ → Source → Bool)
    (ids : List EntryId) (w w' : World σ) : Prop where
  same : SameStock stock w w'
  kept : Kept w w'
  outside : ∀ id, id ∉ ids → w'.entry id = w.entry id
  disabled : ∀ id ∈ ids, isEnabled env w (w.entry id) = false → w'.entry id = w.entry id
  enabled : ∀ id ∈ ids, isEnabled env w (w.entry id) = true →
    FiledAway w.context (yields (stock w.outside) (w.entry id).source) (w.entry id) (w'.entry id)

namespace FiledAll

variable (hall : FiledAll env stock yields (snapshot w) w w')
include hall

theorem snapshot_eq : snapshot w' = snapshot w := snapshot_congr hall.kept.table

theorem same_source (hid : id ∈ snapshot w) :
    (w'.entry id).label = (w.entry id).label ∧ (w'.entry id).source = (w.entry id).source := by
  cases henabled : isEnabled env w (w.entry id) with
  | false => rw [hall.disabled id hid henabled]; exact ⟨rfl, rfl⟩
  | true =>
    have hconsulted := (hall.enabled id hid henabled).consulted
    exact ⟨hconsulted.label, hconsulted.source⟩

theorem filed (hfiled : Filed w) : Filed w' := by
  refine ⟨hall.kept.table.symm ▸ hfiled.sorted, fun label id hmem => ?_⟩
  rw [hall.kept.table] at hmem
  obtain ⟨hlt, rfl⟩ := hfiled.filed label id hmem
  exact ⟨hall.kept.length.symm ▸ hlt, (hall.same_source (mem_snapshot.mpr ⟨_, hmem⟩)).1⟩

end FiledAll

theorem FiledAll.nil (w : World σ) : FiledAll env stock yields [] w w where
  same := rfl
  kept := ⟨rfl, rfl, rfl, rfl, rfl, rfl⟩
  outside _ _ := rfl
  disabled _ hmem := absurd hmem List.not_mem_nil
  enabled _ hmem := absurd hmem List.not_mem_nil

theorem FiledAll.single (hsame : SameStock stock w w') (hframe : Frame id w w')
    (hdisabled : isEnabled env w (w.entry id) = false → w'.entry id = w.entry id)
    (henabled : isEnabled env w (w.entry id) = true →
      FiledAway w.context (yields (stock w.outside) (w.entry id).source) (w.entry id)
        (w'.entry id)) : FiledAll env stock yields [id] w w' where
  same := hsame
  kept := .ofFrame hframe
  outside other hother := hframe.others other fun heq => hother (heq ▸ List.mem_singleton_self id)
  disabled other hother := by
    obtain rfl := List.mem_singleton.mp hother
    exact hdisabled
  enabled other hother := by
    obtain rfl := List.mem_singleton.mp hother
    exact henabled

theorem FiledAll.others {rest : List EntryId} (hfirst : FiledAll env stock yields [id] w w')
    (hhere : id ∉ rest) {other : EntryId} (hother : other ∈ rest) :
    w'.entry other = w.entry other := by
  refine hfirst.outside other fun hmem => hhere ?_
  rw [← List.mem_singleton.mp hmem]
  exact hother

section Filings

variable {defaultCategory : String}

theorem filing_congr {titles titles' : EntryId → String} (hentry : w'.entry id = w.entry id)
    (henabled : isEnabled env w' (w'.entry id) = isEnabled env w (w.entry id))
    (htitles : titles' id = titles id) :
    filing env defaultCategory titles' w' id = filing env defaultCategory titles w id := by
  unfold filing
  rw [henabled, hentry, htitles]

theorem filing_eq_some_iff {titles : EntryId → String} {f : Filing} :
    filing env defaultCategory titles w id = some f ↔
      isEnabled env w (w.entry id) = true ∧ (w.entry id).broken = false ∧
        f = ⟨(w.entry id).filedUnder defaultCategory, (w.entry id).label, titles id⟩ := by
  unfold filing
  cases isEnabled env w (w.entry id) <;> cases (w.entry id).broken <;> simp [eq_comm]

theorem filings_sorted (hfiled : Filed w) (titles : EntryId → String) :
    ((snapshot w).filterMap (filing env defaultCategory titles w)).Pairwise
      fun a b => a.label < b.label := by
  unfold snapshot
  rw [List.filterMap_map, List.pairwise_filterMap]
  refine hfiled.sorted.imp_of_mem fun {a b} ha hb hlt f hf g hg => ?_
  obtain ⟨-, -, rfl⟩ := filing_eq_some_iff.mp hf
  obtain ⟨-, -, rfl⟩ := filing_eq_some_iff.mp hg
  show (w.entry a.2).label < (w.entry b.2).label
  rw [(hfiled.filed a.1 a.2 ha).2, (hfiled.filed b.1 b.2 hb).2]
  exact hlt

end Filings

/-- The label leads to this entry, and it is enabled. If it announces its texts, no search for its
component has failed so far, and else its component is there when it is asked for next. -/
structure Shown (env : Environment σ) (before after : World σ) (label : String) (id : EntryId) :
    Prop where
  listed : after.table.lookup label = some id
  enabled : isEnabled env after (after.entry id) = true
  found : if (before.entry id).Described then (before.entry id).broken = false
    else (component env id after).1.isSome = true

/-! ## Asking the surroundings -/

section Stock

variable (h : Stocked env stock yields)
include h

theorem respected_stock : Respected env (SameStock stock) where
  refl _ := rfl
  trans h h' := Eq.trans h' h
  code := h.code.respects fun _ _ hs => hs
  aside _ _ _ := rfl
  records _ _ _ _ := rfl
  destroys _ _ _ := rfl
  count _ := rfl
  write _ _ _ _ _ := rfl
  getService r w := h.getService r w.outside
  releaseService r w := h.releaseService r w.outside

theorem isEnabled_congr {e e' : Entry} (hstock : SameStock stock w w')
    (hsource : e'.source = e.source) : isEnabled env w' e' = isEnabled env w e := by
  unfold isEnabled
  rw [hsource, h.isDisabled hstock]

/-- An entry that was filed is unmarked if it was so before, in case it announces its texts, and
else if its component is there when it is asked for next. -/
theorem broken_eq_false_iff {e : Entry} {context : Option ContextRef} (hid : id < w'.entries.length)
    (hrest : e.AtRest)
    (hfiled : FiledAway context (yields (stock w'.outside) (w'.entry id).source) e (w'.entry id)) :
    (w'.entry id).broken = false ↔
      if e.Described then e.broken = false else (component env id w').1.isSome = true := by
  split
  · rename_i hdescribed
    rw [hfiled.described hdescribed]
  rename_i hasked
  have htried := hfiled.tried hasked
  have hrest' := hrest.consulted hfiled.consulted
  have hanswers : Ends (component env id) w' fun found w'' =>
      Answers w'.context (· = yields (stock w'.outside) (w'.entry id).source) (w'.entry id) found
        (w''.entry id) :=
    component_answers h.code hid (h.mayYield id w'.outside (w'.entry id).source)
  unfold Ends at hanswers
  rw [hanswers.isSome_iff hrest'.live]
  constructor
  · intro hwhole
    left
    by_contra hcold
    have hbroken := (htried (Option.not_isSome_iff_eq_none.mp hcold)).1
    rw [hwhole] at hbroken
    cases hbroken
  · rintro (hwarm | hyields)
    · exact hrest'.whole hwarm
    · refine hrest'.whole ?_
      by_contra hcold
      have hfalse := (htried (Option.not_isSome_iff_eq_none.mp hcold)).2
      rw [hyields] at hfalse
      cases hfalse

theorem FiledAll.cons {rest : List EntryId} (hfirst : FiledAll env stock yields [id] w w')
    (hhere : id ∉ rest) (hlast : FiledAll env stock yields rest w' w'') :
    FiledAll env stock yields (id :: rest) w w'' := by
  have hkept : w''.entry id = w'.entry id := hlast.outside id hhere
  have hsame (other : EntryId) (hother : other ∈ rest) :
      isEnabled env w' (w'.entry other) = isEnabled env w (w.entry other) :=
    isEnabled_congr h hfirst.same (by rw [hfirst.others hhere hother])
  refine ⟨Eq.trans hlast.same hfirst.same, hfirst.kept.trans hlast.kept, fun other hother => ?_,
    fun other hother hno => ?_, fun other hother hyes => ?_⟩
  · obtain ⟨hne, hother⟩ := not_or.mp fun hor => hother (List.mem_cons.mpr hor)
    rw [hlast.outside other hother, hfirst.outside other (by simpa using hne)]
  · rcases List.mem_cons.mp hother with rfl | hother
    · rw [hkept]
      exact hfirst.disabled other (List.mem_singleton_self _) hno
    · rw [← hfirst.others hhere hother]
      exact hlast.disabled other hother ((hsame other hother).trans hno)
  · rcases List.mem_cons.mp hother with rfl | hother
    · rw [hkept]
      exact hfirst.enabled other (List.mem_singleton_self _) hyes
    · have hfiled := hlast.enabled other hother ((hsame other hother).trans hyes)
      have hstock : stock w'.outside = stock w.outside := hfirst.same
      rw [hfirst.others hhere hother, hfirst.kept.context, hstock] at hfiled
      exact hfiled

theorem shown_iff (hall : FiledAll env stock yields (snapshot w) w w') (hquiet : Quiet w)
    {label : String} :
    Shown env w w' label id ↔ id ∈ snapshot w' ∧ (w'.entry id).label = label ∧
      isEnabled env w' (w'.entry id) = true ∧ (w'.entry id).broken = false := by
  have hfiled := hall.filed hquiet.toFiled
  have hmark (hid : id ∈ snapshot w) (henabled : isEnabled env w' (w'.entry id) = true) :
      (w'.entry id).broken = false ↔ if (w.entry id).Described then (w.entry id).broken = false
        else (component env id w').1.isSome = true := by
    have hsource := (hall.same_source hid).2
    rw [isEnabled_congr h hall.same hsource] at henabled
    have haway := hall.enabled id hid henabled
    have hstock : stock w'.outside = stock w.outside := hall.same
    rw [← hsource, ← hstock] at haway
    exact broken_eq_false_iff h (hfiled.ranged id (hall.snapshot_eq ▸ hid)) (hquiet.rest id hid) haway
  constructor
  · rintro ⟨hlisted, henabled, hfound⟩
    have hid := mem_snapshot_of_lookup hlisted
    exact ⟨hid, (hfiled.filed label id (hfiled.lookup.mpr hlisted)).2, henabled,
      (hmark (hall.snapshot_eq ▸ hid) henabled).mpr hfound⟩
  · rintro ⟨hid, rfl, henabled, hwhole⟩
    obtain ⟨label, hmem⟩ := mem_snapshot.mp hid
    refine ⟨?_, henabled, (hmark (hall.snapshot_eq ▸ hid) henabled).mp hwhole⟩
    rw [(hfiled.filed label id hmem).2]
    exact hfiled.lookup.mp hmem

theorem exists_filing_iff (hall : FiledAll env stock yields (snapshot w) w w') (hquiet : Quiet w)
    (defaultCategory : String) (titles : EntryId → String) (label : String) (P : String → Prop) :
    (∃ f ∈ (snapshot w').filterMap (filing env defaultCategory titles w'),
        f.label = label ∧ P f.category) ↔
      ∃ id, Shown env w w' label id ∧ P ((w'.entry id).filedUnder defaultCategory) := by
  constructor
  · rintro ⟨f, hmem, rfl, hcategory⟩
    obtain ⟨id, hid, hsome⟩ := List.mem_filterMap.mp hmem
    obtain ⟨henabled, hwhole, rfl⟩ := filing_eq_some_iff.mp hsome
    exact ⟨id, (shown_iff h hall hquiet).mpr ⟨hid, rfl, henabled, hwhole⟩, hcategory⟩
  · rintro ⟨id, hshown, hcategory⟩
    obtain ⟨hid, rfl, henabled, hwhole⟩ := (shown_iff h hall hquiet).mp hshown
    exact ⟨_, List.mem_filterMap.mpr ⟨id, hid, filing_eq_some_iff.mpr ⟨henabled, hwhole, rfl⟩⟩,
      rfl, hcategory⟩

/-! ## Filing -/

variable {messages : Localizer (StateM σ)} (hmessages : Calm stock messages)
variable (locale defaultCategory : String)

theorem texts_filedAway (hid : id < w.entries.length) (hrest : (w.entry id).AtRest) :
    Ends (title env id) w fun _ w₁ => Ends (category env id) w₁ fun found w₂ =>
      SameStock stock w w₂ ∧ Frame id w w₂ ∧
      FiledAway w.context (yields (stock w.outside) (w.entry id).source) (w.entry id)
        (w₂.entry id) ∧
      (found.filter fun c => !Text.isBlankText c).getD defaultCategory =
        (w₂.entry id).filedUnder defaultCategory := by
  have hstock := respected_stock h
  have htitle : Ends (title env id) w fun _ w' => SameStock stock w w' := hstock.title id w
  refine ((htitle.and (title_spec h.code hid)).and (title_entitled h.code hid
    (h.mayYield id w.outside (w.entry id).source))).imp ?_
  rintro _ w₁ ⟨⟨hstock₁, hmoves₁⟩, hentitled⟩
  have hframe₁ := hmoves₁.frame
  have hid₁ : id < w₁.entries.length := hframe₁.length ▸ hid
  have hcategory : Ends (category env id) w₁ fun _ w' => SameStock stock w₁ w' :=
    hstock.category id w₁
  refine ((hcategory.and (category_spec h.code hid₁)).and (category_categorized h.code hid₁
    (h.mayYield id w₁.outside (w₁.entry id).source))).imp ?_
  rintro found w₂ ⟨⟨hstock₂, hmoves₂⟩, hcategorized⟩
  rw [hframe₁.source, hstock₁, hframe₁.context] at hcategorized
  refine ⟨Eq.trans hstock₂ hstock₁, hframe₁.trans hmoves₂.frame,
    filedAway_of_asked hrest hentitled hcategorized, ?_⟩
  unfold Entry.filedUnder
  rw [hcategorized.kept (hrest.consulted hentitled.consulted).category]
  cases found with
  | none => rfl
  | some c => cases hblank : Text.isBlankText c <;> simp [keptCategory, Option.filter, hblank]

include hmessages

theorem fileEntry_filedAll (hid : id < w.entries.length) (hrest : (w.entry id).AtRest)
    (map : LabelMap) :
    Ends (fileEntry env messages locale defaultCategory id map) w fun map' w' =>
      FiledAll env stock yields [id] w w' ∧ ∃ title, map' =
        LabelMap.insertAll (filing env defaultCategory (fun _ => title) w' id).toList map := by
  unfold fileEntry
  simp only [ends_bind, ends_get]
  cases henabled : isEnabled env w (w.entry id) with
  | false =>
    refine ⟨.single rfl (.refl w) (fun _ => rfl) fun hyes => ?_, "", ?_⟩
    · rw [henabled] at hyes
      cases hyes
    · have hnone : filing env defaultCategory (fun _ => "") w id = none := by simp [filing, henabled]
      exact (congrArg (LabelMap.insertAll ·.toList map) hnone).symm
  | true =>
    simp only [Bool.not_true, Bool.false_eq_true, if_false, ends_bind]
    refine (texts_filedAway h defaultCategory hid hrest).imp fun name w₁ htexts => htexts.imp ?_
    rintro found w₂ ⟨hstock, hframe, hfiled, hunder⟩
    have hdisabled (hno : isEnabled env w (w.entry id) = false) : w₂.entry id = w.entry id := by
      rw [henabled] at hno
      cases hno
    simp only [ends_get]
    split
    · rename_i hbroken
      refine ⟨.single hstock hframe hdisabled fun _ => hfiled, "", ?_⟩
      have hnone : filing env defaultCategory (fun _ => "") w₂ id = none := by simp [filing, hbroken]
      exact (congrArg (LabelMap.insertAll ·.toList map) hnone).symm
    · rename_i hwhole
      simp only [ends_bind, ends_outside, ends_pure]
      have hcalm := localize_calm hmessages name (Lifecycle.origin env w₂ (w₂.entry id)) locale
        w₂.outside
      generalize localize messages name (Lifecycle.origin env w₂ (w₂.entry id)) locale
        w₂.outside = localized at hcalm ⊢
      have hstock' : SameStock stock w (w₂.withOutside localized.2) := Eq.trans hcalm hstock
      refine ⟨.single hstock' (hframe.trans (Frame.withOutside _ w₂)) hdisabled fun _ => hfiled,
        localized.1, ?_⟩
      have henabled' : isEnabled env (w₂.withOutside localized.2) (w₂.entry id) = true := by
        rw [isEnabled_congr h hstock' hframe.source]
        exact henabled
      have hsome : filing env defaultCategory (fun _ => localized.1) (w₂.withOutside localized.2) id =
          some ⟨(w₂.entry id).filedUnder defaultCategory, (w₂.entry id).label, localized.1⟩ :=
        filing_eq_some_iff.mpr ⟨henabled', by simpa using hwhole, rfl⟩
      rw [hsome, hunder]
      rfl

theorem holding_fileEntry_filedAll (hid : id < w.entries.length) (hrest : (w.entry id).AtRest)
    (hs : List EntryId) (map : LabelMap) :
    Ends (holding hs (fileEntry env messages locale defaultCategory id map)) w fun map' w' =>
      FiledAll env stock yields [id] w w' ∧ ∃ title, map' =
        LabelMap.insertAll (filing env defaultCategory (fun _ => title) w' id).toList map := by
  rw [ends_holding]
  have hhere : id < { w with inHand := hs ++ w.inHand }.entries.length := hid
  refine (fileEntry_filedAll h hmessages locale defaultCategory hhere hrest map).imp ?_
  rintro map' w' ⟨hall, title, hmap⟩
  have hkept := hall.kept
  exact ⟨⟨hall.same, ⟨hkept.table, hkept.defaultLabel, hkept.subscription, hkept.context,
    hkept.keepers, hkept.length⟩, hall.outside, hall.disabled, hall.enabled⟩, title, hmap⟩

theorem fileEntries_filedAll {ids : List EntryId} (hnodup : ids.Nodup)
    (hids : ∀ id ∈ ids, id < w.entries.length ∧ (w.entry id).AtRest) (map : LabelMap) :
    Ends (fileEntries env messages locale defaultCategory ids map) w fun map' w' =>
      FiledAll env stock yields ids w w' ∧
        ∃ titles, map' = LabelMap.insertAll (ids.filterMap (filing env defaultCategory titles w'))
          map := by
  induction ids generalizing w map with
  | nil => exact ⟨.nil w, fun _ => "", rfl⟩
  | cons id rest ih =>
    obtain ⟨hhere, hnodup⟩ := List.nodup_cons.mp hnodup
    obtain ⟨hid, hrest⟩ := hids id List.mem_cons_self
    unfold fileEntries
    rw [ends_bind]
    refine (holding_fileEntry_filedAll h hmessages locale defaultCategory hid hrest _ map).imp ?_
    rintro map₁ w₁ ⟨hfirst, title, hmap₁⟩
    have hids₁ : ∀ other ∈ rest, other < w₁.entries.length ∧ (w₁.entry other).AtRest := by
      intro other hother
      rw [hfirst.others hhere hother, hfirst.kept.length]
      exact hids other (List.mem_cons_of_mem id hother)
    refine (ih hnodup hids₁ map₁).imp ?_
    rintro map₂ w₂ ⟨hlast, titles, hmap₂⟩
    refine ⟨hfirst.cons h hhere hlast, Function.update titles id title, ?_⟩
    have hlater : rest.filterMap (filing env defaultCategory (Function.update titles id title) w₂) =
        rest.filterMap (filing env defaultCategory titles w₂) := by
      refine List.filterMap_congr fun other hother => filing_congr rfl rfl ?_
      exact Function.update_of_ne (fun heq : other = id => hhere (heq ▸ hother)) _ _
    have hkept : w₂.entry id = w₁.entry id := hlast.outside id hhere
    have hfirst' : filing env defaultCategory (Function.update titles id title) w₂ id =
        filing env defaultCategory (fun _ => title) w₁ id := by
      refine filing_congr hkept ?_ (Function.update_self _ _ _)
      exact isEnabled_congr h hlast.same (by rw [hkept])
    rw [hmap₂, hmap₁, List.filterMap_cons, hfirst', hlater]
    cases filing env defaultCategory (fun _ => title) w₁ id <;> rfl

theorem labelMap_listed (hquiet : Quiet w) :
    Ends (labelMap env messages locale defaultCategory) w fun map w' =>
      ∀ label, label ∈ Dict.keys map.flat ↔ (∃ id, Shown env w w' label id) ∧
        ¬ (label < flatKey ∧ ∃ id, Shown env w w' flatKey id ∧
          categoryPath ((w'.entry id).filedUnder defaultCategory) = []) := by
  unfold labelMap
  simp only [ends_bind, ends_get]
  have hids : ∀ id ∈ snapshot w, id < w.entries.length ∧ (w.entry id).AtRest :=
    fun id hmem => ⟨hquiet.toFiled.ranged id hmem, hquiet.rest id hmem⟩
  refine (fileEntries_filedAll h hmessages locale defaultCategory hquiet.toFiled.snapshot_nodup
    hids {}).imp ?_
  rintro _ w' ⟨hall, titles, rfl⟩ label
  have hfilings := exists_filing_iff h hall hquiet defaultCategory titles
  rw [← hall.snapshot_eq,
    LabelMap.mem_flat_insertAll (filings_sorted (hall.filed hquiet.toFiled) titles)]
  refine and_congr ?_ (not_congr (and_congr_right fun _ => ?_))
  · simpa only [and_true] using hfilings label fun _ => True
  · exact hfilings flatKey fun category => categoryPath category = []

end Stock

end Registry

end PluginConsole
