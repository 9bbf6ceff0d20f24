import PluginConsole.Proofs.Registry.Listing

/-!
# Which entry answers

Without a label the entries are asked in the order of their labels until one has a component.
Whether an entry has one does not depend on who was asked before.
-/

namespace PluginConsole

namespace Entry

variable {context : Option ContextRef} {y disposed : Bool} {warm warm' : Option Warm}
variable {broken broken' : Bool}

theorem Slot.findable (h : Slot context (· = y) disposed warm broken warm' broken') :
    warm'.isSome ∨ y = true ↔ warm.isSome ∨ y = true := by
  cases h with
  | same => exact Iff.rfl
  | missed => exact Iff.rfl
  | found _ _ _ hyields => simp [← hyields]
  | bound => simp

theorem Slot.component {allows : Bool → Prop} {x : Warm}
    (h : Slot context allows disposed warm broken warm' broken') (hwarm : warm = some x) :
    ∃ x', warm' = some x' ∧ x'.component = x.component := by
  cases h with
  | same => exact ⟨x, hwarm, rfl⟩
  | missed => cases hwarm
  | found => cases hwarm
  | bound =>
    cases hwarm
    exact ⟨_, rfl, rfl⟩

end Entry

theorem Lifecycle.Has.unique {σ : Type} {w : World σ} {id : EntryId} {c c' : Component}
    (h : Lifecycle.Has id c w) (h' : Lifecycle.Has id c' w) : c = c' := by
  obtain ⟨-, x, hwarm, rfl⟩ := h
  obtain ⟨-, x', hwarm', rfl⟩ := h'
  rw [hwarm] at hwarm'
  cases hwarm'
  rfl

namespace Registry

open Act Lifecycle

variable {σ δ : Type} {env : Environment σ} {stock : σ → δ} {yields : δ → Source → Bool}
variable {w w' w'' : World σ} {id : EntryId} {label : String} {c : Component}
variable {found : Option Component}

/-- The component of the entry is there when it is asked for. -/
def Available (env : Environment σ) (w : World σ) (id : EntryId) : Prop :=
  (component env id w).1.isSome = true

def LeftAlone (id : EntryId) (w w' : World σ) : Prop :=
  w'.entry id = w.entry id ∧ w'.eventsOf id = w.eventsOf id

/-- Entries were asked, and all that a search depends on is as it was. -/
abbrev Canvassed (stock : σ → δ) (yields : δ → Source → Bool) : World σ → World σ → Prop :=
  Consulting (SameStock stock) fun w source b => b = yields (stock w.outside) source

theorem Consulting.has {R : World σ → World σ → Prop} {allows : World σ → Source → Bool → Prop}
    (h : Consulting R allows w w') (hhas : Has id c w) : Has id c w' := by
  obtain ⟨hlive, x, hwarm, rfl⟩ := hhas
  obtain ⟨x', hwarm', hsame⟩ := (h.consulted id).slot.component hwarm
  exact ⟨(h.consulted id).disposed.trans hlive, x', hwarm', hsame⟩

section Stock

variable (h : Stocked env stock yields)
include h

theorem foreseen_stock :
    Foreseen env (SameStock stock) fun w source b => b = yields (stock w.outside) source where
  toRespected := respected_stock h
  steady hsame := by rw [hsame]
  may w id source := h.mayYield id w.outside source

theorem canvassed_queried :
    Queried env Ranged (fun w id => id < w.entries.length) (Canvassed stock yields) :=
  (foreseen_stock h).queried h.code

theorem available_iff (hid : id < w.entries.length) (hlive : (w.entry id).disposed = false) :
    Available env w id ↔
      (w.entry id).warm.isSome ∨ yields (stock w.outside) (w.entry id).source = true := by
  have hanswers : Ends (component env id) w fun found w' => Answers w.context
      (· = yields (stock w.outside) (w.entry id).source) (w.entry id) found (w'.entry id) :=
    component_answers h.code hid (h.mayYield id w.outside (w.entry id).source)
  exact hanswers.isSome_iff hlive

theorem Canvassed.available (hcanvassed : Canvassed stock yields w w') (hquiet : Quiet w)
    (hid : id ∈ snapshot w) : Available env w' id ↔ Available env w id := by
  have hrange := hquiet.toFiled.ranged id hid
  have hlive := (hquiet.rest id hid).live
  have hconsulted := hcanvassed.consulted id
  have hstock : stock w'.outside = stock w.outside := hcanvassed.within
  rw [available_iff h hrange hlive, available_iff h (hcanvassed.kept.length ▸ hrange)
    (hconsulted.disposed.trans hlive), hconsulted.source, hstock]
  exact hconsulted.slot.findable

/-! ## Along a list -/

inductive Searched (env : Environment σ) (ids : List EntryId) (w : World σ) :
    Option Component → World σ → Prop where
  | nobody {w' : World σ} (hnone : ∀ id ∈ ids, ¬ Available env w id) : Searched env ids w none w'
  | first {w' : World σ} {c : Component} (before : List EntryId) (id : EntryId)
    (rest : List EntryId) (hids : ids = before ++ id :: rest)
    (hbefore : ∀ other ∈ before, ¬ Available env w other) (hhere : Available env w id)
    (hhas : Has id c w') (hrest : ∀ other ∈ rest, LeftAlone other w w') :
    Searched env ids w (some c) w'

omit h in
theorem Searched.skip {rest : List EntryId} (hsearched : Searched env rest w' found w'')
    (hnone : ¬ Available env w id)
    (hsame : ∀ other ∈ rest, (Available env w' other ↔ Available env w other) ∧
      LeftAlone other w w') : Searched env (id :: rest) w found w'' := by
  cases hsearched with
  | nobody hrest =>
    refine .nobody (List.forall_mem_cons.mpr ⟨hnone, fun other hother => ?_⟩)
    rw [← (hsame other hother).1]
    exact hrest other hother
  | first before first behind hids hbefore hhere hhas hbehind =>
    have hmem (other : EntryId) (hother : other ∈ before ∨ other = first ∨ other ∈ behind) :
        other ∈ rest := by
      rw [hids, List.mem_append, List.mem_cons]
      exact hother
    refine .first (id :: before) first behind (by rw [hids]; rfl)
      (List.forall_mem_cons.mpr ⟨hnone, fun other hother => ?_⟩) ?_ hhas fun other hother => ?_
    · rw [← (hsame other (hmem other (Or.inl hother))).1]
      exact hbefore other hother
    · exact (hsame first (hmem first (Or.inr (Or.inl rfl)))).1.mp hhere
    · obtain ⟨hentry, hevents⟩ := hbehind other hother
      obtain ⟨hentry₁, hevents₁⟩ := (hsame other (hmem other (Or.inr (Or.inr hother)))).2
      exact ⟨hentry.trans hentry₁, hevents.trans hevents₁⟩

theorem firstComponent_searched {ids : List EntryId} (hquiet : Quiet w)
    (hids : ∀ id ∈ ids, id ∈ snapshot w) (hnodup : ids.Nodup) :
    Ends (firstComponent env ids) w fun found w' => Searched env ids w found w' := by
  induction ids generalizing w with
  | nil => exact .nobody fun _ hmem => absurd hmem List.not_mem_nil
  | cons id rest ih =>
    obtain ⟨hhere, hnodup⟩ := List.nodup_cons.mp hnodup
    have hid := hquiet.toFiled.ranged id (hids id List.mem_cons_self)
    have hfound : Ends (component env id) w fun found _ => found.isSome ↔ Available env w id :=
      Iff.rfl
    unfold firstComponent
    rw [ends_bind]
    refine ((hfound.and (component_spec h.code hid)).and
      ((canvassed_queried h).component hid)).imp ?_
    rintro (_ | c) w₁ ⟨⟨hfound, hmoves, hhas⟩, hcanvassed⟩
    · have hnone : ¬ Available env w id := fun havailable => by
        cases hfound.mpr havailable
      have hrest (other : EntryId) (hother : other ∈ rest) : other ∈ snapshot w :=
        hids other (List.mem_cons_of_mem id hother)
      have hsnapshot := snapshot_congr hcanvassed.kept.table
      refine (ih (hcanvassed.quiet hquiet) (fun other hother => hsnapshot ▸ hrest other hother)
        hnodup).imp fun found w₂ hsearched => hsearched.skip hnone fun other hother => ?_
      have hne : other ≠ id := fun heq => hhere (heq ▸ hother)
      exact ⟨hcanvassed.available h hquiet (hrest other hother),
        hmoves.frame.others other hne, hmoves.frame.events other hne⟩
    · refine .first [] id rest rfl (fun _ hmem => absurd hmem List.not_mem_nil)
        (hfound.mp rfl) (hhas c rfl) fun other hother => ?_
      have hne : other ≠ id := fun heq => hhere (heq ▸ hother)
      exact ⟨hmoves.frame.others other hne, hmoves.frame.events other hne⟩

/-! ## By label -/

omit h in
theorem Filed.around (hfiled : Filed w) {before rest : List EntryId}
    (hsplit : snapshot w = before ++ id :: rest) :
    ∃ label, w.table.lookup label = some id ∧
      (∀ earlier other, w.table.lookup earlier = some other → earlier < label → other ∈ before) ∧
      (∀ later other, w.table.lookup later = some other → label < later → other ∈ rest) := by
  obtain ⟨front, back, htable, hfront, hback⟩ := List.map_eq_append_iff.mp hsplit
  obtain ⟨⟨label, here⟩, behind, rfl, hhere, hbehind⟩ := List.map_eq_cons_iff.mp hback
  obtain rfl : here = id := hhere
  have hsorted := hfiled.sorted
  unfold Dict.Sorted at hsorted
  rw [htable, List.pairwise_append, List.pairwise_cons] at hsorted
  obtain ⟨-, ⟨hlabels, -⟩, hearlier⟩ := hsorted
  have hmem (other : String) (id : EntryId) (hlookup : w.table.lookup other = some id) :
      (other, id) ∈ front ∨ (other, id) = (label, here) ∨ (other, id) ∈ behind := by
    rw [← hfiled.lookup, htable, List.mem_append, List.mem_cons] at hlookup
    exact hlookup
  refine ⟨label, ?_, fun earlier other hlookup hlt => ?_, fun later other hlookup hlt => ?_⟩
  · rw [← hfiled.lookup, htable]
    exact List.mem_append_right front List.mem_cons_self
  · rw [← hfront]
    rcases hmem earlier other hlookup with hfirst | heq | hlast
    · exact List.mem_map_of_mem hfirst
    · cases heq
      exact absurd hlt (lt_irrefl _)
    · exact absurd hlt (lt_asymm (hlabels _ hlast))
  · rw [← hbehind]
    rcases hmem later other hlookup with hfirst | heq | hlast
    · exact absurd hlt (lt_asymm (hearlier _ hfirst _ List.mem_cons_self))
    · cases heq
      exact absurd hlt (lt_irrefl _)
    · exact List.mem_map_of_mem hlast

/-- No label leads to an entry with a component. -/
def Barren (env : Environment σ) (w : World σ) : Prop :=
  ∀ label id, w.table.lookup label = some id → ¬ Available env w id

/-- Of the entries with a component this is the one with the first label. -/
structure Leads (env : Environment σ) (w : World σ) (label : String) (id : EntryId) : Prop where
  listed : w.table.lookup label = some id
  available : Available env w id
  first : ∀ earlier other, w.table.lookup earlier = some other → earlier < label →
    ¬ Available env w other

structure Answered (env : Environment σ) (w : World σ) (found : Option Component) (w' : World σ) :
    Prop where
  barren : found = none ↔ Barren env w
  leads : ∀ c, found = some c → ∃ label id, Leads env w label id ∧ Has id c w'

structure Led (env : Environment σ) (w : World σ) (found : Option Component) (w' : World σ) : Prop
    extends Answered env w found w' where
  table : w'.table = w.table
  behind : ∀ label id, Leads env w label id → ∀ later other, w.table.lookup later = some other →
    label < later → LeftAlone other w w'

omit h in
theorem Leads.unique {label' : String} {id' : EntryId} (hleads : Leads env w label id)
    (hleads' : Leads env w label' id') : label = label' ∧ id = id' := by
  have hlabel : label = label' := by
    rcases lt_trichotomy label label' with hlt | heq | hlt
    · exact absurd hleads.available (hleads'.first label id hleads.listed hlt)
    · exact heq
    · exact absurd hleads'.available (hleads.first label' id' hleads'.listed hlt)
  refine ⟨hlabel, Option.some_inj.mp ?_⟩
  rw [← hleads.listed, hlabel, hleads'.listed]

omit h in
theorem Leads.not_barren (hleads : Leads env w label id) : ¬ Barren env w :=
  fun hbarren => hbarren label id hleads.listed hleads.available

omit h in
theorem Searched.led (hsearched : Searched env (snapshot w) w found w') (hfiled : Filed w)
    (htable : w'.table = w.table) : Led env w found w' := by
  cases hsearched with
  | nobody hnone =>
    have hbarren : Barren env w := fun label id hlookup => hnone id (mem_snapshot_of_lookup hlookup)
    refine ⟨⟨iff_of_true rfl hbarren, fun _ hsome => ?_⟩, htable, fun label id hleads => ?_⟩
    · cases hsome
    · exact absurd hbarren hleads.not_barren
  | @first w' c before id rest hids hbefore hhere hhas hrest =>
    obtain ⟨label, hlisted, hearlier, hlater⟩ := hfiled.around hids
    have hleads : Leads env w label id :=
      ⟨hlisted, hhere, fun earlier other hlookup hlt =>
        hbefore other (hearlier earlier other hlookup hlt)⟩
    refine ⟨⟨iff_of_false (Option.some_ne_none c) hleads.not_barren, ?_⟩, htable, ?_⟩
    · rintro _ ⟨⟩
      exact ⟨label, id, hleads, hhas⟩
    · intro label' id' hleads' later other hlookup hlt
      rw [(hleads'.unique hleads).1] at hlt
      exact hrest other (hlater later other hlookup hlt)

section Canvassed

variable (hcanvassed : Canvassed stock yields w w') (hquiet : Quiet w)
include hcanvassed hquiet

theorem Canvassed.leads_iff : Leads env w' label id ↔ Leads env w label id := by
  have htable : w'.table = w.table := hcanvassed.kept.table
  have hsame {label : String} {id : EntryId} (hlookup : w.table.lookup label = some id) :
      Available env w' id ↔ Available env w id :=
    hcanvassed.available h hquiet (mem_snapshot_of_lookup hlookup)
  constructor
  · rintro ⟨hlisted, havailable, hfirst⟩
    rw [htable] at hlisted hfirst
    refine ⟨hlisted, (hsame hlisted).mp havailable, fun earlier other hlookup hlt hother => ?_⟩
    exact hfirst earlier other hlookup hlt ((hsame hlookup).mpr hother)
  · rintro ⟨hlisted, havailable, hfirst⟩
    rw [← htable] at hfirst
    refine ⟨htable ▸ hlisted, (hsame hlisted).mpr havailable, fun earlier other hlookup hlt hother => ?_⟩
    exact hfirst earlier other hlookup hlt ((hsame (htable ▸ hlookup)).mp hother)

theorem Canvassed.barren_iff : Barren env w' ↔ Barren env w := by
  unfold Barren
  rw [hcanvassed.kept.table]
  refine forall₂_congr fun label id => forall_congr' fun hlookup => not_congr ?_
  exact hcanvassed.available h hquiet (mem_snapshot_of_lookup hlookup)

theorem Canvassed.answered_iff : Answered env w' found w'' ↔ Answered env w found w'' := by
  have hbarren := hcanvassed.barren_iff h hquiet
  have hleads (label : String) (id : EntryId) : Leads env w' label id ↔ Leads env w label id :=
    hcanvassed.leads_iff h hquiet
  constructor
  · rintro ⟨hnone, hsome⟩
    simp only [hbarren, hleads] at hnone hsome
    exact ⟨hnone, hsome⟩
  · rintro ⟨hnone, hsome⟩
    simp only [← hbarren, ← hleads] at hnone hsome
    exact ⟨hnone, hsome⟩

end Canvassed

/-! ## Looking up -/

theorem lookup_led (hquiet : Quiet w) :
    Ends (lookup env "") w fun found w' => Canvassed stock yields w w' ∧ Led env w found w' := by
  have hcanvassed : Ends (lookup env "") w fun _ w' => Canvassed stock yields w w' :=
    (canvassed_queried h).lookup hquiet.toFiled.ranged ""
  refine hcanvassed.and ?_
  unfold lookup at hcanvassed ⊢
  simp only [if_true, ends_bind, ends_get, ends_holding] at hcanvassed ⊢
  -- What is in hand makes no difference to who is available.
  have hopen : Canvassed stock yields w { w with inHand := snapshot w ++ w.inHand } :=
    (canvassed_queried h).aside w _
  refine ((firstComponent_searched h (hopen.quiet hquiet) (fun _ hmem => hmem)
    hquiet.toFiled.snapshot_nodup).and hcanvassed).imp ?_
  rintro found w₁ ⟨hsearched, hkept⟩
  have hled : Led env { w with inHand := snapshot w ++ w.inHand } found w₁ :=
    hsearched.led (hopen.quiet hquiet).toFiled hkept.kept.table
  have hanswered := (hopen.answered_iff h hquiet).mp hled.toAnswered
  refine ⟨⟨hanswered.barren, hanswered.leads⟩, hkept.kept.table, ?_⟩
  intro label id hleads
  exact hled.behind label id ((hopen.leads_iff h hquiet).mpr hleads)

theorem lookup_label (hquiet : Quiet w) (hlabel : label ≠ "")
    (hlookup : w.table.lookup label = some id) :
    Ends (lookup env label) w fun found w' => Canvassed stock yields w w' ∧
      (found = none ↔ ¬ Available env w id) ∧ ∀ c, found = some c → Has id c w' := by
  have hcanvassed : Ends (lookup env label) w fun _ w' => Canvassed stock yields w w' :=
    (canvassed_queried h).lookup hquiet.toFiled.ranged label
  refine hcanvassed.and ?_
  have hmem := mem_snapshot_of_lookup hlookup
  have hopen : Canvassed stock yields w { w with inHand := [id] ++ w.inHand } :=
    (canvassed_queried h).aside w _
  have hid : id < { w with inHand := [id] ++ w.inHand }.entries.length :=
    hquiet.toFiled.ranged id hmem
  have hsame := hopen.available h hquiet hmem
  have hfound : Ends (component env id) { w with inHand := [id] ++ w.inHand } fun found _ =>
      found.isSome ↔ Available env { w with inHand := [id] ++ w.inHand } id := Iff.rfl
  unfold lookup
  simp only [hlabel, if_false, ends_bind, ends_get, hlookup, ends_holding]
  refine (hfound.and (component_spec h.code hid)).imp ?_
  rintro found w₁ ⟨hfound, -, hhas⟩
  rw [← hsame, ← hfound]
  exact ⟨by simp, hhas⟩

/-- Whoever was found is found again. -/
theorem lookup_again (hcanvassed : Canvassed stock yields w w') (hquiet : Quiet w)
    (hanswered : Answered env w found w') : (lookup env "" w').1 = found := by
  have hled := lookup_led h (hcanvassed.quiet hquiet)
  unfold Ends at hled
  generalize (lookup env "" w').1 = again at hled ⊢
  obtain ⟨hlast, hagain⟩ := hled
  have hagain := (hcanvassed.answered_iff h hquiet).mp hagain.toAnswered
  cases found with
  | none => exact hagain.barren.mpr (hanswered.barren.mp rfl)
  | some c =>
    obtain ⟨label, id, hleads, hhas⟩ := hanswered.leads c rfl
    cases again with
    | none => exact absurd (hagain.barren.mp rfl) hleads.not_barren
    | some c' =>
      obtain ⟨label', id', hleads', hhas'⟩ := hagain.leads c' rfl
      obtain ⟨-, rfl⟩ := hleads.unique hleads'
      rw [(hlast.has hhas).unique hhas']

/-- The entry under the default label, if it has a component. -/
def Preferred (env : Environment σ) (w : World σ) (id : EntryId) : Prop :=
  ∃ label, w.defaultLabel = some label ∧ label ≠ "" ∧ w.table.lookup label = some id ∧
    Available env w id

structure Defaulted (env : Environment σ) (w : World σ) (found : Option Component)
    (w' : World σ) : Prop where
  table : w'.table = w.table
  barren : found = none ↔ Barren env w
  preferred : ∀ id, Preferred env w id → ∃ c, found = some c ∧ Has id c w'
  otherwise : (∀ id, ¬ Preferred env w id) → Answered env w found w' ∧ (lookup env "" w').1 = found

theorem Answered.defaulted (hanswered : Answered env w found w')
    (hcanvassed : Canvassed stock yields w w') (hquiet : Quiet w)
    (hnone : ∀ id, ¬ Preferred env w id) : Defaulted env w found w' where
  table := hcanvassed.kept.table
  barren := hanswered.barren
  preferred id hpreferred := absurd hpreferred (hnone id)
  otherwise _ := ⟨hanswered, lookup_again h hcanvassed hquiet hanswered⟩

/-- An attempt under the default label that fails leaves it to the others. -/
theorem lookup_defaulted (hcanvassed : Canvassed stock yields w w') (hquiet : Quiet w)
    (hnone : ∀ id, ¬ Preferred env w id) :
    Ends (lookup env "") w' fun found w'' => Defaulted env w found w'' := by
  refine (lookup_led h (hcanvassed.quiet hquiet)).imp ?_
  rintro found w'' ⟨hlast, hled⟩
  exact ((hcanvassed.answered_iff h hquiet).mp hled.toAnswered).defaulted h
    ((canvassed_queried h).trans hcanvassed hlast) hquiet hnone

omit h in
theorem Preferred.listed (hpreferred : Preferred env w id) (hdefault : w.defaultLabel = some label) :
    label ≠ "" ∧ w.table.lookup label = some id ∧ Available env w id := by
  obtain ⟨other, hother, hrest⟩ := hpreferred
  rw [hdefault] at hother
  cases hother
  exact hrest

omit h in
theorem lookup_of_unlisted (hlabel : label ≠ "") (hnone : w.table.lookup label = none) :
    lookup env label w = (none, w) := by
  have hends : Ends (lookup env label) w fun found w' => (found, w') = (none, w) := by
    unfold lookup
    simp only [hlabel, if_false, ends_bind, ends_get, hnone, ends_pure]
  exact hends

theorem lookupDefault_listed (hquiet : Quiet w) (hdefault : w.defaultLabel = some label)
    (hlabel : label ≠ "") (hlookup : w.table.lookup label = some id) :
    Ends (lookupDefault env) w fun found w' => Defaulted env w found w' := by
  have honly (other : EntryId) (hpreferred : Preferred env w other) : other = id := by
    have hlisted := (hpreferred.listed hdefault).2.1
    rw [hlookup] at hlisted
    cases hlisted
    rfl
  unfold lookupDefault
  simp only [ends_bind, ends_get, hdefault]
  refine (lookup_label h hquiet hlabel hlookup).imp ?_
  rintro (_ | c) w₁ ⟨hcanvassed, hfound, hhas⟩
  · refine lookup_defaulted h hcanvassed hquiet fun other hpreferred => ?_
    obtain rfl := honly other hpreferred
    exact hfound.mp rfl (hpreferred.listed hdefault).2.2
  · have havailable : Available env w id := by
      by_contra hmissing
      cases hfound.mpr hmissing
    have hpreferred : Preferred env w id := ⟨label, hdefault, hlabel, hlookup, havailable⟩
    refine ⟨hcanvassed.kept.table, iff_of_false (Option.some_ne_none c) fun hbarren => ?_,
      fun other hother => ?_, fun hnone => absurd hpreferred (hnone id)⟩
    · exact hbarren label id hlookup havailable
    · obtain rfl := honly other hother
      exact ⟨c, rfl, hhas c rfl⟩

theorem lookupDefault_defaulted (hquiet : Quiet w) :
    Ends (lookupDefault env) w fun found w' => Defaulted env w found w' := by
  have hstart := (canvassed_queried h).refl w
  cases hdefault : w.defaultLabel with
  | none =>
    unfold lookupDefault
    simp only [ends_bind, ends_get, hdefault]
    refine lookup_defaulted h hstart hquiet ?_
    rintro id ⟨label, hlabel, -⟩
    rw [hdefault] at hlabel
    cases hlabel
  | some label =>
    by_cases hlabel : label = ""
    · have hnone (id : EntryId) : ¬ Preferred env w id := fun hpreferred =>
        (hpreferred.listed hdefault).1 hlabel
      unfold lookupDefault
      simp only [ends_bind, ends_get, hdefault]
      subst hlabel
      refine (lookup_led h hquiet).imp ?_
      rintro (_ | c) w₁ ⟨hcanvassed, hled⟩
      · exact lookup_defaulted h hcanvassed hquiet hnone
      · exact hled.toAnswered.defaulted h hcanvassed hquiet hnone
    cases hlookup : w.table.lookup label with
    | none =>
      unfold lookupDefault
      simp only [ends_bind, ends_get, hdefault]
      refine Ends.of_eq (lookup_of_unlisted hlabel hlookup) ?_
      refine lookup_defaulted h hstart hquiet fun id hpreferred => ?_
      have hlisted := (hpreferred.listed hdefault).2.1
      rw [hlookup] at hlisted
      cases hlisted
    | some id => exact lookupDefault_listed h hquiet hdefault hlabel hlookup

end Stock

end Registry

end PluginConsole
