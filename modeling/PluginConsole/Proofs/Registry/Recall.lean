import PluginConsole.Proofs.Lifecycle.Recall
import PluginConsole.Proofs.Registry.Titles

/-!
# Texts in every run

Between two calls no text of an entry is being found. What was found by then is what the first call
for it gave, and every later call gives the same.
-/

namespace PluginConsole

open Lifecycle

variable {σ δ : Type}

namespace Registry

open Act Entry

variable {env : Environment σ} {view : σ → δ} {w w' w'' : World σ} {id : EntryId}

/-- Between two calls, the entries know what they were told. -/
structure Remembered (env : Environment σ) (w : World σ) : Prop where
  ranged : Ranged w
  unborn : ∀ id, w.entries.length ≤ id → w.eventsOf id = []
  recalled : ∀ id, Recalled env id w

structure Recounts (env : Environment σ) (w w' : World σ) : Prop where
  remembered : Remembered env w'
  length : w.entries.length ≤ w'.entries.length
  history : w.history <+: w'.history
  title : ∀ id, Retold (w.entry id).title (w'.entry id).title
  category : ∀ id, Retold (w.entry id).category (w'.entry id).category

def Recollects (env : Environment σ) (w w' : World σ) : Prop :=
  Remembered env w → Recounts env w w'

namespace Recounts

theorem trans (h : Recounts env w w') (h' : Recounts env w' w'') : Recounts env w w'' where
  remembered := h'.remembered
  length := h.length.trans h'.length
  history := h.history.trans h'.history
  title id := (h.title id).trans (h'.title id)
  category id := (h.category id).trans (h'.category id)

theorem ofSame (h : Remembered env w) (hentries : w'.entries = w.entries)
    (hhistory : w'.history = w.history) (hranged : Ranged w') : Recounts env w w' := by
  have hentry := World.entry_congr hentries
  have hevents := World.eventsOf_congr hhistory
  have hstill : w.history <+: w'.history := hhistory ▸ List.prefix_rfl
  refine ⟨⟨hranged, fun id hid => ?_, fun id => ?_⟩, hentries ▸ Nat.le_refl _, hstill,
    fun id => ?_, fun id => ?_⟩
  · rw [hevents]
    exact h.unborn id (hentries ▸ hid)
  · exact (h.recalled id).same (hentry id) (hevents id) hstill
  · rw [hentry]
    exact .refl _
  · rw [hentry]
    exact .refl _

theorem refl (h : Remembered env w) : Recounts env w w :=
  .ofSame h rfl rfl h.ranged

theorem reworded (h : Remembered env w) (hid : id < w.entries.length)
    (hreworded : Reworded env id w w') : Recounts env w w' := by
  have hframe := hreworded.frame
  have hothers (P : EntryId → Prop) (hself : P id) (hother : ∀ other, other ≠ id → P other) :
      ∀ other, P other := fun other =>
    if heq : other = id then heq ▸ hself else hother other heq
  refine ⟨⟨?_, fun other hother => ?_, hothers _ ((h.recalled id).reworded hreworded) ?_⟩,
    hframe.length.ge, hreworded.history, hothers _ hreworded.retold ?_,
    hothers _ hreworded.category.retold ?_⟩
  · unfold Ranged snapshot
    rw [hframe.table, hframe.length]
    exact h.ranged
  · rw [hframe.length] at hother
    rw [hframe.events other (Nat.ne_of_gt (hid.trans_le hother))]
    exact h.unborn other hother
  · intro other ho
    exact (h.recalled other).same (hframe.others other ho) (hframe.events other ho)
      hreworded.history
  · intro other ho
    rw [hframe.others other ho]
    exact .refl _
  · intro other ho
    rw [hframe.others other ho]
    exact .refl _

theorem entered (h : Remembered env w) (label : String) (source : Source) :
    Recounts env w (w.entered { label, source }) := by
  have hunborn : w.eventsOf w.entries.length = [] := h.unborn _ (Nat.le_refl _)
  refine ⟨⟨ranged_entered h.ranged _, fun id hid => ?_, fun id => ?_⟩, ?_, List.prefix_rfl,
    fun id => ?_, fun id => ?_⟩
  · rw [World.length_entered] at hid
    exact h.unborn id (Nat.le_of_succ_le hid)
  · by_cases hnew : id = w.entries.length
    · have hself : (w.entered { label, source }).entry id = { label, source } :=
        hnew ▸ World.entry_entered_self _ w
      exact .fresh (by rw [hself]) (by rw [hself]) (hnew ▸ hunborn)
    · have hsame := World.entry_entered { label, source } id w
      rw [if_neg hnew] at hsame
      exact (h.recalled id).same hsame rfl List.prefix_rfl
  · rw [World.length_entered]
    exact Nat.le_succ _
  · rw [(World.texts_entered label source id w).1]
    exact .refl _
  · rw [(World.texts_entered label source id w).2]
    exact .refl _

end Recounts

theorem remembered_fresh (s : σ) : Remembered env ({ outside := s } : World σ) where
  ranged _ hmem := absurd hmem List.not_mem_nil
  unborn _ _ := rfl
  recalled _ := .fresh rfl rfl rfl

theorem recollects_governed (hcode : env.code.Spares view) :
    Governed env (fun _ _ => True) (Remembered env)
      (fun w id => Remembered env w ∧ id < w.entries.length) (Recollects env) where
  refl _ := .refl
  trans h h' hready := (h hready).trans (h' (h hready).remembered)
  aside _ _ hready := .ofSame hready rfl rfl hready.ranged
  stays h hmay := ⟨(h hmay.1).remembered, hmay.2.trans_le (h hmay.1).length⟩
  keeps h hready := (h hready).remembered
  listed hready id hmem := ⟨hready, hready.ranged id hmem⟩
  component hmay := (component_reworded hcode hmay.2).imp fun _ _ h hready => .reworded hready hmay.2 h
  title hmay := (title_reworded hcode hmay.2).imp fun _ _ h hready => .reworded hready hmay.2 h
  category hmay := (category_reworded hcode hmay.2).imp fun _ _ h hready => .reworded hready hmay.2 h
  init hmay ref := (init_reworded hcode hmay.2 ref).imp fun _ _ h hready => .reworded hready hmay.2 h
  destroy hmay := (destroy_reworded hcode hmay.2).imp fun _ _ h hready => .reworded hready hmay.2 h
  dispose hmay := (dispose_reworded hcode hmay.2).imp fun _ _ h hready => .reworded hready hmay.2 h
  log _ _ hready := .ofSame hready rfl rfl hready.ranged
  count _ hready := .ofSame hready rfl rfl hready.ranged
  within := env.directory.within_any
  settings _ _ _ _ hready := .ofSame hready rfl rfl hready.ranged
  forgets _ hready := .ofSame hready rfl rfl hready.ranged
  attaches _ _ hready := .ofSame hready rfl rfl hready.ranged
  outside _ hready := .ofSame hready rfl rfl hready.ranged
  enter _ label source hready := .entered hready label source
  entered {w} hready label source := by
    refine ⟨(Recounts.entered hready label source).remembered, ?_⟩
    rw [World.length_entered]
    exact Nat.lt_succ_self _
  table _ hmay hready := .ofSame hready rfl rfl fun id hmem => (hmay id hmem).2

/-! ## Every run -/

/-- No text of the entry is being found. -/
def Landed (id : EntryId) (w : World σ) : Prop :=
  (w.entry id).title ≠ .inFlight ∧ (w.entry id).category ≠ .inFlight

/-- How an entry is asked for its title. The first call finds it. What was found by then was found
by such a call, and is given again from then on, whatever happens. Whoever asks while it is being
found is told the label. -/
structure TitleOnce (env : Environment σ) (id : EntryId) (w : World σ) : Prop where
  first : (w.entry id).title = .empty →
    FirstTitle env id w (title env id w).1 (title env id w).2
  found : ∀ t, (w.entry id).title = .resolved t → title env id w = (t, w) ∧
    ∃ w₀, TitleFoundBy env id w w₀ t ∧ FirstTitle env id w₀ t (title env id w₀).2
  ever : ∀ more, title env id (run env more (title env id w).2) =
    ((title env id w).1, run env more (title env id w).2)
  once : titlesAsked (w.eventsOf id) ≤ 1
  nested : ∀ w₀ : World σ, (w₀.entry id).title = .inFlight →
    title env id w₀ = ((w₀.entry id).label, w₀) ∧
    component env id w₀ = componentNamed env (pure (w₀.entry id).label) id w₀
  landed : Landed id (title env id w).2

/-- How an entry is asked for its category. It is looked for until there is one. What was found by
then was found by such a call, whoever made it. -/
structure CategoryKept (env : Environment σ) (id : EntryId) (w : World σ) : Prop where
  fresh : (w.entry id).category = .empty →
    FreshCategory env id w (category env id w).1 (category env id w).2
  found : ∀ c, (w.entry id).category = .resolved c → category env id w = (some c, w) ∧
    ∃ w₀, CategoryFoundBy env id w w₀ c ∧ FreshCategory env id w₀ (some c) (category env id w₀).2
  ever : ∀ c, (category env id w).1 = some c → ∀ more,
    category env id (run env more (category env id w).2) =
      (some c, run env more (category env id w).2)
  again : (category env id w).1 = none → ((category env id w).2.entry id).category = .empty
  landed : Landed id (category env id w).2

theorem Remembered.landed (h : Remembered env w) (id : EntryId) : Landed id w :=
  ⟨(h.recalled id).title, (h.recalled id).category⟩

section Remembered

variable (hcode : env.code.Spares view) (h : Remembered env w)
include hcode h

theorem Remembered.run (calls : List (Call σ)) : Recounts env w (run env calls w) :=
  (recollects_governed hcode).run (fun hready hid => ⟨hready, hid⟩) h calls h

theorem Remembered.titleOnce (hid : id < w.entries.length) : TitleOnce env id w := by
  have hasked : Recounts env w (title env id w).2 :=
    .reworded h hid (title_reworded hcode hid)
  have hkept := title_kept hcode hid (h.recalled id).title
  refine ⟨title_first hcode hid, fun t ht => ?_, fun more => ?_, (h.recalled id).once,
    fun w₀ hflight => ?_, hasked.remembered.landed id⟩
  · obtain ⟨w₀, hfound⟩ := (h.recalled id).found t ht
    have hfirst := title_first hcode hfound.call.made hfound.call.empty
    rw [hfound.call.gave] at hfirst
    exact ⟨title_of_resolved ht, w₀, hfound, hfirst⟩
  · have hmore := (hasked.remembered.run hcode more).title id
    exact title_of_resolved (hmore.resolved hkept)
  · have hsame : Ends (component env id) w₀ fun found w' =>
        (found, w') = componentNamed env (pure (w₀.entry id).label) id w₀ :=
      (ends_component_of_inFlight hcode hflight).mpr rfl
    exact ⟨title_of_inFlight hflight, hsame⟩

theorem Remembered.categoryKept (hid : id < w.entries.length) : CategoryKept env id w := by
  have hasked : Recounts env w (category env id w).2 :=
    .reworded h hid (category_reworded hcode hid)
  have hkept := category_kept hcode hid (h.recalled id).category
  refine ⟨category_fresh hid, fun c hc => ?_, fun c hc more => ?_, fun hnone => ?_,
    hasked.remembered.landed id⟩
  · obtain ⟨w₀, hfound⟩ := (h.recalled id).sorted c hc
    have hfresh : FreshCategory env id w₀ (category env id w₀).1 (category env id w₀).2 :=
      category_fresh hfound.call.made hfound.call.empty
    rw [hfound.call.gave] at hfresh
    exact ⟨category_of_resolved hc, w₀, hfound, hfresh⟩
  · have hmore := (hasked.remembered.run hcode more).category id
    refine category_of_resolved (hmore.resolved (hkept.trans ?_))
    rw [hc]
    rfl
  · refine hkept.trans ?_
    rw [hnone]
    rfl

end Remembered

/-- In every run, each text of an entry is found once. The title is found by the first call for it,
in the announcement, or from the component, which is asked once at most, or else it is the label;
and so is the category, except that nothing stands in for it and that it is looked for again while
there is none. What was found is given by every later call. -/
theorem run_remembers (hcode : env.code.Spares fun _ => ()) (s : σ) (calls : List (Call σ))
    (id : EntryId) (hid : id < (run env calls { outside := s }).entries.length) :
    let w := run env calls { outside := s }
    Landed id w ∧ TitleOnce env id w ∧ CategoryKept env id w := by
  intro w
  have h : Remembered env w := ((remembered_fresh s).run hcode calls).remembered
  exact ⟨h.landed id, h.titleOnce hcode hid, h.categoryKept hcode hid⟩

def sorted : PluginCode (Site Nat) :=
  { entitled with category := fun _ => return .ok (some "tools") }

theorem categorized_remembers :
    let env := Site.environment sorted
    let w := run env (attached ++ [.entry 0 .category]) { outside := ⟨{}, ⟨"", []⟩, 0⟩ }
    let p := Component.plugin (.made "f" 0)
    w.eventsOf 0 = [.create "f", .activate (.made "f" 0), .activated (.made "f" 0), .acquired p,
        .title p, .init p ⟨0, ⟨"x", []⟩⟩ ⟨"A", ⟨"x", []⟩, none⟩, .category p] ∧
      ∀ more, title env 0 (run env more w) = ("A", run env more w) ∧
        category env 0 (run env more w) = (some "tools", run env more w) := by
  have hspares : sorted.Spares fun _ : Site Nat => () := by
    constructor <;> intros <;> exact Act.Spares.pure _
  -- The run is evaluated while it still stands in full.
  have hevents : (run (Site.environment sorted) (attached ++ [.entry 0 .category])
      { outside := ⟨{}, ⟨"", []⟩, 0⟩ }).eventsOf 0 = [.create "f", .activate (.made "f" 0),
        .activated (.made "f" 0), .acquired (.plugin (.made "f" 0)),
        .title (.plugin (.made "f" 0)),
        .init (.plugin (.made "f" 0)) ⟨0, ⟨"x", []⟩⟩ ⟨"A", ⟨"x", []⟩, none⟩,
        .category (.plugin (.made "f" 0))] := rfl
  intro env w p
  have hid : 0 < w.entries.length := by decide +kernel
  obtain ⟨-, htitle, hcategory⟩ := run_remembers hspares _ _ 0 hid
  have hname : (w.entry 0).title = .resolved "A" := by decide +kernel
  have hsort : (w.entry 0).category = .resolved "tools" := by decide +kernel
  refine ⟨hevents, fun more => ⟨?_, ?_⟩⟩
  · have hever := htitle.ever more
    rw [(htitle.found "A" hname).1] at hever
    dsimp only at hever
    exact hever
  · have hgiven := (hcategory.found "tools" hsort).1
    have hever := hcategory.ever "tools" (congrArg Prod.fst hgiven) more
    rw [hgiven] at hever
    dsimp only at hever
    exact hever

end Registry

end PluginConsole
