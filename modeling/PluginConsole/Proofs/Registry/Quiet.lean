import PluginConsole.Proofs.Registry.Attend
import PluginConsole.Proofs.Registry.Holder

/-!
# Entries at rest

Between two operations no text of an entry is being found, no entry in the table is disposed, and
none of them is marked as broken while it has a component.
-/

namespace PluginConsole

namespace Entry

structure AtRest (e : Entry) : Prop where
  live : e.disposed = false
  title : e.title ≠ .inFlight
  category : e.category ≠ .inFlight
  whole : e.warm.isSome → e.broken = false
  /-- A category that is not announced was given by the component. -/
  known : ∀ c, e.category = .resolved c →
    (e.source.property Property.category).isSome ∨ e.warm.isSome

variable {context : Option ContextRef} {allows : Bool → Prop} {e e' : Entry}

theorem Slot.whole {disposed : Bool} {warm warm' : Option Warm} {broken broken' : Bool}
    (h : Slot context allows disposed warm broken warm' broken')
    (hwhole : warm.isSome → broken = false) : warm'.isSome → broken' = false := by
  cases h with
  | same => exact hwhole
  | missed => intro h; cases h
  | found => exact fun _ => rfl
  | bound => exact fun _ => hwhole rfl

namespace AtRest

theorem fresh (label : String) (source : Source) : AtRest { label, source } :=
  ⟨rfl, by simp, by simp, by simp, by simp⟩

theorem consulted (h : AtRest e) (hconsulted : Consulted context allows e e') : AtRest e' where
  live := hconsulted.disposed.trans h.live
  title := hconsulted.title.not_inFlight h.title
  category := by
    rcases hconsulted.category with hsame | ⟨-, c, hc, -⟩
    · rw [hsame]
      exact h.category
    · rw [hc]
      simp
  whole := hconsulted.slot.whole h.whole
  known c hc := by
    rw [hconsulted.source]
    rcases hconsulted.category with hsame | ⟨-, -, -, hfrom⟩
    · rw [hsame] at hc
      exact (h.known c hc).imp_right hconsulted.slot.isSome
    · exact hfrom

theorem rebound (h : AtRest e) {g : Warm → Warm} {t : Cached} (ht : Retold e.title t) :
    AtRest { e with title := t, warm := e.warm.map g } where
  live := h.live
  title := ht.not_inFlight h.title
  category := h.category
  whole hwarm := h.whole (by simpa using hwarm)
  known c hc := by simpa using h.known c hc

theorem attached {ref : ContextRef} (h : AtRest e) (hattached : Attached ref e e') : AtRest e' := by
  obtain ⟨t, ht, rfl⟩ := hattached
  exact h.rebound ht

theorem detached (h : AtRest e) (hdetached : Detached e e') : AtRest e' := by
  cases hdetached
  exact h.rebound (.refl e.title)

end AtRest

end Entry

namespace Registry

open Act Lifecycle

variable {σ δ : Type} {env : Environment σ} {view : σ → δ} {own : σ → σ → Prop}
variable {admits : Source → Prop} {w w' : World σ} {id : EntryId}

/-- Every label leads to an entry at rest. -/
structure Quiet (w : World σ) : Prop extends Filed w where
  rest : ∀ id ∈ snapshot w, (w.entry id).AtRest

theorem quiet_fresh (s : σ) : Quiet ({ outside := s } : World σ) where
  sorted := Dict.sorted_nil
  filed _ _ hmem := absurd hmem List.not_mem_nil
  rest _ hmem := absurd hmem List.not_mem_nil

theorem Quiet.undisturbed (h : Quiet w) (hsame : Undisturbed w w')
    (hrest : ∀ id ∈ snapshot w, (w.entry id).AtRest → (w'.entry id).AtRest) : Quiet w' := by
  refine ⟨hsame.filed h.toFiled, fun id hmem => ?_⟩
  rw [snapshot_congr hsame.table] at hmem
  exact hrest id hmem (h.rest id hmem)

/-! ## Changes of the table -/

theorem loser_not_mem (hfiled : Filed w) (hnew : id ∉ snapshot w) {other : EntryId}
    (hloses : loser id w = some other) : other ∉ (contested id w).map Prod.snd := by
  intro hmem
  obtain ⟨⟨label, _⟩, hentry, rfl⟩ := List.mem_map.mp hmem
  rw [mem_contested hfiled.sorted] at hentry
  cases hwins : wins id w with
  | false =>
    rw [loser_of_lost hwins] at hloses
    cases hloses
    rcases hentry with ⟨htrue, -⟩ | ⟨-, hold⟩
    · rw [hwins] at htrue
      cases htrue
    · exact hnew (mem_snapshot.mpr ⟨label, hold⟩)
  | true =>
    obtain ⟨holder, hheld, hholder⟩ := Option.map_eq_some_iff.mp hloses
    rw [hwins, if_pos rfl] at hholder
    subst hholder
    rcases hentry with ⟨-, -, hself⟩ | ⟨hlost | hother, hold⟩
    · exact hnew (hself ▸ mem_snapshot_of_lookup hheld)
    · rw [hwins] at hlost
      cases hlost
    · have hlabel := (hfiled.filed label holder hold).2
      rw [← (hfiled.filed _ holder (hfiled.lookup.mpr hheld)).2] at hother
      exact hother hlabel.symm

theorem Joins.quiet {label : String} {source : Source} (h : Joins env view label source w w')
    (hquiet : Quiet w) : Quiet w' := by
  have hsame : Undisturbed (joined label source w) w' := h.visits.undisturbed
  have hfiled : Filed (w.entered { label, source }) :=
    Filed.grown (grown_entered w _) hquiet.sorted hquiet.filed
  have hnew : w.entries.length ∉ snapshot (w.entered { label, source }) :=
    fun hmem => Nat.lt_irrefl _ (hquiet.toFiled.ranged _ hmem)
  refine ⟨h.filed hquiet.toFiled, fun id hmem => ?_⟩
  have hlisted : id ∈ (contested w.entries.length (w.entered { label, source })).map Prod.snd := by
    rw [snapshot_congr hsame.table] at hmem
    exact hmem
  rw [Contest.untouched h fun hloses => loser_not_mem hfiled hnew hloses hlisted]
  rcases mem_snapshot_contested hlisted with rfl | hold
  · rw [World.entry_entered_self]
    exact .fresh label source
  · rw [World.entry_entered_of_lt (hquiet.toFiled.ranged id hold)]
    exact hquiet.rest id hold

theorem Leaves.quiet {label : String} (h : Leaves env view label w w') (hquiet : Quiet w) :
    Quiet w' := by
  have hsame : Undisturbed { w with table := Dict.erase label w.table } w' := h.visits.undisturbed
  refine ⟨h.filed hquiet.toFiled, fun id hmem => ?_⟩
  rw [snapshot_congr hsame.table] at hmem
  obtain ⟨⟨other, _⟩, hentry, rfl⟩ := List.mem_map.mp hmem
  obtain ⟨hne, hold⟩ := Dict.mem_erase.mp hentry
  rw [h.untouched fun hheld => ?_]
  · exact hquiet.rest _ (mem_snapshot.mpr ⟨other, hold⟩)
  · have hlabel := (hquiet.filed label _ (hquiet.toFiled.lookup.mpr hheld)).2
    exact hne ((hquiet.filed other _ hold).2.symm.trans hlabel)

theorem quiet_rearranged :
    Rearranged env view own admits fun w w' => Quiet w → Quiet w' where
  refl _ h := h
  trans h h' hquiet := h' (h hquiet)
  joins _ h hquiet := h.quiet hquiet
  leaves h hquiet := h.quiet hquiet
  empties {w w'} h _ hquiet := by
    have hsame : Undisturbed { w with table := [] } w' := h.undisturbed
    refine ⟨hsame.filed (filed_emptied w), fun id hmem => ?_⟩
    rw [snapshot_congr hsame.table] at hmem
    exact absurd hmem List.not_mem_nil
  arrange _ _ _ _ _ hquiet := ⟨⟨hquiet.sorted, hquiet.filed⟩, hquiet.rest⟩
  outside _ hquiet := ⟨⟨hquiet.sorted, hquiet.filed⟩, hquiet.rest⟩

/-! ## Queries and contexts -/

section Consulting

variable {R : World σ → World σ → Prop} {allows : World σ → Source → Bool → Prop}

theorem Consulting.undisturbed (h : Consulting R allows w w') : Undisturbed w w' :=
  ⟨h.kept.table, h.kept.length.ge, fun id _ => (h.consulted id).label,
    fun id _ => (h.consulted id).source⟩

theorem Consulting.quiet (h : Consulting R allows w w') (hquiet : Quiet w) : Quiet w' :=
  hquiet.undisturbed h.undisturbed fun id _ hrest => hrest.consulted (h.consulted id)

end Consulting

theorem Attended.undisturbed (h : Attended w w') : Undisturbed w w' :=
  (attended_iff.mp h).undisturbed

theorem Attended.quiet (h : Attended w w') (hquiet : Quiet w) : Quiet w' :=
  (attended_iff.mp h).quiet hquiet

theorem Throughout.quiet {F : Entry → Entry → Prop} {before : World σ}
    (h : Throughout F (snapshot w) before w') (hquiet : Quiet w)
    (hentries : before.entries = w.entries) (htable : before.table = w.table)
    (hF : ∀ e e', F e e' → e.AtRest → e'.AtRest ∧ e'.label = e.label ∧ e'.source = e.source) :
    Quiet w' := by
  have hentry := World.entry_congr hentries
  have hsame (id : EntryId) : (w'.entry id).label = (w.entry id).label ∧
      (w'.entry id).source = (w.entry id).source := by
    by_cases hmem : id ∈ snapshot w
    · have hinside := h.inside id hmem
      rw [hentry] at hinside
      exact (hF _ _ hinside (hquiet.rest id hmem)).2
    · rw [h.outside id hmem, hentry]
      exact ⟨rfl, rfl⟩
  refine hquiet.undisturbed ⟨h.kept.table.trans htable, ?_, fun id _ => (hsame id).1,
    fun id _ => (hsame id).2⟩ fun id hmem hrest => ?_
  · rw [h.kept.length, hentries]
  · have hinside := h.inside id hmem
    rw [hentry] at hinside
    exact (hF _ _ hinside hrest).1

theorem setContext_quiet (hcode : env.code.Spares view) (hquiet : Quiet w)
    (context : Option Context) : Ends (setContext env context) w fun _ w' => Quiet w' := by
  have hranged := hquiet.toFiled.ranged
  cases context with
  | some context =>
    refine (attach_throughout hcode hranged context).imp fun _ w' h => ?_
    refine h.quiet hquiet rfl rfl fun e e' hattached hrest => ⟨hrest.attached hattached, ?_⟩
    obtain ⟨t, -, rfl⟩ := hattached
    exact ⟨rfl, rfl⟩
  | none =>
    refine (detach_throughout hcode hranged).imp fun _ w' h => ?_
    refine h.quiet hquiet rfl rfl fun e e' hdetached hrest => ⟨hrest.detached hdetached, ?_⟩
    cases hdetached
    exact ⟨rfl, rfl⟩

theorem perform_quiet (hwithin : env.directory.Within own) (hcode : env.code.Spares view)
    (hquiet : Quiet w) (op : Operation σ) : Ends (perform env op) w fun _ w' => Quiet w' := by
  have hranged := hquiet.toFiled.ranged
  rcases op.kinds with harranges | hasks | ⟨context, rfl⟩
  · exact (quiet_rearranged.perform hwithin hcode hranged harranges fun _ h => h).imp
      fun _ _ h => h hquiet
  · exact (perform_attended hcode hranged hasks).imp fun _ _ h => h.quiet hquiet
  · exact setContext_quiet hcode hquiet context

end Registry

end PluginConsole
