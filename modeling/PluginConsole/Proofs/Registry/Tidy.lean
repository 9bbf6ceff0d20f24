import Mathlib.Data.List.Nodup
import PluginConsole.Proofs.Registry.Operation

/-!
# A tidy registry

The labels are in order, every label leads to an entry of that label, and an entry that no
label leads to is over. Every change keeps this.
-/

open Relation (ReflTransGen)

namespace PluginConsole.Registry

open Lifecycle

variable {σ δ : Type} {env : Environment σ} {view : σ → δ} {own : σ → σ → Prop}
variable {admits : Source → Prop} {ids : List EntryId} {w w' : World σ}

/-- The labels are in order, and each leads to an entry of its own. -/
structure Filed (w : World σ) : Prop where
  sorted : Dict.Sorted w.table
  filed : ∀ label id, (label, id) ∈ w.table →
    id < w.entries.length ∧ (w.entry id).label = label

structure Tidy (w : World σ) : Prop extends Filed w where
  settled : ∀ id < w.entries.length, id ∈ snapshot w ∨ Over id w

theorem mem_snapshot {id : EntryId} : id ∈ snapshot w ↔ ∃ label, (label, id) ∈ w.table := by
  simp [snapshot]

theorem Filed.ranged (h : Filed w) : Ranged w := by
  intro id hmem
  obtain ⟨label, hentry⟩ := mem_snapshot.mp hmem
  exact (h.filed label id hentry).1

theorem Filed.lookup (h : Filed w) {label : String} {id : EntryId} :
    (label, id) ∈ w.table ↔ w.table.lookup label = some id :=
  Dict.mem_iff_lookup h.sorted

theorem Filed.snapshot_nodup (h : Filed w) : (snapshot w).Nodup := by
  unfold snapshot
  refine List.Nodup.map_on ?_ (h.sorted.imp fun hlt => ?_)
  · rintro ⟨a, id⟩ ha ⟨b, _⟩ hb rfl
    rw [← (h.filed a id ha).2, ← (h.filed b id hb).2]
  · rintro rfl
    exact lt_irrefl _ hlt

theorem tidy_fresh (s : σ) : Tidy ({ outside := s } : World σ) where
  sorted := Dict.sorted_nil
  filed _ _ hmem := absurd hmem List.not_mem_nil
  settled _ hid := absurd hid (Nat.not_lt_zero _)

theorem Filed.grown (hgrown : Grown w w') (hsorted : Dict.Sorted w'.table)
    (hfiled : ∀ label id, (label, id) ∈ w'.table →
      id < w.entries.length ∧ (w.entry id).label = label) : Filed w' := by
  refine ⟨hsorted, fun label id hmem => ?_⟩
  obtain ⟨hid, hlabel⟩ := hfiled label id hmem
  exact ⟨hid.trans_le hgrown.length, (hgrown.label id hid).trans hlabel⟩

/-! ## Nothing new -/

theorem Visits.shrunk {table : Dict EntryId} (h : Visits env view ids { w with table } w')
    (htidy : Tidy w) (hsorted : Dict.Sorted table)
    (hold : ∀ label id, (label, id) ∈ table → (label, id) ∈ w.table)
    (hgone : ∀ label id, (label, id) ∈ w.table → (label, id) ∈ table ∨ Over id w') :
    Tidy w' := by
  have htable : w'.table = table := h.kept.table
  have hlength : w'.entries.length = w.entries.length := h.kept.length
  have hgrown : Grown w w' := h.grown.ofSame rfl rfl
  have hfiled : Filed w' := by
    refine Filed.grown hgrown ?_ ?_ <;> rw [htable]
    · exact hsorted
    · exact fun label id hmem => htidy.filed label id (hold label id hmem)
  refine ⟨hfiled, fun id hid => ?_⟩
  rw [hlength] at hid
  rw [mem_snapshot, htable]
  rcases htidy.settled id hid with hmem | hover
  · obtain ⟨label, hentry⟩ := mem_snapshot.mp hmem
    exact (hgone label id hentry).imp_left fun hstays => ⟨label, hstays⟩
  · exact Or.inr (hgrown.ended id hid hover).1

theorem Visits.tidy (h : Visits env view ids w w') (htidy : Tidy w) : Tidy w' :=
  Visits.shrunk h htidy htidy.sorted (fun _ _ hmem => hmem) fun _ _ hmem => Or.inl hmem

/-! ## Contests -/

theorem sorted_contested (id : EntryId) (h : Dict.Sorted w.table) :
    Dict.Sorted (contested id w) := by
  unfold contested
  split
  · exact Dict.sorted_insert _ _ h
  · exact h

theorem mem_contested {id other : EntryId} {label : String} (h : Dict.Sorted w.table) :
    (label, other) ∈ contested id w ↔
      (wins id w = true ∧ label = (w.entry id).label ∧ other = id) ∨
        ((wins id w = false ∨ label ≠ (w.entry id).label) ∧ (label, other) ∈ w.table) := by
  unfold contested
  cases hwins : wins id w with
  | false => simp
  | true => simp [Dict.mem_insert h]

theorem loser_of_lost {id : EntryId} (h : wins id w = false) : loser id w = some id := by
  unfold loser
  rw [h]
  unfold wins at h
  split at h
  · cases h
  · rename_i holder hheld
    simp [hheld]

theorem loser_of_won {id holder : EntryId} (h : wins id w = true)
    (hheld : w.table.lookup (w.entry id).label = some holder) : loser id w = some holder := by
  simp [loser, hheld, h]

theorem Contest.grown {id : EntryId} (h : Contest env view id w w') : Grown w w' :=
  h.visits.grown.ofSame rfl rfl

theorem filed_contested {id : EntryId} (hid : id < w.entries.length) (hfiled : Filed w) :
    Filed { w with table := contested id w } := by
  refine ⟨sorted_contested id hfiled.sorted, fun label other hmem => ?_⟩
  rcases (mem_contested hfiled.sorted).mp hmem with ⟨-, rfl, rfl⟩ | ⟨-, hmem⟩
  · exact ⟨hid, rfl⟩
  · exact hfiled.filed label other hmem

theorem Contest.filed {id : EntryId} (h : Contest env view id w w')
    (hid : id < w.entries.length) (hfiled : Filed w) : Filed w' := by
  have htable : w'.table = contested id w := h.visits.kept.table
  have hcontested := filed_contested hid hfiled
  refine Filed.grown h.grown ?_ ?_ <;> rw [htable]
  · exact hcontested.sorted
  · exact hcontested.filed

/-- The newcomer gets the label or is disposed, and so is a holder that loses it. -/
theorem Contest.tidy {id : EntryId} (h : Contest env view id w w') (hid : id < w.entries.length)
    (hfiled : Filed w)
    (hsettled : ∀ other < w.entries.length, other ≠ id → other ∈ snapshot w ∨ Over other w) :
    Tidy w' := by
  have htable : w'.table = contested id w := h.visits.kept.table
  refine ⟨h.filed hid hfiled, fun other hother => ?_⟩
  have hlength : w'.entries.length = w.entries.length := h.visits.kept.length
  rw [hlength] at hother
  rw [mem_snapshot, htable]
  by_cases ho : other = id
  · subst ho
    cases hwins : wins other w with
    | true => exact Or.inl ⟨_, (mem_contested hfiled.sorted).mpr (Or.inl ⟨hwins, rfl, rfl⟩)⟩
    | false => exact Or.inr (h.ended other (loser_of_lost hwins))
  rcases hsettled other hother ho with hmem | hover
  · obtain ⟨label, hentry⟩ := mem_snapshot.mp hmem
    by_cases hstays : wins id w = false ∨ label ≠ (w.entry id).label
    · exact Or.inl ⟨label, (mem_contested hfiled.sorted).mpr (Or.inr ⟨hstays, hentry⟩)⟩
    · obtain ⟨hwins, hlabel⟩ := not_or.mp hstays
      rw [not_not.mp hlabel, hfiled.lookup] at hentry
      exact Or.inr (h.ended other (loser_of_won (by simpa using hwins) hentry))
  · exact Or.inr (h.grown.ended other hother hover).1

theorem Joins.tidy {label : String} {source : Source} (h : Joins env view label source w w')
    (htidy : Tidy w) : Tidy w' := by
  have hgrown := grown_entered w { label, source }
  refine Contest.tidy h ?_ (Filed.grown hgrown htidy.sorted htidy.filed) fun id hid hne => ?_
  · rw [World.length_entered]
    exact Nat.lt_succ_self _
  · rw [World.length_entered] at hid
    have hold : id < w.entries.length := by omega
    exact (htidy.settled id hold).imp_right fun hover => (hgrown.ended id hold hover).1

/-! ## Removal -/

theorem Leaves.tidy {label : String} (h : Leaves env view label w w') (htidy : Tidy w) :
    Tidy w' := by
  refine h.visits.shrunk htidy (Dict.sorted_erase label htidy.sorted) ?_ fun other id hentry => ?_
  · exact fun other id hmem => (Dict.mem_erase.mp hmem).2
  by_cases hlabel : other = label
  · rw [hlabel, htidy.lookup] at hentry
    exact Or.inr (h.ended id hentry)
  · exact Or.inl (Dict.mem_erase.mpr ⟨hlabel, hentry⟩)

theorem Change.tidy (h : Change env view own admits w w') (htidy : Tidy w) : Tidy w' := by
  cases h with
  | visits h => exact h.tidy htidy
  | joins _ h => exact h.tidy htidy
  | leaves h => exact h.tidy htidy
  | empties h hover =>
    refine Visits.shrunk h htidy Dict.sorted_nil (fun _ _ hmem => absurd hmem List.not_mem_nil) ?_
    exact fun label id hentry => Or.inr (hover id (mem_snapshot.mpr ⟨label, hentry⟩))
  | settings | outside =>
    exact ⟨⟨htidy.sorted, htidy.filed⟩, fun id hid => (htidy.settled id hid).imp_right
      fun hover => ⟨hover.disposed, hover.cold⟩⟩

theorem Changes.tidy (h : Changes env view own admits w w') (htidy : Tidy w) : Tidy w' := by
  induction h with
  | refl => exact htidy
  | tail _ hstep ih => exact hstep.tidy ih

end PluginConsole.Registry
