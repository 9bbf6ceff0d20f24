import PluginConsole.Proofs.Registry.Offer
import PluginConsole.Proofs.Registry.Respect
import PluginConsole.Proofs.Registry.Tidy

/-!
# Who holds a label

What stands behind a label is its registration. Components may come and go, with code that
calls back, and none of it matters as long as that code leaves the registrations alone.
-/

namespace PluginConsole

namespace Source

def rank : Source → Int
  | .directory r => r.ranking
  | .direct .. => 0

def sequenceId : Source → Nat
  | .directory r => r.id
  | .direct .. => 0

/-- Whether a newcomer takes a label from its holder. -/
def beats (newcomer holder : Source) : Bool :=
  newcomer.sequenceId ≠ holder.sequenceId &&
    (holder.rank < newcomer.rank ||
      (newcomer.rank = holder.rank && newcomer.sequenceId < holder.sequenceId))

theorem beats_iff {newcomer holder : Source} : newcomer.beats holder = true ↔
    newcomer.sequenceId ≠ holder.sequenceId ∧ (holder.rank < newcomer.rank ∨
      (newcomer.rank = holder.rank ∧ newcomer.sequenceId < holder.sequenceId)) := by
  simp [beats]

def contest (newcomer : Source) : Option Source → Source
  | none => newcomer
  | some holder => if newcomer.beats holder then newcomer else holder

end Source

namespace Registry

open Lifecycle

variable {σ δ : Type} {env : Environment σ} {view : σ → δ} {w w' w'' : World σ}

def held (w : World σ) (label : String) : Option Source :=
  (w.table.lookup label).map fun id => (w.entry id).source

theorem standing_eq_held (w : World σ) (label : String) :
    standing w label = (held w label).map fun s => (s.rank, s.sequenceId) := by
  unfold standing held
  rw [Option.map_map]
  rfl

/-! ## What leaves the registrations alone -/

/-- The labels lead where they led, and what was registered stays what it was. -/
structure Undisturbed (w w' : World σ) : Prop where
  table : w'.table = w.table
  length : w.entries.length ≤ w'.entries.length
  label : ∀ id < w.entries.length, (w'.entry id).label = (w.entry id).label
  source : ∀ id < w.entries.length, (w'.entry id).source = (w.entry id).source

namespace Undisturbed

theorem refl (w : World σ) : Undisturbed w w :=
  ⟨rfl, Nat.le_refl _, fun _ _ => rfl, fun _ _ => rfl⟩

theorem trans (h : Undisturbed w w') (h' : Undisturbed w' w'') : Undisturbed w w'' where
  table := h'.table.trans h.table
  length := h.length.trans h'.length
  label id hid := (h'.label id (hid.trans_le h.length)).trans (h.label id hid)
  source id hid := (h'.source id (hid.trans_le h.length)).trans (h.source id hid)

theorem modifyEntry (id : EntryId) {f : Entry → Entry} (hlabel : ∀ e, (f e).label = e.label)
    (hsource : ∀ e, (f e).source = e.source) (w : World σ) :
    Undisturbed w (w.modifyEntry id f) := by
  have hentry (other : EntryId) : ((w.modifyEntry id f).entry other).label = (w.entry other).label ∧
      ((w.modifyEntry id f).entry other).source = (w.entry other).source := by
    by_cases ho : other = id
    · rw [ho]
      rcases World.entry_modifyEntry_cases id f w with he | he <;> rw [he]
      · exact ⟨hlabel _, hsource _⟩
      · exact ⟨rfl, rfl⟩
    · rw [World.entry_modifyEntry_of_ne ho]
      exact ⟨rfl, rfl⟩
  exact ⟨rfl, (World.length_modifyEntry id f w).ge, fun other _ => (hentry other).1,
    fun other _ => (hentry other).2⟩

theorem filed (h : Undisturbed w w') (hfiled : Filed w) : Filed w' := by
  constructor <;> rw [h.table]
  · exact hfiled.sorted
  · intro label id hmem
    obtain ⟨hid, hlabel⟩ := hfiled.filed label id hmem
    exact ⟨hid.trans_le h.length, (h.label id hid).trans hlabel⟩

theorem held_eq (h : Undisturbed w w') (hranged : Ranged w) : held w' = held w := by
  funext label
  unfold held
  rw [h.table]
  cases hlookup : w.table.lookup label with
  | none => rfl
  | some id => rw [Option.map_some, Option.map_some, h.source id (hranged.lookup hlookup)]

end Undisturbed

theorem respected_undisturbed (hcode : env.code.Respects Undisturbed) :
    Respected env Undisturbed where
  refl := .refl
  trans h h' := h.trans h'
  code := hcode
  aside _ _ _ := ⟨rfl, Nat.le_refl _, fun _ _ => rfl, fun _ _ => rfl⟩
  records _ _ _ _ := ⟨rfl, Nat.le_refl _, fun _ _ => rfl, fun _ _ => rfl⟩
  destroys _ _ _ := ⟨rfl, Nat.le_refl _, fun _ _ => rfl, fun _ _ => rfl⟩
  count _ := ⟨rfl, Nat.le_refl _, fun _ _ => rfl, fun _ _ => rfl⟩
  write w id _ hlabel hsource := .modifyEntry id hlabel hsource w
  getService _ _ := ⟨rfl, Nat.le_refl _, fun _ _ => rfl, fun _ _ => rfl⟩
  releaseService _ _ := ⟨rfl, Nat.le_refl _, fun _ _ => rfl, fun _ _ => rfl⟩

theorem Visits.undisturbed {ids : List EntryId} (h : Visits env view ids w w') :
    Undisturbed w w' :=
  ⟨h.kept.table, h.grown.length, h.grown.label, h.grown.source⟩

/-! ## Asking for a label -/

theorem beats_standing (w : World σ) (label : String) (source : Source) :
    (standing w label).all ({ label, source } : Entry).offer.beats =
      (held w label).all source.beats := by
  rw [standing_eq_held, Option.all_map]
  rfl

theorem held_joined (hranged : Ranged w) (label : String) (source : Source) (other : String) :
    held (joined label source w) other =
      if other = label then some (source.contest (held w label)) else held w other := by
  refine (map_lookup_joined hranged label source other Entry.source).trans ?_
  rw [beats_standing]
  by_cases hlabel : other = label
  · subst hlabel
    simp only [true_and, if_true]
    change (if _ then _ else held w other) = _
    unfold Source.contest
    cases held w other with
    | none => rfl
    | some holder =>
      rw [Option.all_some]
      exact (apply_ite some _ _ _).symm
  · rw [if_neg hlabel, if_neg fun h => hlabel h.1]
    rfl

theorem filed_joined (hfiled : Filed w) (label : String) (source : Source) :
    Filed (joined label source w) := by
  have hentered : Filed (w.entered { label, source }) :=
    Filed.grown (grown_entered w _) hfiled.sorted hfiled.filed
  have hnew : w.entries.length < (w.entered { label, source }).entries.length := by
    rw [World.length_entered]
    exact Nat.lt_succ_self _
  exact filed_contested hnew hentered

theorem Joins.filed {label : String} {source : Source} (h : Joins env view label source w w')
    (hfiled : Filed w) : Filed w' := by
  have hsame : Undisturbed (joined label source w) w' := h.visits.undisturbed
  exact hsame.filed (filed_joined hfiled label source)

/-! ## Losing a label -/

theorem filed_erased (hfiled : Filed w) (label : String) :
    Filed { w with table := Dict.erase label w.table } :=
  ⟨Dict.sorted_erase label hfiled.sorted,
    fun other id hmem => hfiled.filed other id (Dict.mem_erase.mp hmem).2⟩

theorem Leaves.filed {label : String} (h : Leaves env view label w w') (hfiled : Filed w) :
    Filed w' := by
  have hsame : Undisturbed { w with table := Dict.erase label w.table } w' := h.visits.undisturbed
  exact hsame.filed (filed_erased hfiled label)

theorem filed_emptied (w : World σ) : Filed { w with table := [] } :=
  ⟨Dict.sorted_nil, fun _ _ hmem => absurd hmem List.not_mem_nil⟩

theorem Changes.filed {own : σ → σ → Prop} {admits : Source → Prop}
    (h : Changes env view own admits w w') (hfiled : Filed w) : Filed w' := by
  induction h with
  | refl => exact hfiled
  | tail _ hstep ih =>
    cases hstep with
    | visits h => exact h.undisturbed.filed ih
    | joins _ h => exact h.filed ih
    | leaves h => exact h.filed ih
    | empties h => exact h.undisturbed.filed (filed_emptied _)
    | settings | outside => exact ⟨ih.sorted, ih.filed⟩

theorem held_erased (w : World σ) (label other : String) :
    held { w with table := Dict.erase label w.table } other =
      if other = label then none else held w other := by
  unfold held
  split
  · rename_i hsame
    rw [hsame, Dict.lookup_erase_self]
    rfl
  · rename_i hother
    rw [Dict.lookup_erase_of_ne hother]
    rfl

theorem owned_of_heldLabel (hfiled : Filed w) {r : Reference} {label : String}
    (h : heldLabel w r = some label) :
    ∃ now, held w label = some (.directory now) ∧ now.id = r.id := by
  obtain ⟨id, hmem, howned⟩ := entry_of_heldLabel h
  unfold held
  rw [hfiled.lookup.mp hmem, Option.map_some]
  unfold Entry.ownedBy Entry.kind Entry.sequenceId at howned
  cases hsource : (w.entry id).source with
  | directory now =>
    rw [hsource] at howned
    exact ⟨now, rfl, by simpa [Source.kind] using howned⟩
  | direct =>
    rw [hsource] at howned
    simp [Source.kind] at howned

theorem heldLabel_of_owned (r : Reference) {label : String} {now : Reference}
    (h : held w label = some (.directory now)) (hid : now.id = r.id) :
    ∃ other, heldLabel w r = some other := by
  cases hheld : heldLabel w r with
  | some other => exact ⟨other, rfl⟩
  | none =>
    obtain ⟨id, hlookup, hsource⟩ := Option.map_eq_some_iff.mp h
    have hserves : Serves id r.id w := by
      refine ⟨mem_snapshot_of_lookup hlookup, ?_⟩
      simp [Entry.ownedBy, Entry.kind, Entry.sequenceId, hsource, Source.kind, hid]
    exact absurd hserves (not_serves_of_heldLabel hheld id)

end Registry

end PluginConsole
