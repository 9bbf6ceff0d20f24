import PluginConsole.Proofs.Registry.Effect

/-!
# Who gets a label

Of all the entries that ask for a label, the one of the highest rank gets it, and among those
the one of the lowest id. The order in which they ask makes no difference.
-/

namespace PluginConsole

/-- A label that is asked for, with the rank and the id of who asks. -/
structure Offer where
  label : String
  rank : Int
  id : Nat
  deriving DecidableEq

def Entry.offer (e : Entry) : Offer :=
  ⟨e.label, e.rank, e.sequenceId⟩

def Reference.offer? (r : Reference) : Option Offer :=
  r.label.map fun label => ⟨label, r.ranking, r.id⟩

namespace Offer

variable {offers offers' : List Offer} {o : Offer} {label : String} {held : Option (Int × Nat)}

/-- On one label, one id comes with one rank. -/
def Coherent (offers : List Offer) : Prop :=
  ∀ a ∈ offers, ∀ b ∈ offers, a.label = b.label → a.id = b.id → a.rank = b.rank

/-- The rank and the id that all offers for a label come to. -/
def Best (offers : List Offer) (label : String) : Option (Int × Nat) → Prop
  | none => ∀ o ∈ offers, o.label ≠ label
  | some (rank, id) => ⟨label, rank, id⟩ ∈ offers ∧
    ∀ o ∈ offers, o.label = label → o.rank < rank ∨ (o.rank = rank ∧ id ≤ o.id)

theorem Coherent.subset (h : Coherent offers) (hsubset : ∀ o ∈ offers', o ∈ offers) :
    Coherent offers' := by
  intro a ha b hb
  exact h a (hsubset a ha) b (hsubset b hb)

/-- Only which offers there are counts, not their order and not how often they are made. -/
theorem Best.congr (h : Best offers label held) (hsame : ∀ o, o ∈ offers' ↔ o ∈ offers) :
    Best offers' label held := by
  cases held with
  | none => exact fun o ho => h o ((hsame o).mp ho)
  | some held =>
    obtain ⟨hmem, hbest⟩ := h
    exact ⟨(hsame _).mpr hmem, fun o ho => hbest o ((hsame o).mp ho)⟩

theorem Best.unique {held' : Option (Int × Nat)} (h : Best offers label held)
    (h' : Best offers label held') : held = held' := by
  cases held with
  | none =>
    cases held' with
    | none => rfl
    | some b => exact absurd rfl (h _ h'.1)
  | some a =>
    cases held' with
    | none => exact absurd rfl (h' _ h.1)
    | some b =>
      obtain ⟨hmem, hbest⟩ := h
      obtain ⟨hmem', hbest'⟩ := h'
      have hle := hbest _ hmem' rfl
      have hge := hbest' _ hmem rfl
      dsimp only at hle hge
      have hrank : a.1 = b.1 := by omega
      have hid : a.2 = b.2 := by omega
      rw [Prod.ext hrank hid]

def beats (o : Offer) (held : Int × Nat) : Bool :=
  o.id ≠ held.2 && (held.1 < o.rank || (o.rank = held.1 && o.id < held.2))

theorem beats_iff {held : Int × Nat} : o.beats held = true ↔
    o.id ≠ held.2 ∧ (held.1 < o.rank ∨ (o.rank = held.1 ∧ o.id < held.2)) := by
  simp [beats]

def settle (o : Offer) (held : Option (Int × Nat)) : Option (Int × Nat) :=
  if held.all o.beats then some (o.rank, o.id) else held

theorem best_other (h : Best offers label held) (hother : o.label ≠ label) :
    Best (offers ++ [o]) label held := by
  cases held with
  | none =>
    intro p hp
    rcases List.mem_append.mp hp with hp | hp
    · exact h p hp
    · rw [List.mem_singleton.mp hp]
      exact hother
  | some held =>
    obtain ⟨hmem, hbest⟩ := h
    refine ⟨List.mem_append_left _ hmem, fun p hp hlabel => ?_⟩
    rcases List.mem_append.mp hp with hp | hp
    · exact hbest p hp hlabel
    · rw [List.mem_singleton.mp hp] at hlabel
      exact absurd hlabel hother

theorem best_settle (h : Best offers o.label held) (hcoherent : Coherent (offers ++ [o])) :
    Best (offers ++ [o]) o.label (o.settle held) := by
  have hlast : o ∈ offers ++ [o] := List.mem_append_right _ (List.mem_singleton_self o)
  cases held with
  | none =>
    refine ⟨hlast, fun p hp hlabel => ?_⟩
    rcases List.mem_append.mp hp with hp | hp
    · exact absurd hlabel (h p hp)
    · rw [List.mem_singleton.mp hp]
      exact Or.inr ⟨rfl, Nat.le_refl _⟩
  | some held =>
    obtain ⟨rank, id⟩ := held
    obtain ⟨hmem, hbest⟩ := h
    -- An offer of the same id was made before, with the same rank.
    have hsame := hcoherent o hlast ⟨o.label, rank, id⟩ (List.mem_append_left _ hmem) rfl
    dsimp only at hsame
    unfold settle
    rw [Option.all_some]
    split
    · rename_i hbeats
      rw [beats_iff] at hbeats
      refine ⟨hlast, fun p hp hlabel => ?_⟩
      rcases List.mem_append.mp hp with hp | hp
      · have hle := hbest p hp hlabel
        omega
      · rw [List.mem_singleton.mp hp]
        exact Or.inr ⟨rfl, Nat.le_refl _⟩
    · rename_i hloses
      rw [beats_iff] at hloses
      refine ⟨List.mem_append_left _ hmem, fun p hp hlabel => ?_⟩
      rcases List.mem_append.mp hp with hp | hp
      · exact hbest p hp hlabel
      · rw [List.mem_singleton.mp hp]
        omega

end Offer

namespace Registry

variable {σ : Type} {w : World σ} {offers : List Offer}

/-- The rank and the id of the entry that has a label. -/
def standing (w : World σ) (label : String) : Option (Int × Nat) :=
  (w.table.lookup label).map fun id => ((w.entry id).rank, (w.entry id).sequenceId)

theorem compareRank_eq_gt {a b : Entry} :
    a.compareRank b = .gt ↔ a.offer.beats (b.rank, b.sequenceId) = true := by
  rw [Offer.beats_iff]
  unfold Entry.compareRank Entry.offer
  dsimp only
  split
  · simp only [reduceCtorEq, false_iff]
    omega
  split
  · simp only [reduceCtorEq, false_iff]
    omega
  split
  · simp only [true_iff]
    omega
  split
  · simp only [true_iff]
    omega
  · simp only [reduceCtorEq, false_iff]
    omega

theorem wins_entered (hranged : Ranged w) (e : Entry) :
    wins w.entries.length (w.entered e) = (standing w e.label).all e.offer.beats := by
  have htable : (w.entered e).table = w.table := rfl
  unfold wins standing
  rw [World.entry_entered_self, htable]
  cases hheld : w.table.lookup e.label with
  | none => rfl
  | some holder =>
    dsimp only
    rw [World.entry_entered_of_lt (hranged.lookup hheld), Option.map_some, Option.all_some,
      Bool.eq_iff_iff, decide_eq_true_iff, compareRank_eq_gt]

theorem table_joined (hranged : Ranged w) (label : String) (source : Source) :
    (joined label source w).table =
      if (standing w label).all ({ label, source } : Entry).offer.beats
      then Dict.insert label w.entries.length w.table else w.table := by
  have hwins := wins_entered hranged { label, source }
  show contested w.entries.length (w.entered { label, source }) = _
  unfold contested
  rw [hwins, World.entry_entered_self]
  rfl

theorem map_lookup_joined {α : Type} (hranged : Ranged w) (label : String) (source : Source)
    (other : String) (f : Entry → α) :
    ((joined label source w).table.lookup other).map
        (fun id => f ((joined label source w).entry id)) =
      if other = label ∧ (standing w label).all ({ label, source } : Entry).offer.beats = true
      then some (f { label, source })
      else (w.table.lookup other).map fun id => f (w.entry id) := by
  have hkept : (w.table.lookup other).map (fun id => f ((joined label source w).entry id)) =
      (w.table.lookup other).map fun id => f (w.entry id) := by
    refine Option.map_congr fun id hlookup => ?_
    have hold : (joined label source w).entry id = w.entry id :=
      World.entry_entered_of_lt (hranged.lookup hlookup) { label, source }
    rw [hold]
  rw [table_joined hranged]
  split
  · rename_i hwins
    rw [Dict.lookup_insert]
    split
    · rename_i hlabel
      have hnew : (joined label source w).entry w.entries.length = { label, source } :=
        World.entry_entered_self { label, source } w
      rw [if_pos ⟨hlabel, hwins⟩, Option.map_some, hnew]
    · rename_i hother
      rw [if_neg fun h => hother h.1, hkept]
  · rename_i hloses
    rw [if_neg fun h => hloses h.2, hkept]

theorem standing_joined (hranged : Ranged w) (label : String) (source : Source) (other : String) :
    standing (joined label source w) other =
      if other = label then ({ label, source } : Entry).offer.settle (standing w label)
      else standing w other := by
  refine (map_lookup_joined hranged label source other fun e => (e.rank, e.sequenceId)).trans ?_
  unfold Offer.settle
  by_cases hlabel : other = label
  · subst hlabel
    simp only [true_and, if_true]
    rfl
  · rw [if_neg hlabel, if_neg fun h => hlabel h.1]
    rfl

def Settled (offers : List Offer) (w : World σ) : Prop :=
  ∀ label, Offer.Best offers label (standing w label)

theorem settled_joined (hranged : Ranged w) (h : Settled offers w) {label : String}
    {source : Source}
    (hcoherent : Offer.Coherent (offers ++ [({ label, source } : Entry).offer])) :
    Settled (offers ++ [({ label, source } : Entry).offer]) (joined label source w) := by
  intro other
  rw [standing_joined hranged]
  split
  · rename_i hlabel
    rw [hlabel]
    exact Offer.best_settle (h label) hcoherent
  · rename_i hother
    exact Offer.best_other (h other) (Ne.symm hother)

theorem settled_enlisted (hranged : Ranged w) (h : Settled offers w) {r : Reference}
    (hcoherent : Offer.Coherent (offers ++ r.offer?.toList)) :
    Settled (offers ++ r.offer?.toList) (enlisted r w) := by
  unfold enlisted
  unfold Reference.offer? at *
  cases hlabel : r.label with
  | none =>
    rw [Option.map_none, Option.toList_none, List.append_nil]
    exact h
  | some label =>
    rw [hlabel] at hcoherent
    exact settled_joined hranged h hcoherent

theorem settled_enlistedAll {references : List Reference} (hranged : Ranged w)
    (h : Settled offers w)
    (hcoherent : Offer.Coherent (offers ++ references.filterMap (·.offer?))) :
    Settled (offers ++ references.filterMap (·.offer?)) (enlistedAll references w) := by
  induction references generalizing w offers with
  | nil =>
    rw [List.filterMap_nil, List.append_nil]
    exact h
  | cons r rest ih =>
    have hsplit : offers ++ (r :: rest).filterMap (·.offer?) =
        (offers ++ r.offer?.toList) ++ rest.filterMap (·.offer?) := by
      rw [List.filterMap_cons, List.append_assoc]
      cases r.offer? with
      | none => rfl
      | some o => rfl
    rw [hsplit] at hcoherent ⊢
    have hfirst : Offer.Coherent (offers ++ r.offer?.toList) :=
      hcoherent.subset fun o ho => List.mem_append_left _ ho
    exact ih (ranged_enlisted hranged r) (settled_enlisted hranged h hfirst) hcoherent

end Registry

end PluginConsole
