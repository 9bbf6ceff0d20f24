import PluginConsole.Proofs.Registry.Ledger
import PluginConsole.Proofs.Registry.Withdrawal

/-!
# Retracting a service

A service that is retracted is looked for under the label that it announces, then under any label.
One entry of it goes, and nothing else.
-/

namespace PluginConsole.Registry

open Act Lifecycle

variable {σ δ : Type} {env : Environment σ} {view : σ → δ} {w w' : World σ} {r : Reference}
variable {label : String} {id : EntryId}

/-- No entry of the service is left, what went is over, and no entry of anybody else is touched. -/
structure Retracts (r : Reference) (w w' : World σ) : Prop where
  left : ∀ id, ¬ Serves id r.id w'
  gone : ∀ id ∈ snapshot w, id ∉ snapshot w' → Over id w'
  others : ∀ label id, (label, id) ∈ w.table → (w.entry id).ownedBy r.id = false →
    (label, id) ∈ w'.table ∧ w'.entry id = w.entry id ∧ w'.eventsOf id = w.eventsOf id

/-- A service holds the label that it announces. -/
def Announced (r : Reference) (label : String) (w : World σ) : Prop :=
  r.label = some label ∧ ∃ id, w.table.lookup label = some id ∧ (w.entry id).ownedBy r.id = true

theorem heldLabel_of_announced (h : Announced r label w) : heldLabel w r = some label := by
  obtain ⟨hlabel, id, hlookup, howned⟩ := h
  unfold heldLabel
  simp [hlabel, hlookup, howned]

/-! ## One entry goes -/

section Vacated

variable (hfiled : Filed w) (hmem : (label, id) ∈ w.table) (h : Vacates label id w w')
include hfiled hmem h

theorem Vacates.mem_table {other : String} {holder : EntryId} :
    (other, holder) ∈ w'.table ↔ (other, holder) ∈ w.table ∧ holder ≠ id := by
  rw [h.table, Dict.mem_erase]
  constructor
  · rintro ⟨hne, hother⟩
    refine ⟨hother, ?_⟩
    rintro rfl
    exact hne ((hfiled.filed other holder hother).2.symm.trans (hfiled.filed label holder hmem).2)
  · rintro ⟨hother, hne⟩
    refine ⟨?_, hother⟩
    rintro rfl
    have hsame := (hfiled.lookup.mp hother).symm.trans (hfiled.lookup.mp hmem)
    exact hne (Option.some.inj hsame)

theorem Vacates.mem_snapshot {other : EntryId} :
    other ∈ snapshot w' ↔ other ∈ snapshot w ∧ other ≠ id := by
  rw [Registry.mem_snapshot, Registry.mem_snapshot]
  simp only [h.mem_table hfiled hmem, exists_and_right]

theorem Vacates.serves {other : EntryId} {service : Nat} :
    Serves other service w' ↔ Serves other service w ∧ other ≠ id := by
  unfold Serves
  rw [h.mem_snapshot hfiled hmem]
  constructor
  · rintro ⟨⟨hlisted, hne⟩, howned⟩
    rw [(h.entries other hne).1] at howned
    exact ⟨⟨hlisted, howned⟩, hne⟩
  · rintro ⟨⟨hlisted, howned⟩, hne⟩
    rw [(h.entries other hne).1]
    exact ⟨⟨hlisted, hne⟩, howned⟩

/-- If the entry that goes is one of the service, the service is gone just if it had no other. -/
theorem Vacates.retracts_iff (howned : (w.entry id).ownedBy r.id = true) :
    Retracts r w w' ↔ ∀ a b, Serves a r.id w → Serves b r.id w → a = b := by
  have hserves : Serves id r.id w := ⟨Registry.mem_snapshot.mpr ⟨label, hmem⟩, howned⟩
  constructor
  · intro hretracts a b ha hb
    have hgone (c : EntryId) (hc : Serves c r.id w) : c = id := by
      by_contra hne
      exact hretracts.left c ((h.serves hfiled hmem).mpr ⟨hc, hne⟩)
    rw [hgone a ha, hgone b hb]
  · intro hone
    refine ⟨fun other hother => ?_, fun other hlisted hout => ?_,
      fun _ other hlisted hforeign => ?_⟩
    · obtain ⟨hbefore, hne⟩ := (h.serves hfiled hmem).mp hother
      exact hne (hone other id hbefore hserves)
    · by_cases ho : other = id
      · rw [ho]
        exact h.gone
      · exact absurd ((h.mem_snapshot hfiled hmem).mpr ⟨hlisted, ho⟩) hout
    · have hne : other ≠ id := by
        rintro rfl
        rw [howned] at hforeign
        cases hforeign
      exact ⟨(h.mem_table hfiled hmem).mpr ⟨hlisted, hne⟩, h.entries other hne⟩

end Vacated

theorem retracts_nothing (hnone : ∀ id, ¬ Serves id r.id w) : Retracts r w w where
  left := hnone
  gone _ hlisted hout := absurd hlisted hout
  others _ _ hlisted _ := ⟨hlisted, rfl, rfl⟩

theorem removeService_vacates (hcode : env.code.Spares view) (hfiled : Filed w) (r : Reference) :
    Ends (removeService env r) w fun _ w' =>
      (heldLabel w r = none ∧ w' = w) ∨ ∃ label id, heldLabel w r = some label ∧
        (label, id) ∈ w.table ∧ (w.entry id).ownedBy r.id = true ∧ Vacates label id w w' := by
  refine (removeService_spec hcode hfiled.ranged r).imp fun _ w' h => ?_
  unfold Dismisses at h
  cases hheld : heldLabel w r with
  | none =>
    rw [hheld] at h
    exact Or.inl ⟨rfl, h⟩
  | some label =>
    rw [hheld] at h
    obtain ⟨id, hmem, howned⟩ := entry_of_heldLabel hheld
    exact Or.inr ⟨label, id, rfl, hmem, howned, h.vacates (hfiled.lookup.mp hmem)⟩

/-! ## Runs that only file -/

theorem stilled_spares (env : Environment σ) (view : σ → δ) : (stilled env).code.Spares view := by
  have h : (PluginCode.still : PluginCode σ).Spares view := PluginCode.still_spares view
  exact ⟨h.create, h.activate, h.deactivate, h.title, h.category, h.init, h.destroy, h.observe⟩

theorem run_filed (s : σ) {ops : List (Operation σ)} (hfiles : ∀ op ∈ ops, op.Files) :
    Filed (run env (ops.map .registry) { outside := s }) := by
  rw [← (run_stilled s hfiles).1]
  have htidy : Tidy (run (stilled env) (ops.map .registry) { outside := s }) := by
    refine run_keeps Tidy ?_ (fun call hcall => List.mem_map.mp hcall) (tidy_fresh s)
    rintro w _ ⟨op, -, rfl⟩ htidy
    have hchanges : Ends (perform (stilled env) op) w fun _ w' =>
        Changes (stilled env) (fun _ => ()) (fun _ _ => True) op.Brings w w' :=
      perform_changes (stilled env).directory.within_any (stilled_spares env _)
        htidy.toFiled.ranged op op.calm_blind
    exact hchanges.imp fun _ _ h => Changes.tidy h htidy
  exact htidy.toFiled

/-- Entries are filed and removed in any order, under any labels and ids. A service that is
retracted then loses one of its entries, if it has any, and the one under the label that it
announces if there is one: this entry is over, and nothing else is touched. So no entry of it is
left just if it had no two. -/
theorem run_retracts (env : Environment σ) (s : σ) (ops : List (Operation σ))
    (hfiles : ∀ op ∈ ops, op.Files) (r : Reference) :
    let w := run env (ops.map .registry) { outside := s }
    let w' := (removeService env r w).2
    (Retracts r w w' ↔ ∀ a b, Serves a r.id w → Serves b r.id w → a = b) ∧
    ((∀ id, ¬ Serves id r.id w) → w' = w) ∧
    ((∃ id, Serves id r.id w) → ∃ label id, Serves id r.id w ∧ Vacates label id w w' ∧
      ∀ announced, Announced r announced w → label = announced) := by
  intro w w'
  have hfiled : Filed w := run_filed s hfiles
  have hcold : Cold w := (run_stilled s hfiles).2
  have hsame : (removeService (stilled env) r w).2 = w' :=
    congrArg Prod.snd (agree_removeService hcold r).1
  have hspec : (heldLabel w r = none ∧ w' = w) ∨ ∃ label id, heldLabel w r = some label ∧
      (label, id) ∈ w.table ∧ (w.entry id).ownedBy r.id = true ∧ Vacates label id w w' := by
    rw [← hsame]
    exact removeService_vacates (stilled_spares env fun _ => ()) hfiled r
  rcases hspec with ⟨hheld, hw'⟩ | ⟨label, id, hheld, hmem, howned, hvacates⟩
  · have hnone := not_serves_of_heldLabel hheld
    refine ⟨?_, fun _ => hw', fun ⟨id, hserves⟩ => absurd hserves (hnone id)⟩
    rw [hw']
    exact ⟨fun _ a _ ha => absurd ha (hnone a), fun _ => retracts_nothing hnone⟩
  · have hserves : Serves id r.id w := ⟨mem_snapshot.mpr ⟨label, hmem⟩, howned⟩
    refine ⟨hvacates.retracts_iff hfiled hmem howned, fun hnone => absurd hserves (hnone id),
      fun _ => ⟨label, id, hserves, hvacates, fun announced hannounced => ?_⟩⟩
    exact Option.some.inj (hheld.symm.trans (heldLabel_of_announced hannounced))

def announcedAs (label : String) : Reference :=
  .make 1 "m" [(Property.label, .text label)]

def neighbours : List (Operation (Site Unit)) :=
  [.addService (announcedAs "a"), .addDirect "p" "b",
    .addService (.make 2 "m" [(Property.label, .text "c")])]

theorem neighbours_retracts :
    let env : Environment (Site Unit) := Site.environment PluginCode.still
    let w := run env (neighbours.map .registry) { outside := ⟨{}, ⟨"", []⟩, ()⟩ }
    (∀ op ∈ neighbours, op.Files) ∧
      Retracts (announcedAs "b") w (removeService env (announcedAs "b") w).2 ∧
      ∃ label id, Serves id 1 w ∧ Vacates label id w (removeService env (announcedAs "b") w).2 := by
  intro env w
  have hfiles : ∀ op ∈ neighbours, op.Files := by
    simp [neighbours, Operation.Files]
  have hone : ∀ a ∈ snapshot w, (w.entry a).ownedBy 1 = true → a = 0 := by decide +kernel
  obtain ⟨hiff, -, hgoes⟩ := run_retracts env ⟨{}, ⟨"", []⟩, ()⟩ neighbours hfiles (announcedAs "b")
  refine ⟨hfiles, hiff.mpr fun a b ha hb => ?_, ?_⟩
  · rw [hone a ha.1 ha.2, hone b hb.1 hb.2]
  · have hserves : Serves 0 1 w := by
      unfold Serves
      decide +kernel
    obtain ⟨label, id, hid, hvacates, -⟩ := hgoes ⟨0, hserves⟩
    exact ⟨label, id, hid, hvacates⟩

/-- A service that was announced under two labels keeps the first when it is retracted. -/
theorem announcedTwice_not_retracts :
    let env : Environment (Site Unit) := Site.environment PluginCode.still
    let w := run env ([.addService (announcedAs "a"), .addService (announcedAs "b")].map .registry)
      { outside := ⟨{}, ⟨"", []⟩, ()⟩ }
    let w' := (removeService env (announcedAs "b") w).2
    Serves 0 1 w' ∧ ¬ Retracts (announcedAs "b") w w' := by
  intro env w w'
  have hserves : Serves 0 1 w' := by
    unfold Serves
    decide +kernel
  exact ⟨hserves, fun h => h.left 0 hserves⟩

end PluginConsole.Registry
