import Mathlib.Data.Finset.Card
import PluginConsole.Proofs.Registry.Step
import PluginConsole.Proofs.Site.Action

/-!
# Holds on services

Every warm entry of a service has one hold on it, and nobody else has any. So a hold is
never given back that was not taken.
-/

open Relation (ReflTransGen)

namespace PluginConsole.Site

open Act Registry Lifecycle

variable {π σ : Type}

/-! ## Who holds a service -/

def holders (service : Nat) (w : World σ) : Finset EntryId :=
  (Finset.range w.entries.length).filter fun id =>
    (w.entry id).isWarm = true ∧ (w.entry id).ownedBy service = true

theorem mem_holders {service : Nat} {id : EntryId} {w : World σ} :
    id ∈ holders service w ↔ id < w.entries.length ∧ (w.entry id).isWarm = true ∧
      (w.entry id).ownedBy service = true := by
  simp [holders]

theorem ownedBy_iff {e : Entry} {service : Nat} :
    e.ownedBy service = true ↔ ∃ r, e.source = .directory r ∧ r.id = service := by
  obtain ⟨label, source⟩ := e
  cases source with
  | directory r => simp [Entry.ownedBy, Entry.kind, Source.kind, Entry.sequenceId]
  | direct factory known => simp [Entry.ownedBy, Entry.kind, Source.kind]

theorem ownedBy_of_source {a b : Entry} (h : b.source = a.source) (service : Nat) :
    b.ownedBy service = a.ownedBy service := by
  rw [Bool.eq_iff_iff, ownedBy_iff, ownedBy_iff, h]

/-- Only one entry differs, and not in what it was registered as. -/
structure Beside (id : EntryId) (w w' : World σ) : Prop where
  length : w'.entries.length = w.entries.length
  others : ∀ other, other ≠ id → w'.entry other = w.entry other
  source : (w'.entry id).source = (w.entry id).source

theorem Beside.symm {id : EntryId} {w w' : World σ} (h : Beside id w w') : Beside id w' w :=
  ⟨h.length.symm, fun other ho => (h.others other ho).symm, h.source.symm⟩

theorem Beside.trans {id : EntryId} {w w' w'' : World σ} (h : Beside id w w')
    (h' : Beside id w' w'') : Beside id w w'' :=
  ⟨h'.length.trans h.length, fun other ho => (h'.others other ho).trans (h.others other ho),
    h'.source.trans h.source⟩

theorem beside_of_frame {id : EntryId} {w w' : World σ} (h : Frame id w w') : Beside id w w' :=
  ⟨h.length, h.others, h.source⟩

section Beside

variable {w w' : World σ} {id : EntryId} (hbeside : Beside id w w')
include hbeside

theorem mem_holders_of_ne {other : EntryId} (h : other ≠ id) (service : Nat) :
    other ∈ holders service w' ↔ other ∈ holders service w := by
  rw [mem_holders, mem_holders, hbeside.length, hbeside.others other h]

/-- An entry that is as warm as before, or that holds no service, is no holder more or less. -/
theorem holders_beside (hsame : (w'.entry id).isWarm = (w.entry id).isWarm ∨
    ∃ factory known, (w.entry id).source = .direct factory known) (service : Nat) :
    holders service w' = holders service w := by
  ext other
  by_cases ho : other = id
  · subst ho
    rw [mem_holders, mem_holders, hbeside.length, ownedBy_of_source hbeside.source]
    rcases hsame with hsame | ⟨factory, known, hsource⟩
    · rw [hsame]
    · have hnone : (w.entry other).ownedBy service = false := by
        rw [Bool.eq_false_iff]
        intro howned
        obtain ⟨r, hr, -⟩ := ownedBy_iff.mp howned
        rw [hsource] at hr
        cases hr
      simp [hnone]
  · exact mem_holders_of_ne hbeside ho service

theorem holders_warmed (hid : id < w.entries.length) {r : Reference}
    (hsource : (w.entry id).source = .directory r) (hcold : (w.entry id).isWarm = false)
    (hwarm : (w'.entry id).isWarm = true) (service : Nat) :
    id ∉ holders service w ∧
      holders service w' =
        if service = r.id then insert id (holders service w) else holders service w := by
  refine ⟨fun hmem => ?_, ?_⟩
  · rw [mem_holders, hcold] at hmem
    cases hmem.2.1
  have howned : (w'.entry id).ownedBy service = true ↔ service = r.id := by
    rw [ownedBy_iff, hbeside.source, hsource]
    simp [eq_comm]
  ext other
  by_cases ho : other = id
  · subst ho
    have hmem : other ∈ holders service w' ↔ service = r.id := by
      rw [mem_holders, hbeside.length, howned]
      simp [hid, hwarm]
    have hnot : other ∉ holders service w := fun h => by
      rw [mem_holders, hcold] at h
      cases h.2.1
    rw [hmem]
    split
    · rename_i hservice
      simp [hservice]
    · rename_i hservice
      simp [hservice, hnot]
  · rw [mem_holders_of_ne hbeside ho]
    split <;> simp [ho]

end Beside

/-! ## The balance -/

/-- A hold that goes back to a service that is still there was one of its holds. -/
def Covered (record : Record (Site π)) : Prop :=
  ∀ r, record.event = .giveBack r →
    ∀ s, record.outside.directory.find? r.id = some s → 0 < s.holds

structure Balanced (w : World (Site π)) : Prop where
  numbered : w.outside.directory.Numbered
  known : ∀ service, ∀ id ∈ holders service w, service ≤ w.outside.directory.lastService
  holds : ∀ service s, w.outside.directory.find? service = some s →
    s.holds = (holders service w).card
  covered : ∀ record ∈ w.history, Covered record

variable {code : PluginCode (Site π)} {w w' w'' : World (Site π)} {id : EntryId}

theorem covered_recorded (h : ∀ record ∈ w.history, Covered record) {event : EntryEvent}
    (hevent : ∀ r, event = .giveBack r →
      ∀ s, w.outside.directory.find? r.id = some s → 0 < s.holds) :
    ∀ record ∈ (w.recorded id event).history, Covered record := by
  intro record hmem
  rcases List.mem_append.mp hmem with hmem | hmem
  · exact h record hmem
  · rw [List.mem_singleton.mp hmem]
    exact hevent

/-- A course of one entry that asks nothing of the directory. -/
structure Even (id : EntryId) (w w' : World (Site π)) : Prop where
  beside : Beside id w w'
  directory : w'.outside.directory = w.outside.directory
  covered : (∀ record ∈ w.history, Covered record) → ∀ record ∈ w'.history, Covered record

namespace Even

theorem trans (h : Even id w w') (h' : Even id w' w'') : Even id w w'' where
  beside := h.beside.trans h'.beside
  directory := h'.directory.trans h.directory
  covered hc := h'.covered (h.covered hc)

theorem refl (w : World (Site π)) : Even id w w :=
  ⟨⟨rfl, fun _ _ => rfl, rfl⟩, rfl, fun h => h⟩

theorem recorded {event : EntryEvent} (hevent : ∀ r, event ≠ .giveBack r)
    (w : World (Site π)) : Even id w (w.recorded id event) :=
  ⟨beside_of_frame (Frame.recorded event w), rfl,
    fun h => covered_recorded h fun r hr => absurd hr (hevent r)⟩

theorem modifyEntry {f : Entry → Entry} (hframe : Frame id w (w.modifyEntry id f)) :
    Even id w (w.modifyEntry id f) :=
  ⟨beside_of_frame hframe, rfl, fun h => h⟩

theorem idle (h : Idle Site.directory id w w') : Even id w w' := by
  refine ⟨beside_of_frame h.frame, h.view_eq, ?_⟩
  cases h <;> exact fun h => h

theorem idles (h : ReflTransGen (Idle Site.directory id) w w') : Even id w w' := by
  induction h with
  | refl => exact refl w
  | tail _ hstep ih => exact ih.trans (idle hstep)

theorem naming {c : Component} (h : ReflTransGen (Naming Site.directory id c) w w') :
    Even id w w' := by
  induction h with
  | refl => exact refl w
  | tail _ hstep ih =>
    refine ih.trans ?_
    cases hstep with
    | idle h => exact idle h
    | ask => exact recorded (fun _ => by simp) _

end Even

theorem Even.balanced (h : Even id w w') (hbalanced : Balanced w)
    (hsame : (w'.entry id).isWarm = (w.entry id).isWarm ∨
      ∃ factory known, (w.entry id).source = .direct factory known) : Balanced w' := by
  have hholders := holders_beside h.beside hsame
  constructor
  · rw [h.directory]
    exact hbalanced.numbered
  · intro service
    rw [hholders, h.directory]
    exact hbalanced.known service
  · intro service
    rw [hholders, h.directory]
    exact hbalanced.holds service
  · exact h.covered hbalanced.covered

theorem balanced_taken (hbalanced : Balanced w) (hbeside : Beside id w w')
    (hid : id < w.entries.length) {r : Reference} (hsource : (w.entry id).source = .directory r)
    (hcold : (w.entry id).isWarm = false) (hwarm : (w'.entry id).isWarm = true)
    {object : ServiceObject}
    (hget : w.outside.directory.getService r.id = (some object, w'.outside.directory))
    (hcovered : ∀ record ∈ w'.history, Covered record) : Balanced w' := by
  have hholders := holders_warmed hbeside hid hsource hcold hwarm
  have hlast : w'.outside.directory.lastService = w.outside.directory.lastService :=
    Directory.lastService_getService hget
  obtain ⟨found, hfound⟩ := Directory.find?_of_getService hget
  have hnumber : r.id ≤ w.outside.directory.lastService := by
    have hle := hbalanced.numbered found (Directory.mem_of_find? hfound)
    rw [Directory.find?_id hfound] at hle
    exact hle
  constructor
  · exact Directory.numbered_getService hget hbalanced.numbered
  · intro service other hmem
    rw [hlast]
    rw [(hholders service).2] at hmem
    split at hmem
    · rename_i hservice
      rw [hservice]
      exact hnumber
    · exact hbalanced.known service other hmem
  · intro service s hfind
    rw [Directory.find?_getService hget] at hfind
    rw [(hholders service).2]
    split
    · rename_i hservice
      rw [if_pos hservice, hfound] at hfind
      cases hfind
      have hheld := hbalanced.holds r.id found hfound
      rw [Finset.card_insert_of_notMem (hholders service).1, hservice, ← hheld]
    · rename_i hservice
      rw [if_neg hservice] at hfind
      exact hbalanced.holds service s hfind
  · exact hcovered

theorem holds_pos (hbalanced : Balanced w) (hid : id < w.entries.length) {r : Reference}
    (hsource : (w.entry id).source = .directory r) (hwarm : (w.entry id).isWarm = true)
    {s : Service} (hfind : w.outside.directory.find? r.id = some s) : 0 < s.holds := by
  rw [hbalanced.holds r.id s hfind, Finset.card_pos]
  exact ⟨id, mem_holders.mpr ⟨hid, hwarm, ownedBy_iff.mpr ⟨r, hsource, rfl⟩⟩⟩

theorem balanced_returned (hbalanced : Balanced w) (hbeside : Beside id w w')
    (hid : id < w.entries.length) {r : Reference} (hsource : (w.entry id).source = .directory r)
    (hwarm : (w.entry id).isWarm = true) (hcold : (w'.entry id).isWarm = false)
    (hrelease : w'.outside.directory = w.outside.directory.releaseService r.id)
    (hcovered : ∀ record ∈ w'.history, Covered record) : Balanced w' := by
  have hid' : id < w'.entries.length := hbeside.length ▸ hid
  have hsource' : (w'.entry id).source = .directory r := hbeside.source.trans hsource
  have hholders := holders_warmed hbeside.symm hid' hsource' hcold hwarm
  constructor
  · rw [hrelease]
    exact Directory.numbered_modifyService (fun _ h => by exact h) hbalanced.numbered
  · intro service other hmem
    rw [hrelease]
    refine hbalanced.known service other ?_
    rw [(hholders service).2]
    split
    · exact Finset.mem_insert_of_mem hmem
    · exact hmem
  · intro service s hfind
    rw [hrelease, Directory.find?_releaseService] at hfind
    split at hfind
    · rename_i hservice
      obtain ⟨old, hold, rfl⟩ := Option.map_eq_some_iff.mp hfind
      have hheld := hbalanced.holds r.id old hold
      rw [(hholders r.id).2, if_pos rfl, Finset.card_insert_of_notMem (hholders r.id).1] at hheld
      rw [hservice]
      show old.holds - 1 = _
      omega
    · rename_i hservice
      have hheld := hbalanced.holds service s hfind
      rw [(hholders service).2, if_neg hservice] at hheld
      exact hheld
  · exact hcovered

/-! ## Every step keeps the balance -/

theorem getService_site {r : Reference} {s s' : Site π} {object : Option ServiceObject}
    (h : (environment code).directory.getService r s = (object, s')) :
    s.directory.getService r.id = (object, s'.directory) := by
  cases h
  rfl

theorem balanced_refused (hbalanced : Balanced w) {r : Reference} {object : ServiceObject}
    {s : Site π} (hget : w.outside.directory.getService r.id = (some object, s.directory)) :
    Balanced (((w.withOutside s).recorded id (.giveBack r)).withOutside
      { s with directory := s.directory.releaseService r.id }) := by
  have hfind := Directory.find?_getService hget
  constructor
  · refine Directory.numbered_modifyService (fun _ h => by exact h) ?_
    exact Directory.numbered_getService hget hbalanced.numbered
  · intro service other hmem
    show service ≤ s.directory.lastService
    rw [Directory.lastService_getService hget]
    exact hbalanced.known service other hmem
  · intro service found hfound
    have hfound : (s.directory.releaseService r.id).find? service = some found := hfound
    rw [Directory.find?_releaseService, hfind, hfind, if_pos rfl] at hfound
    split at hfound
    · rename_i hservice
      rw [Option.map_map] at hfound
      obtain ⟨old, hold, rfl⟩ := Option.map_eq_some_iff.mp hfound
      rw [hservice]
      exact hbalanced.holds r.id old hold
    · exact hbalanced.holds service found hfound
  · have hgiven : ∀ record ∈ (w.withOutside s).history, Covered record := hbalanced.covered
    refine covered_recorded hgiven ?_
    rintro _ ⟨⟩ found hfound
    have hfound : s.directory.find? r.id = some found := hfound
    rw [hfind, if_pos rfl] at hfound
    obtain ⟨old, -, rfl⟩ := Option.map_eq_some_iff.mp hfound
    exact Nat.succ_pos _

theorem balanced_released {c : Component} (heven : Even id w w')
    (h : Released (environment code) id c w' w'') (hbalanced : Balanced w)
    (hid : id < w.entries.length) (hwarm : (w.entry id).isWarm = true)
    (hcold : (w''.entry id).isWarm = false) : Balanced w'' := by
  have hbeside : Beside id w w'' := heven.beside.trans (beside_of_frame h.frame)
  cases h with
  | @directory r hsource =>
    rw [heven.beside.source] at hsource
    have hreleased : ∀ record ∈ (w'.recorded id (.released c)).history, Covered record :=
      covered_recorded (heven.covered hbalanced.covered) (by simp)
    refine balanced_returned hbalanced hbeside hid hsource hwarm hcold ?_ ?_
    · show w'.outside.directory.releaseService r.id = _
      rw [heven.directory]
    · refine covered_recorded hreleased ?_
      rintro _ ⟨⟩ found hfound
      have hfound : w'.outside.directory.find? r.id = some found := hfound
      rw [heven.directory] at hfound
      exact holds_pos hbalanced hid hsource hwarm hfound
  | @direct factory known hsource =>
    rw [heven.beside.source] at hsource
    exact (heven.trans (Even.recorded (by simp) w')).balanced hbalanced
      (Or.inr ⟨factory, known, hsource⟩)
  | @deactivated factory known object hsource =>
    rw [heven.beside.source] at hsource
    exact ((heven.trans (Even.recorded (by simp) w')).trans (Even.recorded (by simp) _)).balanced
      hbalanced (Or.inr ⟨factory, known, hsource⟩)

theorem isWarm_slot {a b : Entry} (h : Entry.SameSlot a b) : b.isWarm = a.isWarm := by
  unfold Entry.isWarm
  rw [h.warm]

theorem isWarm_of_some {e : Entry} {x : Warm} (h : e.warm = some x) : e.isWarm = true := by
  unfold Entry.isWarm
  rw [h]
  rfl

theorem isWarm_of_none {e : Entry} (h : e.warm = none) : e.isWarm = false := by
  unfold Entry.isWarm
  rw [h]
  rfl

theorem balanced_acquired {c : Component} (h : Acquired (environment code) id c w w')
    (hbalanced : Balanced w) (hid : id < w.entries.length)
    (hcold : (w.entry id).isWarm = false) :
    Balanced ((w'.recorded id (.acquired c)).modifyEntry id (Entry.install c)) := by
  have hbeside : Beside id w ((w'.recorded id (.acquired c)).modifyEntry id (Entry.install c)) :=
    beside_of_frame ((h.frame.trans (Frame.recorded _ w')).trans (frame_install c _))
  have hid' : id < (w'.recorded id (.acquired c)).entries.length := by
    show id < w'.entries.length
    rw [h.frame.length]
    exact hid
  have hwarm : (((w'.recorded id (.acquired c)).modifyEntry id (Entry.install c)).entry id).isWarm
      = true := by
    rw [World.entry_modifyEntry_self _ _ hid']
    rfl
  have hinstalled : Even id w'
      ((w'.recorded id (.acquired c)).modifyEntry id (Entry.install c)) :=
    (Even.recorded (by simp) w').trans (Even.modifyEntry (frame_install c _))
  cases h with
  | plugin hsource hget | handler hsource hget =>
    exact balanced_taken hbalanced hbeside hid hsource hcold hwarm (getService_site hget)
      (hinstalled.covered hbalanced.covered)
  | made object hsource =>
    have hmade : Even id w (w.modifyEntry id Entry.arm) := Even.modifyEntry (frame_arm w)
    exact (hmade.trans hinstalled).balanced hbalanced (Or.inr ⟨_, _, hsource⟩)
  | activated object hsource =>
    have hmade : Even id w ((w.recorded id (.activated object)).modifyEntry id Entry.arm) :=
      (Even.recorded (by simp) w).trans (Even.modifyEntry (frame_arm _))
    exact (hmade.trans hinstalled).balanced hbalanced (Or.inr ⟨_, _, hsource⟩)

theorem balanced_parted (h : Parting (environment code) Site.directory id w w')
    (hbalanced : Balanced w) (hid : id < w.entries.length) : Balanced w' := by
  have hcold' := isWarm_of_none (h.ended hid).cold
  have hshut : Even id w (w.modifyEntry id Entry.shut) := Even.modifyEntry (frame_shut w)
  cases h with
  | cold hcold =>
    exact hshut.balanced hbalanced (Or.inl (hcold'.trans (isWarm_of_none hcold).symm))
  | unbound hwarm h =>
    exact balanced_released hshut h hbalanced hid (isWarm_of_some hwarm) hcold'
  | bound hwarm hidle h =>
    have hdown := (hshut.trans (Even.recorded (by simp) _)).trans (Even.idles hidle)
    exact balanced_released hdown h hbalanced hid (isWarm_of_some hwarm) hcold'

theorem balanced_move (h : Move (environment code) Site.directory id w w')
    (hid : id < w.entries.length) (hbalanced : Balanced w) : Balanced w' := by
  have hbeside := beside_of_frame h.frame
  cases h with
  | idle h => exact (Even.idle h).balanced hbalanced (Or.inl (isWarm_slot h.slot))
  | create | activate | title | category =>
    exact (Even.recorded (by simp) w).balanced hbalanced (Or.inl rfl)
  | miss hsource hget =>
    have hsame := Directory.getService_none (getService_site hget)
    exact Even.balanced ⟨hbeside, hsame, fun h => h⟩ hbalanced (Or.inl rfl)
  | refuse hlive hsource hget => exact balanced_refused hbalanced (getService_site hget)
  | acquire hcold hlive h => exact balanced_acquired h hbalanced hid (isWarm_of_none hcold)
  | @init w₁ x ref config hwarm hcontext hnew hname =>
    have hbound : Even id w (w.modifyEntry id (Entry.bindTo x.component (some ref))) :=
      Even.modifyEntry (frame_bindTo _ _ w)
    refine ((hbound.trans (Even.naming hname)).trans (Even.recorded (by simp) w₁)).balanced
      hbalanced (Or.inl ?_)
    rw [World.entry_recorded, isWarm_slot (Naming.slot hname), World.entry_modifyEntry_self _ _ hid]
    exact (isWarm_of_some hwarm).symm
  | @destroy c ref hwarm =>
    have hbound : Even id w (w.modifyEntry id (Entry.bindTo c none)) :=
      Even.modifyEntry (frame_bindTo _ _ w)
    refine (hbound.trans (Even.recorded (by simp) _)).balanced hbalanced (Or.inl ?_)
    rw [World.entry_recorded, World.entry_modifyEntry_self _ _ hid]
    exact (isWarm_of_some hwarm).symm
  | part h => exact balanced_parted h hbalanced hid

theorem holders_entered (w : World σ) (label : String) (source : Source) (service : Nat) :
    holders service (w.entered { label, source }) = holders service w := by
  ext id
  rw [mem_holders, mem_holders, World.length_entered]
  rcases Nat.lt_trichotomy id w.entries.length with hid | hid | hid
  · rw [World.entry_entered_of_lt hid]
    simp [hid, Nat.lt_succ_of_lt hid]
  · rw [hid, World.entry_entered_self]
    simp [Entry.isWarm]
  · have hout : ¬ id < w.entries.length + 1 := Nat.not_lt_of_le hid
    simp [hout, Nat.not_lt_of_gt hid]

theorem balanced_turned (hbalanced : Balanced w) {s : Site π} (h : Turns w.outside s) :
    Balanced (w.withOutside s) where
  numbered := h.numbered hbalanced.numbered
  known service id hmem := (hbalanced.known service id hmem).trans h.lastService_le
  holds service found hfind := by
    show found.holds = (holders service w).card
    rcases h.find? hfind with ⟨old, hold, hheld⟩ | ⟨hnew, hnone⟩
    · rw [← hheld]
      exact hbalanced.holds service old hold
    · -- Nobody holds a service that was not there.
      have hempty : holders service w = ∅ := by
        rw [Finset.eq_empty_iff_forall_notMem]
        exact fun id hmem => absurd (hbalanced.known service id hmem) (Nat.not_le_of_lt hnew)
      rw [hnone, hempty, Finset.card_empty]
  covered := hbalanced.covered

theorem balanced_step (h : Step (environment code) Site.directory Turns w w')
    (hbalanced : Balanced w) : Balanced w' := by
  cases h with
  | visit h =>
    cases h with
    | move _ hid h => exact balanced_move h hid hbalanced
    | @call s h =>
      have hcalled : Even 0 w (w.withOutside s) := ⟨⟨rfl, fun _ _ => rfl, rfl⟩, h, fun h => h⟩
      exact hcalled.balanced hbalanced (Or.inl rfl)
    | aside =>
      exact ⟨hbalanced.numbered, hbalanced.known, hbalanced.holds, hbalanced.covered⟩
  | enter label source =>
    have hholders := holders_entered w label source
    constructor
    · exact hbalanced.numbered
    · intro service
      rw [hholders]
      exact hbalanced.known service
    · intro service
      rw [hholders]
      exact hbalanced.holds service
    · exact hbalanced.covered
  | arrange => exact ⟨hbalanced.numbered, hbalanced.known, hbalanced.holds, hbalanced.covered⟩
  | outside h => exact balanced_turned hbalanced h

theorem balanced_steps (h : Steps (environment code) Site.directory Turns w w')
    (hbalanced : Balanced w) : Balanced w' := by
  induction h with
  | refl => exact hbalanced
  | tail _ hstep ih => exact balanced_step hstep ih

/-! ## Holders are in the table -/

/-- In a tidy registry whoever holds a service can be found in the table. -/
theorem card_holders (htidy : Tidy w) (service : Nat) :
    (holders service w).card = (snapshot w).countP fun id =>
      (w.entry id).isWarm && (w.entry id).ownedBy service := by
  have hnodup : (snapshot w).Nodup := htidy.snapshot_nodup
  have hset : holders service w = ((snapshot w).filter fun id =>
      (w.entry id).isWarm && (w.entry id).ownedBy service).toFinset := by
    ext id
    rw [mem_holders, List.mem_toFinset, List.mem_filter, Bool.and_eq_true]
    refine ⟨fun ⟨hid, h⟩ => ⟨?_, h⟩, fun ⟨hmem, h⟩ => ⟨htidy.ranged id hmem, h⟩⟩
    rcases htidy.settled id hid with hmem | hover
    · exact hmem
    · rw [isWarm_of_none hover.cold] at h
      cases h.1
  rw [hset, List.toFinset_card_of_nodup (hnodup.filter _), List.countP_eq_length_filter]

/-- At any time the holds on a published service are its warm entries in the table, and no
hold was ever given back that was not there. -/
theorem runActions_balanced (hcode : code.Spares Site.directory) (host : Host) (own : π)
    (actions : List (Action π)) (hcalm : ∀ action ∈ actions, action.Calm) :
    let w := runActions (environment code) actions (start host own)
    (∀ service s, w.outside.directory.find? service = some s →
      s.holds = (snapshot w).countP fun id =>
        (w.entry id).isWarm && (w.entry id).ownedBy service) ∧
    (∀ record ∈ w.history, ∀ r, record.event = .giveBack r →
      ∀ s, record.outside.directory.find? r.id = some s → 0 < s.holds) ∧
    (∀ service s, w.outside.directory.find? service = some s →
      (∀ id ∈ snapshot w, (w.entry id).ownedBy service = false) → s.holds = 0) := by
  intro w
  have hkept : Tidy w ∧ Balanced w := by
    refine runActions_keeps (fun w => Tidy w ∧ Balanced w) ?_ hcalm ⟨tidy_fresh _, ?_⟩
    · rintro w₁ action haction ⟨htidy, hbalanced⟩
      refine (act_changes hcode htidy haction).imp fun _ w₂ h => ⟨h.tidy htidy, ?_⟩
      exact balanced_steps (h.steps htidy.ranged) hbalanced
    · refine ⟨?_, ?_, ?_, ?_⟩
      · exact fun s hmem => absurd hmem List.not_mem_nil
      · intro service id hmem
        exact absurd (mem_holders.mp hmem).1 (Nat.not_lt_zero id)
      · rintro service s ⟨⟩
      · exact fun record hmem => absurd hmem List.not_mem_nil
  obtain ⟨htidy, hbalanced⟩ := hkept
  have hholds (service : Nat) (s : Service) (hfind : w.outside.directory.find? service = some s) :
      s.holds = (snapshot w).countP fun id =>
        (w.entry id).isWarm && (w.entry id).ownedBy service := by
    rw [← card_holders htidy]
    exact hbalanced.holds service s hfind
  refine ⟨hholds, hbalanced.covered, fun service s hfind hnone => ?_⟩
  rw [hholds service s hfind, List.countP_eq_zero]
  intro id hmem
  rw [hnone id hmem, Bool.and_false]
  exact Bool.false_ne_true

def oneLookup : List (Action Unit) :=
  [.publish "m" [(Property.label, .text "a")] (.plugin (.named "p")),
    .registry (.addService (Reference.make 1 "m" [(Property.label, .text "a")])),
    .registry (.lookup "a")]

theorem oneLookup_balanced :
    let w := runActions (environment PluginCode.still) oneLookup (start ⟨"", []⟩ ())
    (PluginCode.still : PluginCode (Site Unit)).Spares Site.directory ∧
      (∀ action ∈ oneLookup, action.Calm) ∧
      w.outside.directory.holds 1 = 1 ∧
      ∀ service s, w.outside.directory.find? service = some s →
        s.holds = (snapshot w).countP fun id =>
          (w.entry id).isWarm && (w.entry id).ownedBy service := by
  intro w
  have hcalm : ∀ action ∈ oneLookup, action.Calm := by
    simp [oneLookup, Action.Calm, Operation.Calm]
  have hrun := runActions_balanced (PluginCode.still_spares _) ⟨"", []⟩ () oneLookup hcalm
  exact ⟨PluginCode.still_spares _, hcalm, rfl, hrun.1⟩

end PluginConsole.Site
