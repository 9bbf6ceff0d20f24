import PluginConsole.Proofs.Registry.Lifetime
import PluginConsole.Proofs.Registry.Settle

/-!
# The balance of activations

A direct entry has one activation more than deactivations just while it has a component that wanted
one. Plugin code may come back to the registry from any of its calls, as deep as one likes.
-/

namespace PluginConsole

variable {σ : Type}

namespace World

def activations (id : EntryId) (w : World σ) : Nat :=
  (w.eventsOf id).countP EntryEvent.isActivated

def deactivations (id : EntryId) (w : World σ) : Nat :=
  (w.eventsOf id).countP EntryEvent.isDeactivate

/-- The activation of the object was tried and did not go well. -/
def Failed (object : Instance) (w : World σ) : Prop :=
  w.successes object < w.attempts object

theorem mem_eventsOf {id : EntryId} {event : EntryEvent} {w : World σ} :
    event ∈ w.eventsOf id ↔ ∃ r ∈ w.history, r.entry = id ∧ r.event = event := by
  simp [eventsOf, and_assoc]

theorem successes_pos {id : EntryId} {object : Instance} {w : World σ}
    (h : .activated object ∈ w.eventsOf id) : 0 < w.successes object := by
  obtain ⟨r, hmem, -, hevent⟩ := mem_eventsOf.mp h
  refine List.countP_pos_iff.mpr ⟨r, hmem, ?_⟩
  rw [hevent]
  exact decide_eq_true rfl

theorem exists_of_attempts {object : Instance} {w : World σ} (h : 0 < w.attempts object) :
    ∃ id, .activate object ∈ w.eventsOf id := by
  obtain ⟨r, hmem, htries⟩ := List.countP_pos_iff.mp h
  refine ⟨r.entry, mem_eventsOf.mpr ⟨r, hmem, rfl, ?_⟩⟩
  cases hevent : r.event <;> rw [hevent] at htries <;> first | cases htries | skip
  rw [of_decide_eq_true htries]

end World

namespace Registry

open Act Lifecycle

variable {env : Environment σ} {activatable : Instance → Bool} {w w' : World σ} {id : EntryId}

/-! ## Code that calls back -/

/-- Whatever the code does comes down to calls of the registry, which answers them with code that
comes back once less deep, and with the same capability of each object. -/
def CallsBack (env : Environment σ) : Nat → PluginCode σ → Prop
  | 0, code => code.Spares fun _ => ()
  | depth + 1, code => code.Respects fun w w' => ∃ inner calls, CallsBack env depth inner ∧
      inner.activatable = code.activatable ∧ w' = run { env with code := inner } calls w

theorem CallsBack.squared {depth : Nat} {code : PluginCode σ} (h : CallsBack env depth code) :
    code.Respects (Squared code.activatable) := by
  induction depth generalizing code with
  | zero => exact h.respects fun w s _ hsound => settling_withOutside hsound s
  | succ depth ih =>
    refine PluginCode.Respects.mono h ?_
    rintro w w' ⟨inner, calls, hinner, hsame, rfl⟩ hsound
    rw [← hsame] at hsound ⊢
    have hgoverned : Governed { env with code := inner } (fun _ _ => True) _ _
        (Squared inner.activatable) :=
      squared_governed env.directory.within_any (ih hinner)
    exact hgoverned.run (fun hready hid => ⟨hready, hid⟩) hsound calls hsound

/-! ## Answers -/

def answer (env : Environment σ) : Call σ → Act σ (Option Component)
  | .registry (.lookup label) => lookup env label
  | .registry .lookupDefault => lookupDefault env
  | .entry id .component => do
    if id < (← get).entries.length then
      component env id
    else
      return none
  | _ => return none

section Answers

variable (hcode : env.code.Respects (Squared env.code.activatable))
variable (hsound : Sound env.code.activatable w)
include hcode hsound

theorem firstComponent_acquired {ids : List EntryId} (hids : ∀ id ∈ ids, id < w.entries.length) :
    Ends (firstComponent env ids) w fun found w' =>
      ∀ c, found = some c → ∃ id, .acquired c ∈ w'.eventsOf id := by
  induction ids generalizing w with
  | nil => rintro _ ⟨⟩
  | cons id rest ih =>
    unfold firstComponent
    rw [ends_bind]
    refine (component_settling hsound (hids id List.mem_cons_self) hcode).imp ?_
    rintro (_ | found) w₁ ⟨hsettling, hacquired⟩
    · refine ih hsettling.sound fun other hmem => ?_
      exact (hids other (List.mem_cons_of_mem _ hmem)).trans_le hsettling.length
    · rintro _ ⟨⟩
      exact ⟨id, hacquired _ rfl⟩

theorem lookup_acquired (label : String) : Ends (lookup env label) w fun found w' =>
    ∀ c, found = some c → ∃ id, .acquired c ∈ w'.eventsOf id := by
  have hasideSound (hs : List EntryId) : Sound env.code.activatable { w with inHand := hs } :=
    ⟨hsound.ranged, hsound.unborn, hsound.accounted⟩
  unfold lookup
  split
  · simp only [ends_bind, ends_get, ends_holding]
    exact firstComponent_acquired hcode (hasideSound _) hsound.ranged
  · simp only [ends_bind, ends_get]
    split
    · rintro _ ⟨⟩
    · rename_i id hheld
      have hid := hsound.ranged id (mem_snapshot_of_lookup hheld)
      rw [ends_holding]
      have hcomponent := component_settling (hasideSound ([id] ++ w.inHand)) hid hcode
      exact hcomponent.imp fun _ _ h c hc => ⟨id, h.2 c hc⟩

theorem lookupDefault_acquired : Ends (lookupDefault env) w fun found w' =>
    ∀ c, found = some c → ∃ id, .acquired c ∈ w'.eventsOf id := by
  unfold lookupDefault
  simp only [ends_bind, ends_get]
  split
  · exact lookup_acquired hcode hsound ""
  rename_i label _
  rw [ends_bind]
  refine ((lookup_acquired hcode hsound label).and
    ((squared_governed env.directory.within_any hcode).lookup hsound label)).imp ?_
  rintro (_ | found) w₁ ⟨hacquired, hsettled⟩
  · exact lookup_acquired hcode (hsettled hsound).sound ""
  · exact hacquired

/-- Whatever is handed out has been acquired, by the very entry that was asked. -/
theorem answer_acquired (call : Call σ) {c : Component} (hc : (answer env call w).1 = some c) :
    ∃ id, .acquired c ∈ (serve env call w).2.eventsOf id ∧
      ∀ other, call = .entry other .component → id = other := by
  cases call with
  | registry op =>
    cases op with
    | lookup label =>
      obtain ⟨id, hacquired⟩ := lookup_acquired hcode hsound label c hc
      exact ⟨id, hacquired, nofun⟩
    | lookupDefault =>
      obtain ⟨id, hacquired⟩ := lookupDefault_acquired hcode hsound c hc
      exact ⟨id, hacquired, nofun⟩
    | openUp | close | addService | removeService | addDirect | unregister | hear
    | setDefaultLabel | labelMap | describe | setContext => cases hc
  | entry id call =>
    cases call with
    | component =>
      refine ⟨id, ?_, fun other h => by cases h; rfl⟩
      show .acquired c ∈ (ifMade id (discard (component env id)) w).2.eventsOf id
      change ((if id < w.entries.length then component env id else pure none) w).1 = some c at hc
      split at hc
      · rename_i hid
        rw [ifMade_of_lt hid]
        exact (component_settling hsound hid hcode).2 c hc
      · cases hc
    | title | category | init | destroy | dispose => cases hc
  | make | register | around => cases hc

end Answers

/-! ## Every run -/

/-- Factories give fresh instances: none that was to be activated before, and none that stands
behind a service of the directory. -/
structure Fresh (w : World σ) : Prop where
  once : ∀ object, w.attempts object ≤ 1
  apart : ∀ id object, (w.entry id).kind = .directory →
    .acquired (.plugin object) ∈ w.eventsOf id → w.attempts object = 0

theorem sound_fresh (s : σ) : Sound activatable ({ outside := s } : World σ) where
  ranged _ hmem := absurd hmem List.not_mem_nil
  unborn _ _ := rfl
  accounted _ := .fresh rfl

theorem Sound.refused (hsound : Sound activatable w) (hfresh : Fresh w) {object : Instance}
    (hfailed : w.Failed object) (id : EntryId) :
    .acquired (.plugin object) ∉ w.eventsOf id ∧ .deactivate object ∉ w.eventsOf id ∧
      ∀ x, (w.entry id).warm = some x → x.component ≠ .plugin object := by
  have honce := hfresh.once object
  unfold World.Failed at hfailed
  have hnever (id : EntryId) : .activated object ∉ w.eventsOf id := by
    intro hmem
    have hpos := World.successes_pos hmem
    omega
  have hwants : activatable object = true := by
    obtain ⟨id, hmem⟩ := World.exists_of_attempts (Nat.zero_lt_of_lt hfailed)
    exact (hsound.accounted id).tried hmem
  have hout : .acquired (.plugin object) ∉ w.eventsOf id := by
    intro hmem
    cases hkind : (w.entry id).kind with
    | direct =>
      obtain ⟨_, ⟨⟩, hactivated⟩ := (hsound.accounted id).vouched hmem hkind
      exact hnever id (hactivated hwants)
    | directory =>
      have hnone := hfresh.apart id object hkind hmem
      omega
  refine ⟨hout, fun hmem => hnever id ((hsound.accounted id).undone hmem), ?_⟩
  intro x hwarm hsame
  exact hout (hsame ▸ (hsound.accounted id).warm x hwarm)

theorem Settling.failed {moved : EntryId → Int} (h : Settling activatable moved w w')
    {object : Instance} (hfailed : w.Failed object) : w'.Failed object := by
  have htried := h.tried object
  unfold World.Failed at hfailed ⊢
  omega

/-- In every run the activations of a direct entry outweigh its deactivations by one while it has
a component that wants activation, and not at all otherwise. Nothing comes from a direct entry that
was not activated before, if it wants that. As long as factories give fresh instances, an object
whose activation failed is in no entry, is handed out by no call and is never deactivated. -/
theorem run_activated {depth : Nat} (hcode : CallsBack env depth env.code) (s : σ)
    (calls : List (Call σ)) :
    let after done := run env done { outside := s }
    let w := after calls
    (∀ id, (w.entry id).kind = .direct →
      (w.activations id : Int) - w.deactivations id =
          (if (w.entry id).warm.any (·.component.wants env.code.activatable) then 1 else 0) ∧
        ∀ before c rest, w.eventsOf id = before ++ .acquired c :: rest →
          ∃ object, c = .plugin object ∧
            (env.code.activatable object = true → .activated object ∈ before)) ∧
    (∀ done call, done ++ [call] <+: calls → ∀ c, (answer env call (after done)).1 = some c →
      ∃ id, .acquired c ∈ (after (done ++ [call])).eventsOf id ∧
        (after (done ++ [call])).eventsOf id <+: w.eventsOf id ∧
        ∀ other, call = .entry other .component → id = other) ∧
    (Fresh w → ∀ done, done <+: calls → ∀ object, (after done).Failed object →
      (∀ id, .acquired (.plugin object) ∉ w.eventsOf id ∧ .deactivate object ∉ w.eventsOf id ∧
        ∀ x, (w.entry id).warm = some x → x.component ≠ .plugin object) ∧
      ∀ done call, done ++ [call] <+: calls →
        (answer env call (after done)).1 ≠ some (.plugin object)) := by
  intro after w
  have hsettled := hcode.squared
  have hrun {w₁ : World σ} (hsound : Sound env.code.activatable w₁) (calls : List (Call σ)) :
      Settling env.code.activatable 0 w₁ (run env calls w₁) :=
    (squared_governed env.directory.within_any hsettled).run (fun hready hid => ⟨hready, hid⟩)
      hsound calls hsound
  have hstart (done : List (Call σ)) :
      Settling env.code.activatable 0 { outside := s } (after done) :=
    hrun (sound_fresh s) done
  have hlater (done : List (Call σ)) (hdone : done <+: calls) :
      Settling env.code.activatable 0 (after done) w := by
    obtain ⟨rest, rfl⟩ := hdone
    have hrest := hrun (hstart done).sound rest
    unfold after at hrest
    rw [← run_append] at hrest
    exact hrest
  have hanswers (done : List (Call σ)) (call : Call σ) (hdone : done ++ [call] <+: calls)
      (c : Component) (hc : (answer env call (after done)).1 = some c) :
      ∃ id, .acquired c ∈ (after (done ++ [call])).eventsOf id ∧
        (after (done ++ [call])).eventsOf id <+: w.eventsOf id ∧
        ∀ other, call = .entry other .component → id = other := by
    obtain ⟨id, hacquired, hasked⟩ := answer_acquired hsettled (hstart done).sound call hc
    refine ⟨id, ?_, (hlater _ hdone).events id, hasked⟩
    unfold after
    rw [run_concat]
    exact hacquired
  have hsound : Sound env.code.activatable w := (hstart calls).sound
  refine ⟨fun id hdirect => ⟨?_, fun before c rest hsplit => ?_⟩, hanswers, ?_⟩
  · have hbalance : balance env.code.activatable (w.entry id) (w.eventsOf id) = 0 :=
      (hstart calls).balance id
    unfold balance at hbalance
    unfold World.activations World.deactivations
    rw [← Entry.owes_of_direct hdirect]
    omega
  · exact (hsound.accounted id).admitted before _ rest hsplit hdirect
  · intro hfresh done hdone object hfailed
    have hrefused := hsound.refused hfresh ((hlater done hdone).failed hfailed)
    refine ⟨hrefused, fun done call hdone hc => ?_⟩
    obtain ⟨id, hacquired, hkept, -⟩ := hanswers done call hdone _ hc
    exact (hrefused id).1 (hkept.subset hacquired)

/-- Each instance is made once, and the first of all panics when it is activated. -/
def minting : PluginCode (Site Nat) :=
  { PluginCode.still with
    create := fun factory w => (.ok (.made factory w.outside.own),
      w.withOutside { w.outside with own := w.outside.own + 1 })
    activate := fun object =>
      return if object = .made "f" 0 then .error (.panic none) else .ok () }

def prying : PluginCode (Site Nat) :=
  { minting with
    activate := fun object w =>
      minting.activate object (run (Site.environment minting) [.registry (.lookup "a")] w) }

/-- What is made first is refused. What is made in the meantime takes its place and stays, while
the other plugin is given up. -/
def secondTry : List (Call (Site Nat)) :=
  [.registry (.addDirect "f" "a"), .registry (.addDirect "g" "b"), .registry (.lookup "a"),
    .registry (.lookup "b"), .registry (.lookup ""), .registry (.unregister "b")]

theorem secondTry_activated :
    let w := run (Site.environment prying) secondTry { outside := ⟨{}, ⟨"", []⟩, 0⟩ }
    CallsBack (Site.environment prying) 1 prying ∧ Fresh w ∧
      w.eventsOf 0 = [.create "f", .activate (.made "f" 0), .create "f", .activate (.made "f" 1),
        .activated (.made "f" 1), .acquired (.plugin (.made "f" 1))] ∧
      (w.activations 0 : Int) - w.deactivations 0 = 1 ∧
      (w.activations 1 : Int) - w.deactivations 1 = 0 ∧
      ∀ id, .acquired (.plugin (.made "f" 0)) ∉ w.eventsOf id := by
  intro w
  have hspares : minting.Spares fun _ : Site Nat => () := by
    constructor <;> intros <;> first | exact Act.Spares.pure _ | exact fun w => ⟨_, rfl, rfl⟩
  have hcode : CallsBack (Site.environment prying) 1 prying := by
    have hnothing (w : World (Site Nat)) : ∃ inner calls,
        CallsBack (Site.environment prying) 0 inner ∧ inner.activatable = prying.activatable ∧
          w = run { Site.environment prying with code := inner } calls w :=
      ⟨minting, [], hspares, rfl, rfl⟩
    constructor <;> intro _
    · exact fun w => ⟨minting, [.around fun s => { s with own := s.own + 1 }], hspares, rfl, rfl⟩
    · exact fun w => ⟨minting, [.registry (.lookup "a")], hspares, rfl, rfl⟩
    · exact hnothing
    · exact hnothing
    · exact hnothing
    · exact fun _ => hnothing
    · exact hnothing
  have hevents : w.history.map (fun r => (r.entry, r.event)) =
      [(0, .create "f"), (0, .activate (.made "f" 0)), (0, .create "f"),
        (0, .activate (.made "f" 1)), (0, .activated (.made "f" 1)),
        (0, .acquired (.plugin (.made "f" 1))), (1, .create "g"), (1, .activate (.made "g" 2)),
        (1, .activated (.made "g" 2)), (1, .acquired (.plugin (.made "g" 2))),
        (1, .released (.plugin (.made "g" 2))), (1, .deactivate (.made "g" 2))] := rfl
  have hfresh : Fresh w := by
    constructor
    · intro object
      have hcount : w.attempts object =
          (w.history.map fun r => (r.entry, r.event)).countP fun p => p.2.tries object := by
        rw [List.countP_map]
        rfl
      rw [hcount, hevents]
      simp only [List.countP_cons, List.countP_nil, EntryEvent.tries]
      grind
    · intro id object hdirectory hmem
      obtain ⟨r, hr, rfl, hevent⟩ := World.mem_eventsOf.mp hmem
      have hpair : (r.entry, r.event) ∈ w.history.map fun r => (r.entry, r.event) :=
        List.mem_map_of_mem hr
      rw [hevents, hevent] at hpair
      simp only [List.mem_cons, Prod.mk.injEq, EntryEvent.acquired.injEq, reduceCtorEq, and_false,
        false_or, List.not_mem_nil, or_false] at hpair
      rcases hpair with ⟨h, -⟩ | ⟨h, -⟩ <;> rw [h] at hdirectory <;> cases hdirectory
  have hrun := run_activated hcode ⟨{}, ⟨"", []⟩, 0⟩ secondTry
  refine ⟨hcode, hfresh, rfl, (hrun.1 0 rfl).1, (hrun.1 1 rfl).1, fun id => ?_⟩
  have hfailed : (run (Site.environment prying) (secondTry.take 3)
      { outside := ⟨{}, ⟨"", []⟩, 0⟩ }).Failed (.made "f" 0) := by
    show 0 < 1
    decide
  exact ((hrun.2.2 hfresh _ (List.take_prefix 3 secondTry) _ hfailed).1 id).1

end Registry

end PluginConsole
