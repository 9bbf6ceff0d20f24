import PluginConsole.Proofs.Console.Opening
import PluginConsole.Proofs.Registry.Respect

/-!
# No component has two entries

Objects are numbered as they are made, and handlers as they are adapted. So whatever an entry finds
over a directory of handlers was found by no entry before.
-/

namespace PluginConsole

open Act Lifecycle Registry

variable {π α : Type}

/-! ## Numbers -/

/-- The objects have a place of their own: what was written is read again, and nothing else of the
surroundings has to do with it. -/
structure Builtin.Store.Apart (store : Builtin.Store (Site π)) : Prop where
  directory (all : List Builtin) (s : Site π) : (store.write all s).directory = s.directory
  read_write (all : List Builtin) (s : Site π) : store.read (store.write all s) = all
  read_own {s s' : Site π} (h : s'.own = s.own) : store.read s' = store.read s

def Builtin.Store.count (store : Builtin.Store (Site π)) (s : Site π) : Nat :=
  (store.read s).length

namespace Component

/-- The number of the component was given out when there were so many adapted handlers and
objects. -/
def Issued (serial count : Nat) : Component → Prop
  | .plugin (.made _ n) => n < count
  | .plugin (.named _) => False
  | .adapted n .. => n < serial

variable {serial serial' count count' : Nat} {c d : Component}

theorem Issued.mono (h : c.Issued serial count) (hserial : serial ≤ serial')
    (hcount : count ≤ count') : c.Issued serial' count' := by
  unfold Issued at h ⊢
  split at h
  · exact Nat.lt_of_lt_of_le h hcount
  · exact h
  · exact Nat.lt_of_lt_of_le h hserial

theorem Issued.same (h : c.Issued serial count) (hsame : c.same d = true) :
    d.Issued serial count := by
  unfold Component.same at hsame
  split at hsame
  · rw [← beq_iff_eq.mp hsame]
    exact h
  · unfold Issued at h ⊢
    rw [← beq_iff_eq.mp hsame]
    exact h
  · cases hsame

theorem same_comm (c d : Component) : c.same d = d.same c := by
  cases c <;> cases d <;> first | rfl | exact Bool.beq_comm

end Component

variable {store : Builtin.Store (Site π)} {w w' w'' : World (Site π)} {id : EntryId}
variable {c : Component}

structure Advances (store : Builtin.Store (Site π)) (w w' : World (Site π)) : Prop where
  handling : w.outside.directory.Handling → w'.outside.directory.Handling
  serial : w.serial ≤ w'.serial
  count : store.count w.outside ≤ store.count w'.outside
  acquired : ∀ id c, .acquired c ∈ w'.eventsOf id → .acquired c ∈ w.eventsOf id

namespace Advances

theorem refl (w : World (Site π)) : Advances store w w :=
  ⟨fun h => h, Nat.le_refl _, Nat.le_refl _, fun _ _ h => h⟩

theorem trans (h : Advances store w w') (h' : Advances store w' w'') : Advances store w w'' where
  handling hd := h'.handling (h.handling hd)
  serial := Nat.le_trans h.serial h'.serial
  count := Nat.le_trans h.count h'.count
  acquired id c hmem := h.acquired id c (h'.acquired id c hmem)

theorem ofSame (hdirectory : w'.outside.directory = w.outside.directory)
    (hserial : w.serial ≤ w'.serial) (hcount : store.count w.outside ≤ store.count w'.outside)
    (hhistory : w'.history = w.history) : Advances store w w' where
  handling hd := hdirectory ▸ hd
  serial := hserial
  count := hcount
  acquired id c hmem := by
    unfold World.eventsOf at hmem ⊢
    rwa [hhistory] at hmem

theorem recorded (id : EntryId) {event : EntryEvent} (hother : ∀ c, event ≠ .acquired c)
    (w : World (Site π)) : Advances store w (w.recorded id event) where
  handling hd := hd
  serial := Nat.le_refl _
  count := Nat.le_refl _
  acquired other c hmem := by
    by_cases ho : other = id
    · rw [ho, World.eventsOf_recorded_self, List.mem_append, List.mem_singleton] at hmem
      rw [ho]
      exact hmem.resolve_right fun heq => hother c heq.symm
    · rwa [World.eventsOf_recorded_of_ne ho] at hmem

theorem modifyEntry (id : EntryId) (f : Entry → Entry) (w : World (Site π)) :
    Advances store w (w.modifyEntry id f) :=
  ofSame rfl (Nat.le_refl _) (Nat.le_refl _) rfl

end Advances

/-- All that was found has a number, and no two entries found the same. -/
structure Numbered (store : Builtin.Store (Site π)) (w : World (Site π)) : Prop where
  handling : w.outside.directory.Handling
  issued : ∀ id c, .acquired c ∈ w.eventsOf id → c.Issued w.serial (store.count w.outside)
  apart : ∀ id other c d, .acquired c ∈ w.eventsOf id → .acquired d ∈ w.eventsOf other →
    c.same d = true → id = other

namespace Numbered

theorem advances (h : Numbered store w) (hnext : Advances store w w') : Numbered store w' where
  handling := hnext.handling h.handling
  issued id c hmem := (h.issued id c (hnext.acquired id c hmem)).mono hnext.serial hnext.count
  apart id other c d hmem hother :=
    h.apart id other c d (hnext.acquired id c hmem) (hnext.acquired other d hother)

theorem acquired (h : Numbered store w) (hnext : Advances store w w')
    (hissued : c.Issued w'.serial (store.count w'.outside))
    (hnew : ¬ c.Issued w.serial (store.count w.outside)) (id : EntryId) :
    Numbered store (w'.recorded id (.acquired c)) := by
  have hafter := h.advances hnext
  have hcases (other : EntryId) (d : Component)
      (hmem : .acquired d ∈ (w'.recorded id (.acquired c)).eventsOf other) :
      .acquired d ∈ w.eventsOf other ∨ (other = id ∧ d = c) := by
    by_cases ho : other = id
    · rw [ho, World.eventsOf_recorded_self, List.mem_append, List.mem_singleton] at hmem
      rcases hmem with hmem | heq
      · rw [ho]
        exact Or.inl (hnext.acquired id d hmem)
      · cases heq
        exact Or.inr ⟨ho, rfl⟩
    · rw [World.eventsOf_recorded_of_ne ho] at hmem
      exact Or.inl (hnext.acquired other d hmem)
  have hold (other : EntryId) (d : Component) (hmem : .acquired d ∈ w.eventsOf other) :
      d.same c ≠ true :=
    fun hsame => hnew ((h.issued other d hmem).same hsame)
  refine ⟨hafter.handling, fun other d hmem => ?_, fun a b d e hd he hsame => ?_⟩
  · rcases hcases other d hmem with hmem | ⟨-, rfl⟩
    · exact (h.issued other d hmem).mono hnext.serial hnext.count
    · exact hissued
  · rcases hcases a d hd with hd' | ⟨rfl, rfl⟩ <;> rcases hcases b e he with he' | ⟨rfl, rfl⟩
    · exact h.apart a b d e hd' he' hsame
    · exact absurd hsame (hold a d hd')
    · rw [Component.same_comm] at hsame
      exact absurd hsame (hold b e he')
    · rfl

end Numbered

/-! ## The directory -/

theorem Directory.handling_modifyService {f : Service → Service} (hf : ∀ s, (f s).object = s.object)
    (id : Nat) {d : Directory} (h : d.Handling) : (d.modifyService id f).Handling := by
  intro s hs
  obtain ⟨old, hold, rfl⟩ := List.mem_map.mp hs
  obtain ⟨object, hobject⟩ := h old hold
  refine ⟨object, ?_⟩
  split
  · rw [hf, hobject]
  · exact hobject

section Code

variable (hstore : store.Apart) (host : Site π → String)
include hstore

theorem advances_directory {d : Directory} {w : World (Site π)}
    (hd : w.outside.directory.Handling → d.Handling) :
    Advances store w (w.withOutside { w.outside with directory := d }) where
  handling := hd
  serial := Nat.le_refl _
  count :=
    have hread : store.read { w.outside with directory := d } = store.read w.outside :=
      hstore.read_own rfl
    Nat.le_of_eq (congrArg List.length hread.symm)
  acquired _ _ h := h

/-! ## The built-in objects -/

theorem update_advances (f : Builtin → Builtin) (object : Instance) :
    (store.update f object).Respects (Advances store) := by
  intro w
  cases object with
  | named => exact .refl w
  | made id n =>
    have hcount : store.count (store.write ((store.read w.outside).modify n f) w.outside) =
        store.count w.outside := by
      simp [Builtin.Store.count, hstore.read_write]
    exact .ofSame (hstore.directory ((store.read w.outside).modify n f) w.outside) (Nat.le_refl _)
      hcount.ge rfl

theorem create_advances (factory : String) (w : World (Site π)) :
    Ends ((Builtin.code store host).create factory) w fun made w' => Advances store w w' ∧
      ∀ object, made = .ok object → ∃ id, object = .made id (store.count w.outside) ∧
        store.count w.outside < store.count w'.outside := by
  unfold Builtin.code
  dsimp only
  split
  · rename_i b _
    unfold Builtin.Store.make
    simp only [ends_bind, ends_outside, ends_pure]
    have hnext : store.count w.outside <
        store.count (store.write (store.read w.outside ++ [b]) w.outside) := by
      simp [Builtin.Store.count, hstore.read_write]
    refine ⟨.ofSame (hstore.directory _ _) (Nat.le_refl _) (Nat.le_of_lt hnext) rfl, ?_⟩
    rintro _ ⟨⟩
    exact ⟨b.id, rfl, hnext⟩
  · exact ⟨.refl w, by rintro _ ⟨⟩⟩

theorem advances_behaved :
    Behaved (Site.environment (Builtin.code store host)) (Advances store) where
  refl := .refl
  trans := .trans
  code :=
    { create factory w := (create_advances hstore host factory w).1
      activate object w := update_advances hstore (Builtin.activate (host w.outside)) object w
      deactivate object w := update_advances hstore Builtin.deactivate object w
      title _ := .refl
      category _ := .refl
      init object config w := update_advances hstore (Builtin.init config) object w
      destroy object w := update_advances hstore Builtin.destroy object w }

/-! ## Taking a component and giving it back -/

def Novel (store : Builtin.Store (Site π)) (w : World (Site π)) (found : Option Component)
    (w' : World (Site π)) : Prop :=
  Advances store w w' ∧ ∀ c, found = some c →
    c.Issued w'.serial (store.count w'.outside) ∧ ¬ c.Issued w.serial (store.count w.outside)

omit hstore in
theorem Novel.none (h : Advances store w w') : Novel store w .none w' :=
  ⟨h, fun _ hc => nomatch hc⟩

theorem report_advances (id : EntryId) (n : Notice) :
    (report id n : Act (Site π) Unit).Respects (Advances store) := by
  have h := advances_behaved hstore fun _ => ""
  refine h.entry_bind id fun e => ?_
  split
  · exact h.bind (Advances.modifyEntry id _) fun _ w =>
      .ofSame rfl (Nat.le_refl _) (Nat.le_refl _) rfl
  · exact h.pure _

theorem acquireService_novel (hhandling : w.outside.directory.Handling) (id : EntryId)
    (label : String) (r : Reference) :
    Ends (acquireService (Site.environment (Builtin.code store host)) id label r) w
      (Novel store w) := by
  have hgiven : ∀ given s,
      (Site.environment (Builtin.code store host)).directory.getService r w.outside = (given, s) →
      Advances store w (w.withOutside s) ∧ ∀ o, given = some o → ∃ object, o = .handler object := by
    rintro _ _ ⟨⟩
    cases hfound : w.outside.directory.find? r.id with
    | none => exact ⟨advances_directory hstore fun h => h, by rintro _ ⟨⟩⟩
    | some service =>
      refine ⟨advances_directory hstore fun h => ?_, ?_⟩
      · exact Directory.handling_modifyService (fun _ => by rfl) r.id h
      · rintro _ ⟨⟩
        exact hhandling service (Directory.mem_of_find? hfound)
  unfold acquireService
  simp only [ends_bind, ends_outside]
  rcases hget : (Site.environment (Builtin.code store host)).directory.getService r w.outside with
    ⟨given, s⟩
  obtain ⟨hadvances, hhandler⟩ := hgiven given s hget
  rcases given with _ | o
  · exact .none hadvances
  obtain ⟨object, rfl⟩ := hhandler o rfl
  simp only [ends_bind, ends_freshSerial, ends_pure]
  refine ⟨hadvances.trans (.ofSame rfl (Nat.le_succ _) (Nat.le_refl _) rfl), ?_⟩
  rintro _ ⟨⟩
  exact ⟨Nat.lt_succ_self w.serial, Nat.lt_irrefl w.serial⟩

theorem instantiate_novel (id : EntryId) (factory : String) (known : Bool) (w : World (Site π)) :
    Ends (instantiate (Site.environment (Builtin.code store host)) id factory known) w
      fun made w' => Novel store w made.toOption w' := by
  have h := advances_behaved hstore host
  unfold instantiate
  split
  · exact .none (.refl w)
  simp only [ends_bind, ends_record]
  have hnoted : Advances store w (w.recorded id (.create factory)) := .recorded id (by simp) w
  refine (create_advances hstore host factory _).imp ?_
  rintro (f | object) w₁ ⟨hcreated, hmade⟩
  · exact .none (hnoted.trans hcreated)
  obtain ⟨name, rfl, hnext⟩ := hmade object rfl
  have hthere := hnoted.trans hcreated
  -- Whatever is done with the new object does not take its number away.
  have hnovel {w' : World (Site π)} (hlater : Advances store w₁ w') :
      Novel store w (some (.plugin (.made name (store.count w.outside)))) w' := by
    refine ⟨hthere.trans hlater, ?_⟩
    rintro _ ⟨⟩
    exact ⟨Nat.lt_of_lt_of_le hnext hlater.count, Nat.lt_irrefl (store.count w.outside)⟩
  dsimp only
  split
  · exact hnovel (.refl w₁)
  simp only [ends_bind, ends_record]
  have htold (object : Instance) : Advances store w₁ (w₁.recorded id (.activate object)) :=
    .recorded id (by simp) w₁
  refine ((h.code.activate _).ends _).imp fun done w₂ hactivated => ?_
  rcases done with f | _
  · exact .none (hthere.trans ((htold _).trans hactivated))
  · exact hnovel ((htold _).trans (hactivated.trans (.recorded id (by simp) w₂)))

theorem acquireDirect_novel (id : EntryId) (factory : String) (known : Bool)
    (w : World (Site π)) :
    Ends (acquireDirect (Site.environment (Builtin.code store host)) id factory known) w
      (Novel store w) := by
  unfold acquireDirect
  simp only [ends_bind, ends_get]
  split
  · simp only [ends_bind]
    exact ((report_advances hstore id _).ends w).imp fun _ _ h => .none h
  simp only [ends_bind]
  refine (instantiate_novel hstore host id factory known w).imp ?_
  rintro (f | c) w₁ ⟨hadvances, hissued⟩
  · simp only [ends_bind]
    exact ((report_advances hstore id _).ends w₁).imp fun _ _ h => .none (hadvances.trans h)
  · exact ⟨hadvances.trans (.modifyEntry id _ w₁), hissued⟩

theorem acquire_novel (hhandling : w.outside.directory.Handling) (id : EntryId) :
    Ends (acquire (Site.environment (Builtin.code store host)) id) w (Novel store w) := by
  unfold acquire
  simp only [ends_bind, ends_entry]
  split
  · exact acquireService_novel hstore host hhandling id _ _
  · exact acquireDirect_novel hstore host id _ _ w

theorem release_advances (id : EntryId) (c : Component) :
    (release (Site.environment (Builtin.code store host)) id c).Respects (Advances store) := by
  have h := advances_behaved hstore host
  have hrecord {event : EntryEvent} (hother : ∀ c, event ≠ .acquired c) :
      (record id event : Act (Site π) Unit).Respects (Advances store) := .recorded id hother
  refine h.bind (hrecord (by simp)) fun _ => h.entry_bind id fun e => ?_
  split
  · refine h.bind (hrecord (by simp)) fun _ w => advances_directory hstore fun hd => ?_
    exact Directory.handling_modifyService (fun _ => by rfl) _ hd
  split
  · split
    · refine h.bind (hrecord (by simp)) fun _ => h.bind (h.code.deactivate _) fun done => ?_
      rcases done with f | _
      · exact fun w => .ofSame rfl (Nat.le_refl _) (Nat.le_refl _) rfl
      · exact h.pure _
    · exact h.pure _
  · exact h.pure _

/-! ## Asking -/

theorem resolve_numbered (hnumbered : Numbered store w) (id : EntryId) :
    Ends (resolve (Site.environment (Builtin.code store host)) id) w fun _ w' =>
      Numbered store w' := by
  unfold resolve
  simp only [ends_bind, ends_entry]
  split
  · exact hnumbered
  split
  · exact hnumbered
  simp only [ends_bind]
  refine (acquire_novel hstore host hnumbered.handling id).imp ?_
  rintro (_ | c) w₁ ⟨hadvances, hissued⟩
  · exact hnumbered.advances (hadvances.trans (.modifyEntry id _ w₁))
  obtain ⟨hissued, hnew⟩ := hissued c rfl
  have htaken := hnumbered.acquired hadvances hissued hnew id
  simp only [ends_bind, ends_record, ends_entry]
  generalize w₁.recorded id (.acquired c) = w₂ at htaken ⊢
  have hreturned : Ends (release (Site.environment (Builtin.code store host)) id c) w₂
      fun _ w' => Numbered store w' := htaken.advances (release_advances hstore host id c w₂)
  split
  · exact hreturned
  split
  · exact hreturned
  · exact htaken.advances (.modifyEntry id _ w₂)

theorem numbered_asked (id : EntryId) : Asked (Site.environment (Builtin.code store host)) id
    fun w w' => Numbered store w → Numbered store w' where
  refl _ h := h
  trans h h' hnumbered := h' (h hnumbered)
  code := (advances_behaved hstore host).code.mono fun _ _ h hnumbered => hnumbered.advances h
  log _ _ hnumbered := hnumbered.advances (.ofSame rfl (Nat.le_refl _) (Nat.le_refl _) rfl)
  turn w event hturn hnumbered := hnumbered.advances (.recorded id (by rintro c rfl; exact hturn) w)
  write w _ _ _ _ hnumbered := hnumbered.advances (.modifyEntry id _ w)
  resolve _ hnumbered := resolve_numbered hstore host hnumbered id

theorem numbered_queried : Queried (Site.environment (Builtin.code store host)) (fun _ => True)
    (fun _ _ => True) fun w w' => Numbered store w → Numbered store w' where
  refl _ h := h
  trans h h' hnumbered := h' (h hnumbered)
  aside _ _ hnumbered := hnumbered.advances (.ofSame rfl (Nat.le_refl _) (Nat.le_refl _) rfl)
  stays _ _ := trivial
  keeps _ _ := trivial
  listed _ _ _ := trivial
  component {w id} _ := (numbered_asked hstore host id).component w
  title {w id} _ := (numbered_asked hstore host id).title w
  category {w id} _ := (numbered_asked hstore host id).category w

end Code

end PluginConsole
