import PluginConsole.Proofs.Lifecycle.Move
import PluginConsole.Registry.Lifecycle

/-!
# What an entry does is a course of moves

One statement for each function of an entry, under code that does not come back: whatever an entry
is called for, it only makes moves.
-/

open Relation (ReflTransGen)

namespace PluginConsole.Lifecycle

open Act

variable {σ δ : Type} {env : Environment σ} {view : σ → δ} {id : EntryId} {w w' : World σ}

/-! ## Small courses -/

theorem Idle.moves (h : Idle view id w w') : Moves env view id w w' :=
  .single (.idle h)

theorem idle_log (log : List Notice) (w : World σ) : Idle view id w { w with log } :=
  .aside w log w.serial w.inHand

theorem SameSlot.ofFlags {f : Entry → Entry} (h : ∀ e, f e = { e with
    title := (f e).title, category := (f e).category, broken := (f e).broken
    armed := (f e).armed }) (e : Entry) : Entry.SameSlot e (f e) := by
  rw [h e]
  exact ⟨rfl, rfl, rfl, rfl⟩

section Calls

variable (hcode : env.code.Spares view) (c : Component)
include hcode

theorem callTitle_spares : (callTitle env c).Spares view := by
  cases c with
  | plugin object => exact hcode.title object
  | adapted => exact fun w => ⟨w.outside, rfl, rfl⟩

theorem callCategory_spares : (callCategory env c).Spares view := by
  cases c with
  | plugin object => exact hcode.category object
  | adapted => exact fun w => ⟨w.outside, rfl, rfl⟩

theorem callInit_spares (config : InitConfig) : (callInit env c config).Spares view := by
  cases c with
  | plugin object => exact hcode.init object config
  | adapted _ handler => exact hcode.init handler config

theorem callDestroy_spares : (callDestroy env c).Spares view := by
  cases c with
  | plugin object => exact hcode.destroy object
  | adapted _ handler => exact hcode.destroy handler

end Calls

/-! ## Finding a component -/

def Found (env : Environment σ) (view : σ → δ) (id : EntryId) (w : World σ)
    (found : Option Component) (w' : World σ) : Prop :=
  match found with
  | none => Moves env view id w w'
  | some c => ∃ w₁, Moves env view id w w₁ ∧ w₁.entry id = w.entry id ∧ Acquired env id c w₁ w'

theorem report_spec (n : Notice) (w : World σ) :
    Ends (report id n) w fun _ w' => Moves env view id w w' := by
  unfold report
  simp only [ends_bind, ends_entry]
  split
  · simp only [ends_bind, ends_modifyEntry, ends_note]
    have hflag : Idle view id w (w.modifyEntry id fun e => { e with armed := false }) :=
      .remember w (SameSlot.ofFlags fun _ => rfl)
    exact hflag.moves.tail (.idle (idle_log _ _))
  · exact .refl

theorem acquireService_spec {r : Reference} (hlive : (w.entry id).disposed = false)
    (hsource : (w.entry id).source = .directory r) :
    Ends (acquireService env id (w.entry id).label r) w (Found env view id w) := by
  unfold acquireService
  simp only [ends_bind, ends_outside]
  rcases hget : env.directory.getService r w.outside with ⟨given, s⟩
  rcases given with _ | object | object | _
  · exact .single (.miss hsource hget)
  · exact ⟨w, .refl, rfl, .plugin hsource hget⟩
  · exact ⟨w, .refl, rfl, .handler hsource hget⟩
  · exact .single (.refuse hlive hsource hget)

def Made (env : Environment σ) (view : σ → δ) (id : EntryId) (w : World σ)
    (made : Except Fault Component) (w' : World σ) : Prop :=
  match made with
  | .error _ => Moves env view id w w'
  | .ok c => ∃ w₁ object, c = .plugin object ∧ Moves env view id w w₁ ∧
    w₁.entry id = w.entry id ∧ (w' = w₁ ∨ w' = w₁.recorded id (.activated object))

theorem instantiate_spec (hcode : env.code.Spares view)
    (hlive : (w.entry id).disposed = false) (factory : String) (known : Bool) :
    Ends (instantiate env id factory known) w (Made env view id w) := by
  unfold instantiate
  split
  · exact .refl
  simp only [ends_bind, ends_record]
  refine (hcode.create factory).ends fun made s hs => ?_
  have hcreated : Moves env view id w ((w.recorded id (.create factory)).withOutside s) :=
    (ReflTransGen.single (.create factory hlive)).tail (.idle (.call hs))
  rcases made with f | object
  · exact hcreated
  dsimp only
  split
  · exact ⟨_, object, rfl, hcreated, rfl, Or.inl rfl⟩
  simp only [ends_bind, ends_record]
  refine (hcode.activate object).ends fun done s' hs' => ?_
  have hactivated := (hcreated.tail (.activate object hlive)).tail (.idle (.call hs'))
  rcases done with f | _
  · exact hactivated
  · exact ⟨_, object, rfl, hactivated, rfl, Or.inr rfl⟩

theorem acquireDirect_spec (hcode : env.code.Spares view)
    (hlive : (w.entry id).disposed = false) {factory : String} {known : Bool}
    (hsource : (w.entry id).source = .direct factory known) :
    Ends (acquireDirect env id factory known) w (Found env view id w) := by
  unfold acquireDirect
  simp only [ends_bind, ends_get]
  split
  · simp only [ends_bind]
    exact report_spec _ w
  simp only [ends_bind]
  refine (instantiate_spec hcode hlive factory known).imp ?_
  rintro (f | c) w' h
  · simp only [ends_bind]
    exact (report_spec _ w').imp fun _ _ h' => ReflTransGen.trans h h'
  · obtain ⟨w₁, object, rfl, hmoves, hentry, rfl | rfl⟩ := h
    · exact ⟨_, hmoves, hentry, .made object (hentry ▸ hsource)⟩
    · exact ⟨_, hmoves, hentry, .activated object (hentry ▸ hsource)⟩

theorem acquire_spec (hcode : env.code.Spares view) (hlive : (w.entry id).disposed = false) :
    Ends (acquire env id) w (Found env view id w) := by
  unfold acquire
  simp only [ends_bind, ends_entry]
  split
  · rename_i r hsource
    exact acquireService_spec hlive hsource
  · rename_i factory known hsource
    exact acquireDirect_spec hcode hlive hsource

theorem Acquired.entry {c : Component} (h : Acquired env id c w w') :
    Entry.SameSlot (w.entry id) (w'.entry id) := by
  have harm : ∀ w : World σ, Entry.SameSlot (w.entry id) ((w.modifyEntry id Entry.arm).entry id) := by
    intro w
    rcases World.entry_modifyEntry_cases id Entry.arm w with he | he <;> rw [he]
    · exact ⟨rfl, rfl, rfl, rfl⟩
    · exact .refl _
  cases h with
  | plugin | handler => exact .refl _
  | made => exact harm w
  | activated => exact harm (w.recorded id _)

/-- The entry is alive and has this component. -/
def Has (id : EntryId) (c : Component) (w : World σ) : Prop :=
  (w.entry id).disposed = false ∧ ∃ x, (w.entry id).warm = some x ∧ x.component = c

theorem resolve_of_warm {x : Warm} (hlive : (w.entry id).disposed = false)
    (hwarm : (w.entry id).warm = some x) : resolve env id w = (some x.component, w) := by
  have h : Ends (resolve env id) w fun found w' => (found, w') = (some x.component, w) := by
    unfold resolve
    simp [hlive, hwarm]
  exact h

theorem resolve_of_disposed (hdisposed : (w.entry id).disposed = true) :
    resolve env id w = (none, w) := by
  have h : Ends (resolve env id) w fun found w' => (found, w') = (none, w) := by
    unfold resolve
    simp [hdisposed]
  exact h

theorem resolve_spec (hcode : env.code.Spares view) (hid : id < w.entries.length) :
    Ends (resolve env id) w fun found w' =>
      Moves env view id w w' ∧ ∀ c, found = some c → Has id c w' := by
  by_cases hdisposed : (w.entry id).disposed = true
  · exact Ends.of_eq (resolve_of_disposed hdisposed) ⟨.refl, by simp⟩
  have hlive : (w.entry id).disposed = false := by simpa using hdisposed
  cases hwarm : (w.entry id).warm with
  | some x =>
    refine Ends.of_eq (resolve_of_warm hlive hwarm) ⟨.refl, ?_⟩
    rintro _ ⟨⟩
    exact ⟨hlive, x, hwarm, rfl⟩
  | none =>
    unfold resolve
    simp only [ends_bind, ends_entry, hlive, hwarm, Bool.false_eq_true, if_false]
    refine (acquire_spec hcode hlive).imp ?_
    rintro (_ | c) w' h
    · simp only [ends_bind, ends_modifyEntry, ends_pure]
      have hflag : Idle view id w' (w'.modifyEntry id fun e => { e with broken := true }) :=
        .remember w' (SameSlot.ofFlags fun _ => rfl)
      exact ⟨h.tail (.idle hflag), by simp⟩
    · obtain ⟨w₁, hmoves, hentry, hacquired⟩ := h
      have hslot := hacquired.entry
      rw [hentry] at hslot
      have hid' : id < w'.entries.length := by
        rw [hacquired.frame.length, hmoves.frame.length]
        exact hid
      -- Nothing came in between, so the component takes its place.
      simp only [ends_bind, ends_record, ends_entry, World.entry_recorded, hslot.disposed, hlive,
        hslot.warm, hwarm, Bool.false_eq_true, if_false, ends_modifyEntry, ends_pure]
      refine ⟨hmoves.tail (.acquire (hentry ▸ hwarm) (hentry ▸ hlive) hacquired), ?_⟩
      rintro _ ⟨⟩
      unfold Has
      rw [World.entry_modifyEntry_self _ _ (by simpa [World.recorded] using hid')]
      exact ⟨hslot.disposed.trans hlive, _, rfl, rfl⟩

/-! ## Initialization -/

theorem same_self (c : Component) : c.same c = true := by
  cases c <;> simp [Component.same]

structure BoundNow (id : EntryId) (x : Warm) (ref : ContextRef) (w : World σ) : Prop where
  warm : (w.entry id).warm = some x
  context : w.context = some ref
  bound : x.bound.any (·.serial == ref.serial) = true

theorem ends_claimBinding {post : Bool → World σ → Prop} {x : Warm}
    (hwarm : (w.entry id).warm = some x) (ref : ContextRef) :
    Ends (claimBinding id x.component ref) w post ↔
      if x.bound.any (·.serial == ref.serial) = true then post false w
      else post true (w.modifyEntry id (Entry.bindTo x.component (some ref))) := by
  unfold claimBinding
  simp only [ends_bind, ends_entry, hwarm, same_self, Bool.not_true, Bool.false_eq_true, if_false]
  split
  · exact Iff.rfl
  · exact Iff.rfl

theorem componentNamed_of_bound {x : Warm} {ref : ContextRef} (titleOf : Act σ String)
    (hlive : (w.entry id).disposed = false) (h : BoundNow id x ref w) :
    componentNamed env titleOf id w = (some x.component, w) := by
  have hends : Ends (componentNamed env titleOf id) w fun found w' =>
      (found, w') = (some x.component, w) := by
    unfold componentNamed
    rw [ends_bind]
    refine Ends.of_eq (resolve_of_warm hlive h.warm) ?_
    simp only [ends_bind, ends_get, h.context]
    rw [ends_claimBinding h.warm, if_pos h.bound]
    simp
  exact hends

theorem componentNamed_of_disposed (titleOf : Act σ String)
    (hdisposed : (w.entry id).disposed = true) :
    componentNamed env titleOf id w = (none, w) := by
  have hends : Ends (componentNamed env titleOf id) w fun found w' =>
      (found, w') = (none, w) := by
    unfold componentNamed
    rw [ends_bind]
    exact Ends.of_eq (resolve_of_disposed hdisposed) rfl
  exact hends

/-- `titleOf` finds a title of a component that is bound already, without touching it. -/
def Names (view : σ → δ) (id : EntryId) (titleOf : Act σ String) : Prop :=
  ∀ w x ref, BoundNow id x ref w →
    Ends titleOf w fun _ w' => ReflTransGen (Naming view id x.component) w w'

theorem names_pure (view : σ → δ) (id : EntryId) (label : String) :
    Names view id (pure label : Act σ String) :=
  fun _ _ _ _ => .refl

theorem initComponent_spec (hcode : env.code.Spares view) {titleOf : Act σ String}
    (hnames : Names view id titleOf) (hid : id < w.entries.length) {x : Warm} {ref : ContextRef}
    (hwarm : (w.entry id).warm = some x) (hcontext : w.context = some ref)
    (hnew : x.bound.any (·.serial == ref.serial) = false) :
    Ends (initComponent env titleOf id x.component ref)
      (w.modifyEntry id (Entry.bindTo x.component (some ref))) fun _ w' =>
        Moves env view id w w' ∧ (w'.entry id).disposed = (w.entry id).disposed ∧
          (w'.entry id).warm = some ⟨x.component, some ref⟩ := by
  have hentry := World.entry_modifyEntry_self (Entry.bindTo x.component (some ref)) w hid
  have hbound : BoundNow id ⟨x.component, some ref⟩ ref
      (w.modifyEntry id (Entry.bindTo x.component (some ref))) :=
    ⟨by rw [hentry]; rfl, hcontext, by simp⟩
  unfold initComponent
  simp only [ends_bind]
  refine (hnames _ _ _ hbound).imp fun name w₁ hname => ?_
  simp only [ends_entry, ends_record]
  refine (callInit_spares hcode _ _).ends fun done s hs => ?_
  have hslot := Naming.slot hname
  rw [hentry] at hslot
  have hmoves : Moves env view id w _ :=
    (ReflTransGen.single (.init _ hwarm hcontext hnew hname)).tail (.idle (.call hs))
  rcases done with f | _ <;> exact ⟨hmoves, hslot.disposed, hslot.warm⟩

theorem componentNamed_spec (hcode : env.code.Spares view) {titleOf : Act σ String}
    (hnames : Names view id titleOf) (hid : id < w.entries.length) :
    Ends (componentNamed env titleOf id) w fun found w' =>
      Moves env view id w w' ∧ ∀ c, found = some c → Has id c w' := by
  unfold componentNamed
  simp only [ends_bind]
  refine (resolve_spec hcode hid).imp ?_
  rintro (_ | c) w₁ ⟨hmoves, hhas⟩
  · exact ⟨hmoves, by rintro _ ⟨⟩⟩
  obtain ⟨hlive, x, hwarm, rfl⟩ := hhas c rfl
  have hid₁ : id < w₁.entries.length := by rw [hmoves.frame.length]; exact hid
  have hstay : ∀ d, some x.component = some d → Has id d w₁ := by
    rintro _ ⟨⟩
    exact ⟨hlive, x, hwarm, rfl⟩
  simp only [ends_bind, ends_get]
  split
  · exact ⟨hmoves, hstay⟩
  rename_i ref hcontext
  simp only [ends_bind]
  rw [ends_claimBinding hwarm]
  split
  · exact ⟨hmoves, hstay⟩
  rename_i hnew
  simp only [if_true, ends_bind]
  refine (initComponent_spec hcode hnames hid₁ hwarm hcontext (by simpa using hnew)).imp ?_
  rintro (f | _) w₂ ⟨hinit, hlive₂, hwarm₂⟩
  · simp only [ends_bind, ends_entry, ends_note, ends_pure]
    refine ⟨(hmoves.trans hinit).tail (.idle (idle_log _ _)), ?_⟩
    rintro _ ⟨⟩
    exact ⟨hlive₂.trans hlive, _, hwarm₂, rfl⟩
  · refine ⟨hmoves.trans hinit, ?_⟩
    rintro _ ⟨⟩
    exact ⟨hlive₂.trans hlive, _, hwarm₂, rfl⟩

/-! ## Title and category -/

theorem idle_title (view : σ → δ) (id : EntryId) (t : Cached) (w : World σ) :
    Idle view id w (w.modifyEntry id fun e => { e with title := t }) :=
  .remember w (SameSlot.ofFlags fun _ => rfl)

theorem idle_category (view : σ → δ) (id : EntryId) (c : Cached) (w : World σ) :
    Idle view id w (w.modifyEntry id fun e => { e with category := c }) :=
  .remember w (SameSlot.ofFlags fun _ => rfl)

theorem resolveTitle_names (hcode : env.code.Spares view) {x : Warm} {ref : ContextRef}
    (h : BoundNow id x ref w) :
    Ends (resolveTitle env id) w fun _ w' => ReflTransGen (Naming view id x.component) w w' := by
  unfold resolveTitle
  simp only [ends_bind, ends_entry]
  split
  · exact .refl
  simp only [ends_bind]
  by_cases hdisposed : (w.entry id).disposed = true
  · refine Ends.of_eq (componentNamed_of_disposed _ hdisposed) ?_
    exact .refl
  · refine Ends.of_eq (componentNamed_of_bound _ (by simpa using hdisposed) h) ?_
    simp only [ends_bind, ends_record]
    refine (callTitle_spares hcode x.component).ends fun found s hs => ?_
    have hask : ReflTransGen (Naming view id x.component) w
        ((w.recorded id (.title x.component)).withOutside s) :=
      (ReflTransGen.single (.ask w)).tail (.idle (.call hs))
    rcases found with f | t <;> exact hask

theorem title_names (hcode : env.code.Spares view) (id : EntryId) :
    Names view id (title env id) := by
  intro w x ref h
  unfold title claimTitle
  simp only [ends_bind, ends_entry]
  split
  · exact .refl
  · exact .refl
  simp only [ends_bind, ends_modifyEntry, ends_pure]
  have hclaim := idle_title view id .inFlight w
  have hslot := hclaim.slot
  have hbound : BoundNow id x ref (w.modifyEntry id fun e => { e with title := .inFlight }) :=
    ⟨hslot.warm.trans h.warm, h.context, h.bound⟩
  refine (resolveTitle_names hcode hbound).imp fun found w₁ hname => ?_
  exact ((ReflTransGen.single (.idle hclaim)).trans hname).tail (.idle (idle_title view id _ w₁))

theorem resolveTitle_spec (hcode : env.code.Spares view) (hid : id < w.entries.length) :
    Ends (resolveTitle env id) w fun _ w' => Moves env view id w w' := by
  unfold resolveTitle
  simp only [ends_bind, ends_entry]
  split
  · exact .refl
  simp only [ends_bind]
  refine (componentNamed_spec hcode (names_pure view id _) hid).imp ?_
  rintro (_ | c) w' ⟨hmoves, hhas⟩
  · exact hmoves
  obtain ⟨-, x, hwarm, rfl⟩ := hhas c rfl
  simp only [ends_bind, ends_record]
  refine (callTitle_spares hcode x.component).ends fun found s hs => ?_
  have hask := (hmoves.tail (.title hwarm)).tail (.idle (.call hs))
  rcases found with f | t <;> exact hask

theorem title_spec (hcode : env.code.Spares view) (hid : id < w.entries.length) :
    Ends (title env id) w fun _ w' => Moves env view id w w' := by
  unfold title claimTitle
  simp only [ends_bind, ends_entry]
  split
  · exact .refl
  · exact .refl
  simp only [ends_bind, ends_modifyEntry, ends_pure]
  have hclaim := idle_title view id .inFlight w
  have hid' : id < (w.modifyEntry id fun e => { e with title := .inFlight }).entries.length := by
    rw [World.length_modifyEntry]
    exact hid
  refine (resolveTitle_spec hcode hid').imp fun found w₁ hmoves => ?_
  exact (hclaim.moves.trans hmoves).tail (.idle (idle_title view id _ w₁))

theorem component_spec (hcode : env.code.Spares view) (hid : id < w.entries.length) :
    Ends (component env id) w fun found w' =>
      Moves env view id w w' ∧ ∀ c, found = some c → Has id c w' :=
  componentNamed_spec hcode (title_names hcode id) hid

theorem resolveCategory_spec (hcode : env.code.Spares view) (hid : id < w.entries.length) :
    Ends (resolveCategory env id) w fun _ w' => Moves env view id w w' := by
  unfold resolveCategory
  simp only [ends_bind, ends_entry]
  split
  · exact .refl
  simp only [ends_bind]
  refine (component_spec hcode hid).imp ?_
  rintro (_ | c) w' ⟨hmoves, hhas⟩
  · exact hmoves
  obtain ⟨-, x, hwarm, rfl⟩ := hhas c rfl
  simp only [ends_bind, ends_record]
  refine (callCategory_spares hcode x.component).ends fun found s hs => ?_
  have hask := (hmoves.tail (.category hwarm)).tail (.idle (.call hs))
  rcases found with f | t <;> exact hask

theorem category_spec (hcode : env.code.Spares view) (hid : id < w.entries.length) :
    Ends (category env id) w fun _ w' => Moves env view id w w' := by
  unfold category claimCategory
  simp only [ends_bind, ends_entry]
  split
  · exact .refl
  · exact .refl
  simp only [ends_bind, ends_modifyEntry, ends_pure]
  have hclaim := idle_category view id .inFlight w
  have hid' : id < (w.modifyEntry id fun e => { e with category := .inFlight }).entries.length := by
    rw [World.length_modifyEntry]
    exact hid
  refine (resolveCategory_spec hcode hid').imp fun found w₁ hmoves => ?_
  exact (hclaim.moves.trans hmoves).tail (.idle (idle_category view id _ w₁))

/-! ## Attaching, detaching, disposing -/

theorem init_spec (hcode : env.code.Spares view) (hid : id < w.entries.length) {ref : ContextRef}
    (hcontext : w.context = some ref) :
    Ends (init env id ref) w fun _ w' => Moves env view id w w' := by
  unfold init
  simp only [ends_bind, ends_entry]
  split
  · exact .refl
  rename_i x hwarm
  simp only [ends_bind]
  rw [ends_claimBinding hwarm]
  split
  · exact .refl
  rename_i hnew
  simp only [if_true]
  exact (initComponent_spec hcode (title_names hcode id) hid hwarm hcontext
    (by simpa using hnew)).imp fun _ _ h => h.1

theorem destroy_spec (hcode : env.code.Spares view) (id : EntryId) (w : World σ) :
    Ends (destroy env id) w fun _ w' => Moves env view id w w' := by
  unfold destroy
  simp only [ends_bind, ends_entry]
  split
  · exact .refl
  rename_i x hwarm
  split
  · exact .refl
  rename_i ref hbound
  simp only [ends_bind, ends_modifyEntry, ends_record]
  refine (callDestroy_spares hcode x.component).ends fun done s hs => ?_
  have hwarm' : (w.entry id).warm = some ⟨x.component, some ref⟩ := by
    rw [hwarm, ← hbound]
  have hmoves : Moves env view id w _ :=
    (ReflTransGen.single (.destroy hwarm')).tail (.idle (.call hs))
  rcases done with f | _ <;> exact hmoves

theorem release_spec (hcode : env.code.Spares view) (id : EntryId) (c : Component) (w : World σ) :
    Ends (release env id c) w fun _ w' =>
      ∃ w₁, Released env id c w w₁ ∧ ReflTransGen (Idle view id) w₁ w' := by
  unfold release
  simp only [ends_bind, ends_entry, ends_record, World.entry_recorded]
  split
  · rename_i r hsource
    simp only [ends_bind, ends_record, ends_outside]
    exact ⟨_, .directory hsource, .refl⟩
  rename_i factory known hsource
  rcases c with object | ⟨_, _, _, _⟩
  · dsimp only
    split
    · simp only [ends_bind, ends_record]
      refine (hcode.deactivate object).ends fun done s hs => ?_
      have hcall : Idle view id _ (World.withOutside s _) := .call hs
      rcases done with f | _
      · exact ⟨_, .deactivated object hsource, (ReflTransGen.single hcall).tail (idle_log _ _)⟩
      · exact ⟨_, .deactivated object hsource, .single hcall⟩
    · exact ⟨_, .direct hsource, .refl⟩
  · exact ⟨_, .direct hsource, .refl⟩

theorem Idles.moves (h : ReflTransGen (Idle view id) w w') : Moves env view id w w' := by
  induction h with
  | refl => exact .refl
  | tail _ hstep ih => exact ih.tail (.idle hstep)

theorem over_shut (hid : id < w.entries.length) : Over id (w.modifyEntry id Entry.shut) := by
  constructor <;> rw [World.entry_modifyEntry_self _ _ hid] <;> rfl

theorem Idles.slot (h : ReflTransGen (Idle view id) w w') :
    Entry.SameSlot (w.entry id) (w'.entry id) := by
  induction h with
  | refl => exact .refl _
  | tail _ hstep ih => exact ih.trans hstep.slot

theorem Released.slot {c : Component} (h : Released env id c w w') :
    Entry.SameSlot (w.entry id) (w'.entry id) := by
  cases h <;> exact .refl _

theorem Parting.ended (h : Parting env view id w w') (hid : id < w.entries.length) :
    Over id w' := by
  have hover := over_shut hid
  cases h with
  | cold => exact hover
  | unbound _ h => exact hover.slot h.slot
  | @bound _ _ c _ _ hidle h =>
    have hover' : Over id ((w.modifyEntry id Entry.shut).recorded id (.destroy c)) :=
      ⟨hover.disposed, hover.cold⟩
    exact (hover'.slot (Idles.slot hidle)).slot h.slot

theorem dispose_spec (hcode : env.code.Spares view) (id : EntryId) (w : World σ) :
    Ends (dispose env id) w fun _ w' =>
      ∃ w₁, Parting env view id w w₁ ∧ ReflTransGen (Idle view id) w₁ w' := by
  unfold dispose
  simp only [ends_bind, ends_entry, ends_modifyEntry]
  split
  · rename_i hcold
    exact ⟨_, .cold hcold, .refl⟩
  rename_i x hwarm
  obtain ⟨c, _ | ref⟩ := x
  · simp only [Option.isSome_none, Bool.false_eq_true, if_false]
    refine (release_spec hcode id c _).imp ?_
    rintro _ w₂ ⟨w₁, hreleased, hidle⟩
    exact ⟨_, .unbound hwarm hreleased, hidle⟩
  -- The teardown comes first, and whatever it ends in, the component is released.
  have hrelease : ∀ w₁ : World σ,
      ReflTransGen (Idle view id) ((w.modifyEntry id Entry.shut).recorded id (.destroy c)) w₁ →
      Ends (release env id c) w₁ fun _ w' =>
        ∃ w₂, Parting env view id w w₂ ∧ ReflTransGen (Idle view id) w₂ w' := by
    intro w₁ hteardown
    refine (release_spec hcode id c w₁).imp ?_
    rintro _ w₃ ⟨w₂, hreleased, hidle⟩
    exact ⟨w₂, .bound hwarm hteardown hreleased, hidle⟩
  simp only [Option.isSome_some, if_true, ends_bind, ends_record]
  refine (callDestroy_spares hcode c).ends fun done s hs => ?_
  have hcall : Idle view id _ (World.withOutside s _) := .call hs
  rcases done with f | _
  · simp only [ends_bind, ends_note]
    exact hrelease _ ((ReflTransGen.single hcall).tail (idle_log _ _))
  · exact hrelease _ (.single hcall)

theorem dispose_moves (hcode : env.code.Spares view) (hid : id < w.entries.length) :
    Ends (dispose env id) w fun _ w' => Moves env view id w w' ∧ Over id w' := by
  refine (dispose_spec hcode id w).imp ?_
  rintro _ w' ⟨w₁, hparting, hidle⟩
  exact ⟨ReflTransGen.head (.part hparting) (Idles.moves hidle),
    (hparting.ended hid).slot (Idles.slot hidle)⟩

end PluginConsole.Lifecycle
