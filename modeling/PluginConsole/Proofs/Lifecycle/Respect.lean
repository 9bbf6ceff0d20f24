import PluginConsole.Proofs.Act
import PluginConsole.Registry.Lifecycle

/-!
# What entries respect

What the elementary steps of an entry and the code of plugins respect is respected by everything
that an entry does. The code may call back, as long as it respects the relation there as well.
-/

namespace PluginConsole

variable {σ δ α β : Type}

/-- Wherever the step starts, it ends in a related world. -/
def Act.Respects (R : World σ → World σ → Prop) (act : Act σ α) : Prop :=
  ∀ w, R w (act w).2

theorem Act.Respects.ends {R : World σ → World σ → Prop} {act : Act σ α} (h : act.Respects R)
    (w : World σ) : Act.Ends act w fun _ w' => R w w' := h w

structure PluginCode.Respects (R : World σ → World σ → Prop) (code : PluginCode σ) : Prop where
  create (factory : String) : (code.create factory).Respects R
  activate (object : Instance) : (code.activate object).Respects R
  deactivate (object : Instance) : (code.deactivate object).Respects R
  title (object : Instance) : (code.title object).Respects R
  category (object : Instance) : (code.category object).Respects R
  init (object : Instance) (config : InitConfig) : (code.init object config).Respects R
  destroy (object : Instance) : (code.destroy object).Respects R

theorem PluginCode.Respects.mono {R R' : World σ → World σ → Prop} {code : PluginCode σ}
    (h : code.Respects R) (hmono : ∀ w w', R w w' → R' w w') : code.Respects R' where
  create factory w := hmono _ _ (h.create factory w)
  activate object w := hmono _ _ (h.activate object w)
  deactivate object w := hmono _ _ (h.deactivate object w)
  title object w := hmono _ _ (h.title object w)
  category object w := hmono _ _ (h.category object w)
  init object config w := hmono _ _ (h.init object config w)
  destroy object w := hmono _ _ (h.destroy object w)

theorem PluginCode.Respects.and {R R' : World σ → World σ → Prop} {code : PluginCode σ}
    (h : code.Respects R) (h' : code.Respects R') :
    code.Respects fun w w' => R w w' ∧ R' w w' where
  create factory w := ⟨h.create factory w, h'.create factory w⟩
  activate object w := ⟨h.activate object w, h'.activate object w⟩
  deactivate object w := ⟨h.deactivate object w, h'.deactivate object w⟩
  title object w := ⟨h.title object w, h'.title object w⟩
  category object w := ⟨h.category object w, h'.category object w⟩
  init object config w := ⟨h.init object config w, h'.init object config w⟩
  destroy object w := ⟨h.destroy object w, h'.destroy object w⟩

theorem Act.Spares.respects {view : σ → δ} {act : Act σ α} (h : act.Spares view)
    {R : World σ → World σ → Prop}
    (hR : ∀ w s, view s = view w.outside → R w (w.withOutside s)) : act.Respects R := by
  intro w
  obtain ⟨s, hs, hw⟩ := h w
  rw [hw]
  exact hR w s hs

theorem PluginCode.Spares.respects {view : σ → δ} {code : PluginCode σ} (h : code.Spares view)
    {R : World σ → World σ → Prop}
    (hR : ∀ w s, view s = view w.outside → R w (w.withOutside s)) : code.Respects R where
  create factory := (h.create factory).respects hR
  activate object := (h.activate object).respects hR
  deactivate object := (h.deactivate object).respects hR
  title object := (h.title object).respects hR
  category object := (h.category object).respects hR
  init object config := (h.init object config).respects hR
  destroy object := (h.destroy object).respects hR

/-- A relation along which steps can be put together, and that calls into plugin code stay
within. -/
structure Behaved (env : Environment σ) (R : World σ → World σ → Prop) : Prop where
  refl (w : World σ) : R w w
  trans {a b c : World σ} (h : R a b) (h' : R b c) : R a c
  code : env.code.Respects R

namespace Behaved

open Act Lifecycle

variable {env : Environment σ} {R : World σ → World σ → Prop} (h : Behaved env R)
include h

theorem pure (a : α) : (Pure.pure a : Act σ α).Respects R := h.refl

theorem bind {x : Act σ β} {f : β → Act σ α} (hx : x.Respects R) (hf : ∀ b, (f b).Respects R) :
    (x >>= f).Respects R :=
  fun w => h.trans (hx w) (hf _ _)

theorem get_bind {f : World σ → Act σ α} (hf : ∀ w, (f w).Respects R) :
    (get >>= f).Respects R :=
  h.bind h.refl hf

theorem entry_bind {f : Entry → Act σ α} (id : EntryId) (hf : ∀ e, (f e).Respects R) :
    (entry id >>= f).Respects R :=
  h.bind h.refl hf

theorem callTitle (c : Component) : (callTitle env c).Respects R := by
  cases c with
  | plugin object => exact h.code.title object
  | adapted => exact h.pure _

theorem callCategory (c : Component) : (callCategory env c).Respects R := by
  cases c with
  | plugin object => exact h.code.category object
  | adapted => exact h.pure _

theorem callInit (c : Component) (config : InitConfig) : (callInit env c config).Respects R := by
  cases c with
  | plugin object => exact h.code.init object config
  | adapted _ handler => exact h.code.init handler config

theorem callDestroy (c : Component) : (callDestroy env c).Respects R := by
  cases c with
  | plugin object => exact h.code.destroy object
  | adapted _ handler => exact h.code.destroy handler

/-! ## The category -/

theorem category {id : EntryId} (hcomponent : (component env id).Respects R)
    (hask : ∀ (w : World σ) c, R w (w.recorded id (.category c)))
    (hwrite : ∀ (w : World σ) category, R w (w.modifyEntry id fun e => { e with category })) :
    (category env id).Respects R := by
  have hresolve : (resolveCategory env id).Respects R := by
    refine h.entry_bind id fun e => ?_
    split
    · exact h.pure _
    refine h.bind hcomponent fun found => ?_
    rcases found with _ | c
    · exact h.pure _
    refine h.bind (fun w => hask w c) fun _ => h.bind (h.callCategory c) fun found => ?_
    rcases found with f | t <;> exact h.pure _
  have hclaim : (claimCategory id : Act σ Claim).Respects R := by
    refine h.entry_bind id fun e => ?_
    split
    · exact h.pure _
    · exact h.pure _
    · exact h.bind (fun w => hwrite w .inFlight) fun _ => h.pure _
  refine h.bind hclaim fun claim => ?_
  cases claim with
  | hit c => exact h.pure _
  | inFlight => exact h.pure _
  | claimed =>
    refine h.bind hresolve fun found => h.bind (fun w => ?_) fun _ => h.pure _
    exact hwrite w _

end Behaved

/-! ## Initialization -/

structure Initiated (env : Environment σ) (id : EntryId) (R : World σ → World σ → Prop) : Prop
    extends Behaved env R where
  log (w : World σ) (log : List Notice) : R w { w with log }
  tells (w : World σ) (c : Component) (ref : ContextRef) (config : InitConfig) :
    R w (w.recorded id (.init c ref config))
  claimBinding (c : Component) (ref : ContextRef) :
    (Lifecycle.claimBinding id c ref : Act σ Bool).Respects R

namespace Initiated

open Act Lifecycle

variable {env : Environment σ} {id : EntryId} {R : World σ → World σ → Prop}
variable (h : Initiated env id R) {titleOf : Act σ String} (htitle : titleOf.Respects R)
include h htitle

theorem initComponent (c : Component) (ref : ContextRef) :
    (initComponent env titleOf id c ref).Respects R := by
  refine h.bind htitle fun name => h.entry_bind id fun e => ?_
  refine h.bind (fun w => h.tells w c ref _) fun _ => h.bind (h.callInit c _) fun done => ?_
  rcases done with f | _ <;> exact h.pure _

theorem componentNamed_found (w : World σ) :
    Ends (componentNamed env titleOf id) w fun found w' =>
      found = (Lifecycle.resolve env id w).1 ∧ R (Lifecycle.resolve env id w).2 w' := by
  unfold Lifecycle.componentNamed
  rw [ends_bind]
  rcases hresolve : Lifecycle.resolve env id w with ⟨found, w₁⟩
  refine Ends.of_eq hresolve ?_
  rcases found with _ | c
  · exact ⟨rfl, h.refl w₁⟩
  simp only [ends_bind, ends_get]
  split
  · exact ⟨rfl, h.refl w₁⟩
  rename_i ref _
  have hclaim : Ends (Lifecycle.claimBinding id c ref) w₁ fun _ w₂ => R w₁ w₂ :=
    h.claimBinding c ref w₁
  rw [ends_bind]
  refine hclaim.imp fun claimed w₂ hclaimed => ?_
  cases claimed with
  | false => exact ⟨rfl, hclaimed⟩
  | true =>
    have hinit : Ends (Lifecycle.initComponent env titleOf id c ref) w₂ fun _ w₃ => R w₂ w₃ :=
      h.initComponent htitle c ref w₂
    simp only [if_true, ends_bind]
    refine hinit.imp fun done w₃ hdone => ?_
    rcases done with f | _
    · simp only [ends_bind, ends_entry, ends_note, ends_pure]
      exact ⟨trivial, h.trans (h.trans hclaimed hdone) (h.log w₃ _)⟩
    · exact ⟨rfl, h.trans hclaimed hdone⟩

theorem componentNamed (hresolve : (Lifecycle.resolve env id).Respects R) :
    (componentNamed env titleOf id).Respects R :=
  fun w => h.trans (hresolve w) (h.componentNamed_found htitle w).2

omit htitle in
theorem init (htitle : (Lifecycle.title env id).Respects R) (ref : ContextRef) :
    (init env id ref).Respects R := by
  refine h.entry_bind id fun e => ?_
  split
  · exact h.pure _
  refine h.bind (h.claimBinding _ ref) fun claimed => ?_
  cases claimed with
  | false => exact h.pure _
  | true => exact h.initComponent htitle _ ref

end Initiated

/-! ## Entries that are asked -/

structure Entry.SameHold (a b : Entry) : Prop where
  component : b.warm.map (·.component) = a.warm.map (·.component)
  disposed : b.disposed = a.disposed

def EntryEvent.IsTurn : EntryEvent → Prop
  | .title _ | .category _ | .init .. => True
  | _ => False

/-- Nothing that is done when one entry is asked breaks the relation, whatever the search for its
component comes to. -/
structure Asked (env : Environment σ) (id : EntryId) (R : World σ → World σ → Prop) : Prop
    extends Behaved env R where
  log (w : World σ) (log : List Notice) : R w { w with log }
  turn (w : World σ) {event : EntryEvent} (hturn : event.IsTurn) : R w (w.recorded id event)
  write (w : World σ) {f : Entry → Entry} (hlabel : ∀ e, (f e).label = e.label)
    (hsource : ∀ e, (f e).source = e.source)
    (hhold : Entry.SameHold (w.entry id) (f (w.entry id))) : R w (w.modifyEntry id f)
  resolve : (Lifecycle.resolve env id).Respects R

namespace Asked

open Act Lifecycle

variable {env : Environment σ} {id : EntryId} {R : World σ → World σ → Prop} (h : Asked env id R)
include h

theorem record {event : EntryEvent} (hturn : event.IsTurn) :
    (Act.record id event : Act σ Unit).Respects R :=
  fun w => h.turn w hturn

theorem claimBinding (c : Component) (ref : ContextRef) :
    (claimBinding id c ref : Act σ Bool).Respects R := by
  intro w
  show Ends (Lifecycle.claimBinding id c ref) w fun _ w' => R w w'
  unfold Lifecycle.claimBinding
  simp only [ends_bind, ends_entry]
  split
  · exact h.refl w
  rename_i warm hwarm
  split
  · exact h.refl w
  split
  · exact h.refl w
  · exact h.write w (fun _ => rfl) (fun _ => rfl) ⟨by rw [hwarm]; rfl, rfl⟩

theorem initiated : Initiated env id R where
  toBehaved := h.toBehaved
  log := h.log
  tells w _ _ _ := h.turn w trivial
  claimBinding := h.claimBinding

theorem componentNamed {titleOf : Act σ String} (htitle : titleOf.Respects R) :
    (componentNamed env titleOf id).Respects R :=
  h.initiated.componentNamed htitle h.resolve

/-! ## Title and category -/

theorem resolveTitle : (resolveTitle env id).Respects R := by
  refine h.entry_bind id fun e => ?_
  split
  · exact h.pure _
  refine h.bind (h.componentNamed (h.pure _)) fun found => ?_
  rcases found with _ | c
  · exact h.pure _
  refine h.bind (h.record trivial) fun _ => h.bind (h.callTitle c) fun found => ?_
  rcases found with f | t <;> exact h.pure _

theorem claimTitle : (claimTitle id : Act σ Claim).Respects R := by
  refine h.entry_bind id fun e => ?_
  split
  · exact h.pure _
  · exact h.pure _
  · refine h.bind (fun w => ?_) fun _ => h.pure _
    exact h.write w (fun _ => rfl) (fun _ => rfl) ⟨rfl, rfl⟩

theorem title : (title env id).Respects R := by
  refine h.entry_bind id fun e => h.bind h.claimTitle fun claim => ?_
  cases claim with
  | hit t => exact h.pure _
  | inFlight => exact h.pure _
  | claimed =>
    refine h.bind h.resolveTitle fun found => h.bind (fun w => ?_) fun _ => h.pure _
    exact h.write w (fun _ => rfl) (fun _ => rfl) ⟨rfl, rfl⟩

theorem component : (component env id).Respects R :=
  h.componentNamed h.title

theorem category : (category env id).Respects R := by
  refine h.toBehaved.category h.component (fun w c => h.turn w trivial) fun w c => ?_
  exact h.write w (fun _ => rfl) (fun _ => rfl) ⟨rfl, rfl⟩

theorem init (ref : ContextRef) : (init env id ref).Respects R :=
  h.initiated.init h.title ref

end Asked

/-! ## A component is taken, given back and torn down -/

def EntryEvent.IsSupply : EntryEvent → Prop
  | .title _ | .category _ | .init .. | .destroy _ => False
  | _ => True

namespace Behaved

open Act Lifecycle

variable {env : Environment σ} {id : EntryId} {R : World σ → World σ → Prop} (h : Behaved env R)
variable (hrecord : ∀ (w : World σ) {event : EntryEvent}, event.IsSupply →
  R w (w.recorded id event))
include h hrecord

theorem created (factory : String) (w : World σ) :
    R (w.recorded id (.create factory)) (Lifecycle.instantiate env id factory true w).2 := by
  show Ends (Lifecycle.instantiate env id factory true) w fun _ w' =>
    R (w.recorded id (.create factory)) w'
  unfold Lifecycle.instantiate
  rw [Bool.not_true, if_neg Bool.false_ne_true, ends_bind, ends_record]
  refine h.bind (h.code.create factory) (fun made => ?_) _
  rcases made with f | object
  · exact h.pure _
  dsimp only
  split
  · exact h.pure _
  refine h.bind (fun w => hrecord w trivial) fun _ => ?_
  refine h.bind (h.code.activate object) fun done => ?_
  rcases done with f | _
  · exact h.pure _
  · exact h.bind (fun w => hrecord w trivial) fun _ => h.pure _

theorem instantiate (factory : String) (known : Bool) :
    (instantiate env id factory known).Respects R := by
  intro w
  cases known with
  | false => exact h.refl w
  | true =>
    have hcall : (EntryEvent.create factory).IsSupply := trivial
    exact h.trans (hrecord w hcall) (h.created hrecord factory w)

end Behaved

structure Unnoticed (w w' : World σ) : Prop where
  entries : w'.entries = w.entries
  log : w'.log = w.log

theorem unnoticed_behaved {env : Environment σ} {view : σ → δ} (hcode : env.code.Spares view) :
    Behaved env Unnoticed where
  refl _ := ⟨rfl, rfl⟩
  trans h h' := ⟨h'.entries.trans h.entries, h'.log.trans h.log⟩
  code := hcode.respects fun _ _ _ => ⟨rfl, rfl⟩

/-- An object is made in silence, by code that does not come back. -/
theorem instantiate_unnoticed {env : Environment σ} {view : σ → δ} (hcode : env.code.Spares view)
    (id : EntryId) (factory : String) (known : Bool) :
    (Lifecycle.instantiate env id factory known).Respects Unnoticed :=
  (unnoticed_behaved hcode).instantiate (fun _ _ _ => ⟨rfl, rfl⟩) factory known

structure Entry.SameTitle (a b : Entry) : Prop where
  label : b.label = a.label
  source : b.source = a.source
  title : b.title = a.title
  disposed : a.disposed = true → b.disposed = true

structure Entry.SameTexts (a b : Entry) : Prop extends Entry.SameTitle a b where
  category : b.category = a.category

/-- Nothing that is done to find a component for one entry, or to give it back, breaks the
relation. -/
structure Supplied (env : Environment σ) (id : EntryId) (R : World σ → World σ → Prop) : Prop
    extends Behaved env R where
  log (w : World σ) (log : List Notice) : R w { w with log }
  records (w : World σ) {event : EntryEvent} (hsupply : event.IsSupply) :
    R w (w.recorded id event)
  count (w : World σ) : R w { w with serial := w.serial + 1 }
  write (w : World σ) {f : Entry → Entry} (hsame : ∀ e, Entry.SameTexts e (f e)) :
    R w (w.modifyEntry id f)
  getService (r : Reference) (w : World σ) :
    R w (w.withOutside (env.directory.getService r w.outside).2)
  releaseService (r : Reference) (w : World σ) :
    R w (w.withOutside (env.directory.releaseService r w.outside).2)

structure Dismantled (env : Environment σ) (id : EntryId) (R : World σ → World σ → Prop) : Prop
    extends Supplied env id R where
  destroys (w : World σ) (c : Component) : R w (w.recorded id (.destroy c))

namespace Supplied

open Act Lifecycle

variable {env : Environment σ} {id : EntryId} {R : World σ → World σ → Prop}
variable (h : Supplied env id R)
include h

theorem note (n : Notice) : (Act.note n : Act σ Unit).Respects R :=
  fun w => h.log w _

theorem record {event : EntryEvent} (hsupply : event.IsSupply) :
    (Act.record id event : Act σ Unit).Respects R :=
  fun w => h.records w hsupply

theorem modifyEntry {f : Entry → Entry} (hsame : ∀ e, Entry.SameTexts e (f e)) :
    (Act.modifyEntry id f : Act σ Unit).Respects R :=
  fun w => h.write w hsame

theorem acquireService (label : String) (r : Reference) :
    (acquireService env id label r).Respects R := by
  refine h.bind (h.getService r) fun given => ?_
  rcases given with _ | object | object | _
  · exact h.pure _
  · exact h.pure _
  · exact h.bind h.count fun _ => h.pure _
  · exact h.bind (h.record trivial) fun _ => h.bind (h.releaseService r) fun _ => h.pure _

theorem instantiate (factory : String) (known : Bool) :
    (instantiate env id factory known).Respects R :=
  h.toBehaved.instantiate h.records factory known

theorem report (n : Notice) : (report id n : Act σ Unit).Respects R := by
  refine h.entry_bind id fun e => ?_
  split
  · refine h.bind (h.modifyEntry fun _ => ⟨⟨rfl, rfl, rfl, fun hd => hd⟩, rfl⟩) fun _ => ?_
    exact h.note n
  · exact h.pure _

theorem acquireDirect (factory : String) (known : Bool) :
    (acquireDirect env id factory known).Respects R := by
  refine h.get_bind fun w => ?_
  split
  · exact h.bind (h.report _) fun _ => h.pure _
  refine h.bind (h.instantiate factory known) fun made => ?_
  rcases made with f | c
  · exact h.bind (h.report _) fun _ => h.pure _
  · exact h.bind (h.modifyEntry fun _ => ⟨⟨rfl, rfl, rfl, fun hd => hd⟩, rfl⟩) fun _ => h.pure _

theorem acquire : (acquire env id).Respects R := by
  refine h.entry_bind id fun e => ?_
  split
  · exact h.acquireService _ _
  · exact h.acquireDirect _ _

theorem release (c : Component) : (release env id c).Respects R := by
  refine h.bind (h.record trivial) fun _ => h.entry_bind id fun e => ?_
  split
  · exact h.bind (h.record trivial) fun _ => h.releaseService _
  rcases c with object | _
  · dsimp only
    split
    · refine h.bind (h.record trivial) fun _ => h.bind (h.code.deactivate object) fun done => ?_
      rcases done with f | _
      · exact h.note _
      · exact h.pure _
    · exact h.pure _
  · exact h.pure _

theorem resolve : (resolve env id).Respects R := by
  refine h.entry_bind id fun e => ?_
  split
  · exact h.pure _
  split
  · exact h.pure _
  refine h.bind h.acquire fun found => ?_
  rcases found with _ | fresh
  · exact h.bind (h.modifyEntry fun _ => ⟨⟨rfl, rfl, rfl, fun hd => hd⟩, rfl⟩) fun _ => h.pure _
  refine h.bind (h.record trivial) fun _ => h.entry_bind id fun e => ?_
  split
  · exact h.bind (h.release fresh) fun _ => h.pure _
  split
  · exact h.bind (h.release fresh) fun _ => h.pure _
  · exact h.bind (h.modifyEntry fun _ => ⟨⟨rfl, rfl, rfl, fun hd => hd⟩, rfl⟩) fun _ => h.pure _

theorem claimBinding (c : Component) (ref : ContextRef) :
    (claimBinding id c ref : Act σ Bool).Respects R := by
  refine h.entry_bind id fun e => ?_
  split
  · exact h.pure _
  split
  · exact h.pure _
  split
  · exact h.pure _
  · exact h.bind (h.modifyEntry fun _ => ⟨⟨rfl, rfl, rfl, fun hd => hd⟩, rfl⟩) fun _ => h.pure _

end Supplied

namespace Dismantled

open Act Lifecycle

variable {env : Environment σ} {id : EntryId} {R : World σ → World σ → Prop}
variable (h : Dismantled env id R)
include h

theorem tearDown (c : Component) : (Act.record id (.destroy c) : Act σ Unit).Respects R :=
  fun w => h.destroys w c

theorem destroy : (destroy env id).Respects R := by
  refine h.entry_bind id fun e => ?_
  split
  · exact h.pure _
  split
  · exact h.pure _
  refine h.bind (h.modifyEntry fun _ => ⟨⟨rfl, rfl, rfl, fun hd => hd⟩, rfl⟩) fun _ => ?_
  refine h.bind (h.tearDown _) fun _ => h.bind (h.callDestroy _) fun done => ?_
  rcases done with f | _ <;> exact h.pure _

theorem dispose_shut (w : World σ) : Ends (dispose env id) w fun _ w' =>
    R (w.modifyEntry id fun e => { e with disposed := true, warm := none }) w' := by
  unfold Lifecycle.dispose
  simp only [ends_bind, ends_entry, ends_modifyEntry]
  split
  · exact h.refl _
  rename_i x _
  split
  · refine h.bind (h.tearDown _) (fun _ => h.bind (h.callDestroy _) fun done => ?_) _
    rcases done with f | _
    · exact h.bind (h.note _) fun _ => h.release _
    · exact h.release _
  · exact h.release _ _

theorem dispose : (dispose env id).Respects R := by
  intro w
  have hshut : R w (w.modifyEntry id fun e => { e with disposed := true, warm := none }) :=
    h.write w fun _ => ⟨⟨rfl, rfl, rfl, fun _ => rfl⟩, rfl⟩
  exact h.trans hshut (h.dispose_shut w)

end Dismantled

/-- Nothing that is done with the component of one entry breaks the relation, as far as it is not
asked for its title. -/
structure Conversant (env : Environment σ) (id : EntryId) (R : World σ → World σ → Prop) : Prop
    extends Dismantled env id R where
  tells (w : World σ) (c : Component) (ref : ContextRef) (config : InitConfig) :
    R w (w.recorded id (.init c ref config))
  sorts (w : World σ) (c : Component) : R w (w.recorded id (.category c))

namespace Conversant

open Act Lifecycle

variable {env : Environment σ} {id : EntryId} {R : World σ → World σ → Prop}
variable (h : Conversant env id R)
include h

theorem initiated : Initiated env id R where
  toBehaved := h.toBehaved
  log := h.log
  tells := h.tells
  claimBinding := h.toSupplied.claimBinding

theorem componentNamed {titleOf : Act σ String} (htitle : titleOf.Respects R) :
    (componentNamed env titleOf id).Respects R :=
  h.initiated.componentNamed htitle h.toSupplied.resolve

variable (htitle : (Lifecycle.title env id).Respects R)
include htitle

theorem component : (component env id).Respects R :=
  h.componentNamed htitle

theorem category
    (hwrite : ∀ (w : World σ) category, R w (w.modifyEntry id fun e => { e with category })) :
    (category env id).Respects R :=
  h.toBehaved.category (h.component htitle) h.sorts hwrite

theorem init (ref : ContextRef) : (init env id ref).Respects R :=
  h.initiated.init htitle ref

end Conversant

/-! ## Whatever an entry does -/

structure Inquired (env : Environment σ) (R : World σ → World σ → Prop) : Prop
    extends Behaved env R where
  aside (w : World σ) (log : List Notice) (inHand : List EntryId) : R w { w with log, inHand }
  records (w : World σ) (id : EntryId) {event : EntryEvent} (hmild : ∀ c, event ≠ .destroy c) :
    R w (w.recorded id event)
  count (w : World σ) : R w { w with serial := w.serial + 1 }
  write (w : World σ) (id : EntryId) {f : Entry → Entry} (hlabel : ∀ e, (f e).label = e.label)
    (hsource : ∀ e, (f e).source = e.source) : R w (w.modifyEntry id f)
  getService (r : Reference) (w : World σ) :
    R w (w.withOutside (env.directory.getService r w.outside).2)
  releaseService (r : Reference) (w : World σ) :
    R w (w.withOutside (env.directory.releaseService r w.outside).2)

/-- Nothing that an entry does by itself or has done for it breaks the relation. -/
structure Respected (env : Environment σ) (R : World σ → World σ → Prop) : Prop
    extends Inquired env R where
  destroys (w : World σ) (id : EntryId) (c : Component) : R w (w.recorded id (.destroy c))

namespace Inquired

open Act Lifecycle

variable {env : Environment σ} {R : World σ → World σ → Prop} (h : Inquired env R)
include h

theorem note (n : Notice) : (Act.note n : Act σ Unit).Respects R :=
  fun w => h.aside w _ w.inHand

theorem holding {act : Act σ α} (ids : List EntryId) (hact : act.Respects R) :
    (holding ids act).Respects R := by
  intro w
  refine h.trans (h.aside w w.log (ids ++ w.inHand)) (h.trans (hact _) ?_)
  exact h.aside _ _ _

theorem supplied (id : EntryId) : Supplied env id R where
  toBehaved := h.toBehaved
  log w log := h.aside w log w.inHand
  records w event hsupply := h.records w id fun c heq => by
    subst heq
    exact hsupply
  count := h.count
  write w _ hsame := h.write w id (fun e => (hsame e).label) fun e => (hsame e).source
  getService := h.getService
  releaseService := h.releaseService

theorem resolve (id : EntryId) : (resolve env id).Respects R :=
  (h.supplied id).resolve

theorem asked (id : EntryId) : Asked env id R where
  toBehaved := h.toBehaved
  log w log := h.aside w log w.inHand
  turn w event hturn := h.records w id fun c heq => by
    subst heq
    exact hturn
  write w _ hlabel hsource _ := h.write w id hlabel hsource
  resolve := h.resolve id

theorem title (id : EntryId) : (title env id).Respects R :=
  (h.asked id).title

theorem component (id : EntryId) : (component env id).Respects R :=
  (h.asked id).component

theorem category (id : EntryId) : (category env id).Respects R :=
  (h.asked id).category

theorem init (id : EntryId) (ref : ContextRef) : (init env id ref).Respects R :=
  (h.asked id).init ref

end Inquired

namespace Respected

open Act Lifecycle

variable {env : Environment σ} {R : World σ → World σ → Prop} (h : Respected env R)
include h

theorem dismantled (id : EntryId) : Dismantled env id R where
  toSupplied := h.supplied id
  destroys w c := h.destroys w id c

theorem destroy (id : EntryId) : (destroy env id).Respects R :=
  (h.dismantled id).destroy

theorem dispose (id : EntryId) : (dispose env id).Respects R :=
  (h.dismantled id).dispose

end Respected

end PluginConsole
