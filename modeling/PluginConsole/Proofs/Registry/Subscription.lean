import PluginConsole.Proofs.Registry.Lifetime
import PluginConsole.Proofs.Registry.Respect

/-!
# Subscriptions

A registry that is open has one subscription and one that is closed has none, also if the directory
fails half way through opening, and if plugin code comes back while entries are disposed.
-/

namespace PluginConsole

variable {σ α : Type}

/-! ## A directory that counts -/

def uncounted (step : StateM σ α) : StateM (σ × List Nat) α := fun s =>
  ((step s.1).1, (step s.1).2, s.2)

/-- The directory as it is, with a list of the subscriptions that were taken and not cancelled. -/
def DirectoryAccess.counted (d : DirectoryAccess σ) : DirectoryAccess (σ × List Nat) where
  subscribe filter := fun s =>
    let granted := d.subscribe filter s.1
    (granted.1, granted.2, granted.1.toOption.toList ++ s.2)
  unsubscribe n := fun s => ((), (d.unsubscribe n s.1).2, s.2.erase n)
  references filter := uncounted (d.references filter)
  getService r := uncounted (d.getService r)
  releaseService r := uncounted (d.releaseService r)

namespace DirectoryAccess

variable {d : DirectoryAccess σ} {filter : String} {s o : σ × List Nat} {f : Fault} {n : Nat}

theorem counted_refused (h : d.counted.subscribe filter s = (.error f, o)) : o.2 = s.2 := by
  have hgranted : (d.subscribe filter s.1).1 = .error f := congrArg Prod.fst h
  have hheld : (d.subscribe filter s.1).1.toOption.toList ++ s.2 = o.2 := congrArg (·.2.2) h
  rw [← hheld, hgranted]
  rfl

theorem counted_granted (h : d.counted.subscribe filter s = (.ok n, o)) : o.2 = n :: s.2 := by
  have hgranted : (d.subscribe filter s.1).1 = .ok n := congrArg Prod.fst h
  have hheld : (d.subscribe filter s.1).1.toOption.toList ++ s.2 = o.2 := congrArg (·.2.2) h
  rw [← hheld, hgranted]
  rfl

theorem counted_references {listed : Except Fault (List Reference)}
    (h : d.counted.references filter s = (listed, o)) : o.2 = s.2 :=
  (congrArg (·.2.2) h).symm

end DirectoryAccess

def counting (d : DirectoryAccess σ) (host : HostAccess (σ × List Nat))
    (code : PluginCode (σ × List Nat)) : Environment (σ × List Nat) :=
  { directory := d.counted, host, code }

/-! ## What the registry does besides -/

namespace Respected

open Act Registry

variable {env : Environment σ} {R : World σ → World σ → Prop} (h : Respected env R)
variable (htable : ∀ {w w'}, TableOnly w w' → R w w')
include h htable

theorem enlists (r : Reference) : (Registry.addService env r).Respects R :=
  fun w => h.trans (htable (tableOnly_enlisted r w)) (h.addService r w)

theorem dismisses (r : Reference) : (Registry.removeService env r).Respects R :=
  fun w => h.trans (htable (tableOnly_dismissed r w)) (h.removeService r w)

theorem enlistsAll (references : List Reference) :
    Act.Respects R (references.forM (Registry.addService env)) :=
  h.forM (h.enlists htable) references

omit htable in
theorem retireAll (ids : List EntryId) : (Registry.retireAll env ids).Respects R := by
  induction ids with
  | nil => exact h.pure _
  | cons id rest ih => exact h.bind (h.holding (id :: rest) (h.dispose id)) fun _ => ih

theorem closeRegistry (w : World σ) :
    Ends (closeRegistry env) w fun _ w' => R (cancelled env w) w' := by
  unfold Registry.closeRegistry
  rw [ends_bind]
  refine (cancel_spec w).imp ?_
  rintro _ _ rfl
  simp only [ends_bind, ends_get, ends_modify]
  have hemptied : R (cancelled env w) { cancelled env w with table := [] } :=
    htable ⟨rfl, rfl, rfl⟩
  refine ((h.retireAll _).ends _).imp fun _ w₁ hretired => ?_
  have hforgotten : R (cancelled env w) { w₁ with defaultLabel := none } :=
    h.trans hemptied (h.trans hretired (htable ⟨rfl, rfl, rfl⟩))
  split
  · exact h.trans hforgotten (h.aside _ _ _)
  · exact hforgotten

end Respected

namespace Registry

open Act Lifecycle

theorem subscription_of_closed {w : World σ} (h : isOpen w = false) : w.subscription = none := by
  unfold isOpen at h
  cases hsubscription : w.subscription with
  | none => rfl
  | some n =>
    rw [hsubscription] at h
    cases h

/-! ## How opening ends -/

section Opening

variable {env : Environment σ} {w : World σ} {f : Fault} {n : Nat} {o o' : σ}
variable {references : List Reference}

theorem openRegistry_of_open (hopen : isOpen w = true) : openRegistry env w = (.ok (), w) := by
  have hends : Ends (openRegistry env) w fun result w' => (result, w') = (.ok (), w) := by
    unfold openRegistry
    simp only [ends_bind, ends_get, hopen, if_true, ends_pure]
  exact hends

variable (hclosed : isOpen w = false)
include hclosed

theorem openRegistry_of_refused
    (hsubscribe : env.directory.subscribe (capabilityFilter consoleCapability) w.outside
      = (.error f, o)) :
    openRegistry env w =
      (.error (subscriptionFault (capabilityFilter consoleCapability) f), w.withOutside o) := by
  have hends : Ends (openRegistry env) w fun result w' => (result, w') =
      (.error (subscriptionFault (capabilityFilter consoleCapability) f), w.withOutside o) := by
    unfold openRegistry
    simp only [ends_bind, ends_get, hclosed, Bool.false_eq_true, if_false, ends_outside,
      hsubscribe, ends_pure]
  exact hends

theorem openRegistry_of_undone
    (hsubscribe : env.directory.subscribe (capabilityFilter consoleCapability) w.outside
      = (.ok n, o))
    (hreferences : env.directory.references (capabilityFilter consoleCapability) o
      = (.error f, o')) :
    openRegistry env w =
      (.error (subscriptionFault (capabilityFilter consoleCapability) f),
        w.withOutside (env.directory.unsubscribe n o').2) := by
  have hends : Ends (openRegistry env) w fun result w' => (result, w') =
      (.error (subscriptionFault (capabilityFilter consoleCapability) f),
        w.withOutside (env.directory.unsubscribe n o').2) := by
    unfold openRegistry cancel takeSubscription
    simp only [ends_bind, ends_get, hclosed, Bool.false_eq_true, if_false, ends_outside,
      hsubscribe, ends_pure, ends_modify, World.withOutside, hreferences]
    rw [subscription_of_closed hclosed]
  exact hends

theorem openRegistry_of_listed
    (hsubscribe : env.directory.subscribe (capabilityFilter consoleCapability) w.outside
      = (.ok n, o))
    (hreferences : env.directory.references (capabilityFilter consoleCapability) o
      = (.ok references, o')) :
    openRegistry env w =
      let w₁ := (references.forM (addService env)
        { w with subscription := some n, outside := o' }).2
      (.ok (), { w₁ with log := w₁.log ++ [.registryOpened w₁.table.length] }) := by
  have hends : Ends (openRegistry env) w fun result w' => (result, w') =
      let w₁ := (references.forM (addService env)
        { w with subscription := some n, outside := o' }).2
      (.ok (), { w₁ with log := w₁.log ++ [.registryOpened w₁.table.length] }) := by
    unfold openRegistry
    simp only [ends_bind, ends_get, hclosed, Bool.false_eq_true, if_false, ends_outside,
      hsubscribe, ends_modify, World.withOutside, hreferences]
    rfl
  exact hends

end Opening

/-! ## Dealings -/

/-- What may be done with a registry by those who keep it. -/
inductive Dealing (σ : Type) where
  | call (c : Call σ)
  /-- Somebody lets go of it. -/
  | drop

def deal (env : Environment σ) : Dealing σ → Act σ Unit
  | .call c => serve env c
  | .drop => letGo env

def runDealings (env : Environment σ) (dealings : List (Dealing σ)) (w : World σ) : World σ :=
  dealings.foldl (fun w dealing => (deal env dealing w).2) w

/-- Nobody else takes or cancels a subscription for the registry. -/
def Call.Fair : Call (σ × List Nat) → Prop
  | .registry op => op.Calm Prod.snd
  | .around f => ∀ s, (f s).2 = s.2
  | _ => True

def Dealing.Fair : Dealing (σ × List Nat) → Prop
  | .call c => c.Fair
  | .drop => True

/-- Plugin code that comes back to the registry, to do whatever may be done with it. Code that is
called from there comes back once less deep. -/
def ComesBack (d : DirectoryAccess σ) (host : HostAccess (σ × List Nat)) :
    Nat → PluginCode (σ × List Nat) → Prop
  | 0, code => code.Spares Prod.snd
  | depth + 1, code => code.Respects fun w w' => ∃ inner dealings, ComesBack d host depth inner ∧
      (∀ dealing ∈ dealings, dealing.Fair) ∧ w' = runDealings (counting d host inner) dealings w

/-! ## The count -/

/-- An open registry holds one subscription, its own, and a closed one holds none. -/
def Counted (w : World (σ × List Nat)) : Prop :=
  w.outside.2 = w.subscription.toList

def KeepsCount (w w' : World (σ × List Nat)) : Prop :=
  Counted w → Counted w'

section Count

variable {d : DirectoryAccess σ} {host : HostAccess (σ × List Nat)}
variable {code : PluginCode (σ × List Nat)} {w w' : World (σ × List Nat)}

theorem Counted.length (h : Counted w) : w.outside.2.length = if isOpen w then 1 else 0 := by
  unfold Counted at h
  unfold isOpen
  rw [h]
  cases w.subscription <;> rfl

theorem keepsCount_tableOnly (h : TableOnly w w') : KeepsCount w w' := by
  intro hcounted
  unfold Counted
  rw [h.outside, h.subscription]
  exact hcounted

theorem cancelled_counted (h : Counted w) : Counted (cancelled (counting d host code) w) := by
  unfold Counted at h
  unfold cancelled
  cases hsubscription : w.subscription with
  | none =>
    rw [hsubscription] at h
    exact h
  | some n =>
    rw [hsubscription] at h
    show w.outside.2.erase n = []
    rw [h]
    simp

variable (d host)
variable (hcode : code.Respects KeepsCount)
include hcode

theorem keepsCount_respected :
    Respected (counting d host code) (KeepsCount : World (σ × List Nat) → _) where
  refl _ hcounted := hcounted
  trans h h' hcounted := h' (h hcounted)
  code := hcode
  aside _ _ _ hcounted := hcounted
  records _ _ _ _ hcounted := hcounted
  count _ hcounted := hcounted
  write _ _ _ _ _ hcounted := hcounted
  getService _ _ hcounted := hcounted
  releaseService _ _ hcounted := hcounted
  destroys _ _ _ hcounted := hcounted

theorem openRegistry_counts : (openRegistry (counting d host code)).Respects KeepsCount := by
  intro w hcounted
  cases hopen : isOpen w with
  | true =>
    rw [openRegistry_of_open hopen]
    exact hcounted
  | false =>
    have hnone := subscription_of_closed hopen
    have hheld : w.outside.2 = [] := by
      rw [hcounted, hnone]
      rfl
    rcases hsubscribe : (counting d host code).directory.subscribe
      (capabilityFilter consoleCapability) w.outside with ⟨f | n, o⟩
    · rw [openRegistry_of_refused hopen hsubscribe]
      show o.2 = w.subscription.toList
      rw [DirectoryAccess.counted_refused hsubscribe]
      exact hcounted
    have hgranted : o.2 = [n] := by
      rw [DirectoryAccess.counted_granted hsubscribe, hheld]
    rcases hreferences : (counting d host code).directory.references
      (capabilityFilter consoleCapability) o with ⟨f | references, o'⟩
    all_goals have hlisted : o'.2 = [n] :=
      (DirectoryAccess.counted_references hreferences).trans hgranted
    · rw [openRegistry_of_undone hopen hsubscribe hreferences]
      show o'.2.erase n = w.subscription.toList
      rw [hlisted, hnone]
      simp
    · rw [openRegistry_of_listed hopen hsubscribe hreferences]
      have hadded := (keepsCount_respected d host hcode).enlistsAll keepsCount_tableOnly references
      exact hadded { w with subscription := some n, outside := o' } hlisted

theorem closeRegistry_counts :
    (closeRegistry (counting d host code)).Respects KeepsCount := by
  intro w hcounted
  have hclosed := (keepsCount_respected d host hcode).closeRegistry
    keepsCount_tableOnly w
  exact hclosed (cancelled_counted hcounted)

theorem letGo_counts : (letGo (counting d host code)).Respects KeepsCount := by
  have h := keepsCount_respected d host hcode
  refine h.get_bind fun w => h.bind (fun _ hcounted => hcounted) fun _ => ?_
  split
  · exact closeRegistry_counts d host hcode
  · exact h.pure _

theorem directoryChanged_counts (event : DirectoryEvent) :
    (directoryChanged (counting d host code) event).Respects KeepsCount := by
  have h := keepsCount_respected d host hcode
  refine h.get_bind fun w => ?_
  split
  · exact h.pure _
  refine h.bind (fun _ hcounted => hcounted) fun _ => h.bind ?_ fun _ =>
    h.bind (letGo_counts d host hcode) fun _ => h.pure _
  cases event with
  | registered r => exact h.enlists keepsCount_tableOnly r
  | modified r => exact h.pure _
  | unregistering r => exact h.dismisses keepsCount_tableOnly r

theorem perform_counts {op : Operation (σ × List Nat)} (hcalm : op.Calm Prod.snd) :
    (perform (counting d host code) op).Respects KeepsCount := by
  have h := keepsCount_respected d host hcode
  have hqueries (hasks : op.Asks) : (perform (counting d host code) op).Respects KeepsCount := by
    intro w
    refine h.queried.perform ?_ trivial hasks hcalm
    intro messages hmessages title origin locale w hcounted
    exact (localize_calm hmessages title origin locale w.outside).trans hcounted
  cases op with
  | openUp => exact openRegistry_counts d host hcode
  | close => exact closeRegistry_counts d host hcode
  | addService r => exact h.enlists keepsCount_tableOnly r
  | removeService r => exact h.dismisses keepsCount_tableOnly r
  | addDirect factory label => exact fun w hcounted => h.addDirect factory label w hcounted
  | unregister label => exact fun w hcounted => h.unregister label w hcounted
  | hear event => exact directoryChanged_counts d host hcode event
  | setDefaultLabel label => exact fun _ hcounted => hcounted
  | setContext context => exact h.setContext (fun _ _ hcounted => hcounted) context
  | lookup | lookupDefault | labelMap | describe => exact hqueries trivial

theorem serve_counts {call : Call (σ × List Nat)} (hfair : call.Fair) :
    (serve (counting d host code) call).Respects KeepsCount := by
  have h := keepsCount_respected d host hcode
  intro w
  show Ends (serve (counting d host code) call) w fun _ w' => KeepsCount w w'
  cases call with
  | registry op => exact perform_counts d host hcode hfair w
  | make label source => exact fun hcounted => hcounted
  | register id =>
    exact ends_ifMade (fun _ => (h.register id w).imp fun _ _ hregistered hcounted =>
      hregistered hcounted) fun hcounted => hcounted
  | entry id call =>
    refine ends_ifMade (fun _ => ?_) fun hcounted => hcounted
    cases call with
    | component => exact h.component id w
    | title => exact h.title id w
    | category => exact h.category id w
    | init ref => exact h.init id ref w
    | destroy => exact h.destroy id w
    | dispose => exact h.dispose id w
  | around f => exact fun hcounted => (hfair w.outside).trans hcounted

theorem deal_counts {dealing : Dealing (σ × List Nat)} (hfair : dealing.Fair) :
    (deal (counting d host code) dealing).Respects KeepsCount := by
  cases dealing with
  | call c => exact serve_counts d host hcode hfair
  | drop => exact letGo_counts d host hcode

theorem runDealings_counts {dealings : List (Dealing (σ × List Nat))}
    (hfair : ∀ dealing ∈ dealings, dealing.Fair) (hcounted : Counted w) :
    Counted (runDealings (counting d host code) dealings w) := by
  induction dealings generalizing w with
  | nil => exact hcounted
  | cons dealing rest ih =>
    refine ih (fun other hmem => hfair other (List.mem_cons_of_mem _ hmem)) ?_
    exact deal_counts d host hcode (hfair dealing List.mem_cons_self) w hcounted

omit hcode in
theorem ComesBack.counts {depth : Nat} (h : ComesBack d host depth code) :
    code.Respects KeepsCount := by
  induction depth generalizing code with
  | zero => exact h.respects fun _ _ hheld hcounted => hheld.trans hcounted
  | succ depth ih =>
    refine PluginCode.Respects.mono h ?_
    rintro w _ ⟨inner, dealings, hinner, hfair, rfl⟩ hcounted
    exact runDealings_counts d host (ih hinner) hfair hcounted

end Count

/-! ## What opening comes to -/

section Quiet

variable {δ : Type} {env : Environment σ} {view : σ → δ} (hcode : env.code.Spares view)
include hcode

end Quiet

/-! ## Every run -/

end Registry

end PluginConsole
