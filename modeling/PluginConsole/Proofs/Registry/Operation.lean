import PluginConsole.Proofs.Registry.Registration

/-!
# Operations and what they are made of

Everything that can be asked of a registry from outside, and the few kinds of change that
all of it comes down to. An invariant of the changes is an invariant of every run.
-/

open Relation (ReflTransGen)

namespace PluginConsole

/-- What the registry asks of the directory besides services is within `own`. -/
structure DirectoryAccess.Within {σ : Type} (own : σ → σ → Prop)
    (directory : DirectoryAccess σ) : Prop where
  subscribe (filter : String) (s : σ) : own s (directory.subscribe filter s).2
  unsubscribe (subscription : Nat) (s : σ) : own s (directory.unsubscribe subscription s).2
  references (filter : String) (s : σ) : own s (directory.references filter s).2

theorem DirectoryAccess.within_any {σ : Type} (directory : DirectoryAccess σ) :
    directory.Within fun _ _ => True :=
  ⟨fun _ _ => trivial, fun _ _ => trivial, fun _ _ => trivial⟩

namespace Registry

open Act Lifecycle

variable {σ δ : Type}

/-! ## Operations -/

inductive Operation (σ : Type) where
  | openUp
  | close
  | addService (reference : Reference)
  | removeService (reference : Reference)
  | addDirect (factory label : String)
  | unregister (label : String)
  /-- The directory tells the registry of a change. -/
  | hear (event : DirectoryEvent)
  | lookup (label : String)
  | lookupDefault
  | setDefaultLabel (label : Option String)
  | labelMap (messages : Localizer (StateM σ)) (locale defaultCategory : String)
  | describe
  | setContext (context : Option Context)

variable (env : Environment σ)

def perform : Operation σ → Act σ Unit
  | .openUp => discard (openRegistry env)
  | .close => closeRegistry env
  | .addService r => addService env r
  | .removeService r => removeService env r
  | .addDirect factory label => addDirect env factory label
  | .unregister label => discard (unregister env label)
  | .hear event => directoryChanged env event
  | .lookup label => discard (lookup env label)
  | .lookupDefault => discard (lookupDefault env)
  | .setDefaultLabel label => setDefaultLabel label
  | .labelMap messages locale defaultCategory =>
    discard (labelMap env messages locale defaultCategory)
  | .describe => discard (describe env)
  | .setContext context => setContext env context

namespace Operation

/-- The messages of a label map are found without a change to what `view` shows. -/
def Calm (view : σ → δ) : Operation σ → Prop
  | .labelMap messages _ _ => Registry.Calm view messages
  | _ => True

theorem calm_blind (op : Operation σ) : op.Calm fun _ => () := by
  cases op <;> first | exact trivial | exact fun _ _ _ => rfl

/-- The table changes, or a setting other than the context. -/
def Arranges : Operation σ → Prop
  | .openUp | .close | .addService _ | .removeService _ | .addDirect .. | .unregister _ | .hear _
  | .setDefaultLabel _ => True
  | _ => False

def Asks : Operation σ → Prop
  | .lookup _ | .lookupDefault | .labelMap .. | .describe => True
  | _ => False

theorem kinds (op : Operation σ) :
    op.Arranges ∨ op.Asks ∨ ∃ context, op = .setContext context := by
  cases op with
  | openUp | close | addService | removeService | addDirect | unregister | hear | setDefaultLabel =>
    exact Or.inl trivial
  | lookup | lookupDefault | labelMap | describe => exact Or.inr (Or.inl trivial)
  | setContext context => exact Or.inr (Or.inr ⟨context, rfl⟩)

def Brings : Operation σ → Source → Prop
  | .openUp, s | .addService _, s | .hear _, s => s.kind = .directory
  | .addDirect .., s => s.kind = .direct
  | _, _ => False

end Operation

/-! ## Rearrangements -/

/-- Whatever is done to the table stays within the relation, and so do the settings other than
the context and what the directory does by itself. -/
structure Rearranged (env : Environment σ) (view : σ → δ) (own : σ → σ → Prop)
    (admits : Source → Prop) (R : World σ → World σ → Prop) : Prop where
  refl (w : World σ) : R w w
  trans {a b c : World σ} (h : R a b) (h' : R b c) : R a c
  joins {w w' : World σ} {label : String} {source : Source} (hadmits : admits source)
    (h : Joins env view label source w w') : R w w'
  leaves {w w' : World σ} {label : String} (h : Leaves env view label w w') : R w w'
  empties {w w' : World σ} (h : Visits env view (snapshot w) { w with table := [] } w')
    (hover : ∀ id ∈ snapshot w, Over id w') : R w w'
  arrange (w : World σ) (defaultLabel : Option String) (subscription : Option Nat)
    (keepers : Nat) (log : List Notice) :
    R w { w with defaultLabel, subscription, keepers, log }
  outside {w : World σ} {s : σ} (h : own w.outside s) : R w (w.withOutside s)

section Rearrangements

variable {env : Environment σ} {view : σ → δ} {own : σ → σ → Prop} {admits : Source → Prop}
variable {R : World σ → World σ → Prop} {w w' w'' : World σ}

namespace Rearranged

variable (h : Rearranged env view own admits R)
include h

theorem enlists {r : Reference} (hadmits : admits (.directory r))
    (henlists : Enlists env view r w w') : R w w' := by
  unfold Enlists at henlists
  split at henlists
  · rw [henlists]
    exact h.refl w
  · exact h.joins hadmits henlists

theorem enlistsAll {references : List Reference} (hadmits : ∀ r ∈ references, admits (.directory r))
    (henlist : EnlistsAll env view references w w') : R w w' := by
  induction henlist with
  | nil w => exact h.refl w
  | cons hfirst _ ih =>
    refine h.trans (h.enlists (hadmits _ List.mem_cons_self) hfirst) (ih ?_)
    exact fun r hmem => hadmits r (List.mem_cons_of_mem _ hmem)

theorem dismisses {r : Reference} (hdismisses : Dismisses env view r w w') : R w w' := by
  unfold Dismisses at hdismisses
  split at hdismisses
  · rw [hdismisses]
    exact h.refl w
  · exact h.leaves hdismisses

theorem heeds {event : DirectoryEvent} (hadmits : admits (.directory event.reference))
    (hheeds : Heeds env view event w w') : R w w' := by
  cases event with
  | registered r => exact h.enlists hadmits hheeds
  | modified r =>
    cases hheeds
    exact h.refl w
  | unregistering r => exact h.dismisses hheeds

theorem directoryChanged (hcode : env.code.Spares view) (hranged : Ranged w)
    {event : DirectoryEvent} (hadmits : admits (.directory event.reference)) :
    Ends (directoryChanged env event) w fun _ w' => R w w' := by
  by_cases hkept : w.keepers = 0
  · unfold Registry.directoryChanged
    simp only [ends_bind, ends_get, hkept, if_true]
    exact h.refl w
  refine (directoryChanged_spec hcode hranged (Nat.pos_of_ne_zero hkept) event).imp fun _ w' hw' => ?_
  obtain ⟨w₁, hheeds, rfl⟩ := hw'
  refine h.trans ?_ (h.trans (h.heeds hadmits hheeds) ?_)
  · exact h.arrange w w.defaultLabel w.subscription (w.keepers + 1) w.log
  · exact h.arrange w₁ w₁.defaultLabel w₁.subscription w.keepers w₁.log

variable (hwithin : env.directory.Within own)
include hwithin

theorem cancelled (w : World σ) : R w (cancelled env w) := by
  have hset : R w { w with subscription := none } :=
    h.arrange w w.defaultLabel none w.keepers w.log
  unfold Registry.cancelled
  cases w.subscription with
  | none => exact hset
  | some s => exact h.trans hset (h.outside (hwithin.unsubscribe s _))

theorem closes (hcloses : Closes env view w w' w'') : R w w'' := by
  obtain ⟨hvisits, hover, log, rfl⟩ := hcloses
  refine h.trans (h.trans (h.cancelled hwithin w) (h.empties hvisits hover)) ?_
  exact h.arrange w' none w'.subscription w'.keepers log

theorem subscribed {filter : String} {s : Nat} {o o' : σ} {listed : Except Fault (List Reference)}
    (hsubscribe : env.directory.subscribe filter w.outside = (.ok s, o))
    (hreferences : env.directory.references filter o = (listed, o')) :
    R w { w with subscription := some s, outside := o' } := by
  have hown := hwithin.subscribe filter w.outside
  rw [hsubscribe] at hown
  have hown' := hwithin.references filter o
  rw [hreferences] at hown'
  refine h.trans (h.trans (h.outside hown) (h.outside hown')) ?_
  exact h.arrange _ w.defaultLabel (some s) w.keepers w.log

theorem opens {result : Except Fault Unit} (hadmits : ∀ r, admits (.directory r))
    (hopens : Opens env view w result w') : R w w' := by
  cases hopens with
  | already => exact h.refl w
  | refused _ hsubscribe =>
    have hown := hwithin.subscribe (capabilityFilter consoleCapability) w.outside
    rw [hsubscribe] at hown
    exact h.outside hown
  | undone _ hsubscribe hreferences =>
    exact h.trans (h.subscribed hwithin hsubscribe hreferences) (h.cancelled hwithin _)
  | @opened w₁ _ _ _ _ references _ hsubscribe hreferences henlist hlast =>
    obtain ⟨log, rfl⟩ := hlast
    refine h.trans (h.subscribed hwithin hsubscribe hreferences) ?_
    refine h.trans (h.enlistsAll (fun r _ => hadmits r) henlist) ?_
    exact h.arrange w₁ w₁.defaultLabel w₁.subscription w₁.keepers log

theorem perform (hcode : env.code.Spares view) (hranged : Ranged w) {op : Operation σ}
    (harranges : op.Arranges) (hadmits : ∀ source, op.Brings source → admits source) :
    Ends (perform env op) w fun _ w' => R w w' := by
  cases op with
  | openUp =>
    rw [Registry.perform, ends_discard]
    exact (openRegistry_spec hcode hranged).imp fun _ _ hopens =>
      h.opens hwithin (fun r => hadmits _ rfl) hopens
  | close =>
    exact (closeRegistry_spec hcode hranged).imp fun _ _ ⟨_, hcloses⟩ => h.closes hwithin hcloses
  | addService r =>
    exact (addService_spec hcode hranged r).imp fun _ _ henlists =>
      h.enlists (hadmits _ rfl) henlists
  | removeService r =>
    exact (removeService_spec hcode hranged r).imp fun _ _ hdismisses => h.dismisses hdismisses
  | addDirect factory label =>
    refine (addDirect_spec hcode hranged factory label).imp fun _ w' ⟨log, hjoins⟩ => ?_
    have hdirect : admits (.direct factory (env.code.hasFactory factory)) := hadmits _ rfl
    refine h.trans ?_ (h.joins hdirect hjoins)
    exact h.arrange w w.defaultLabel w.subscription w.keepers log
  | unregister label =>
    rw [Registry.perform, ends_discard]
    exact (unregister_spec hcode hranged label).imp fun _ _ hleaves => h.leaves hleaves
  | hear event => exact h.directoryChanged hcode hranged (hadmits _ rfl)
  | setDefaultLabel label => exact h.arrange w label w.subscription w.keepers w.log
  | lookup | lookupDefault | labelMap | describe | setContext => exact absurd harranges id

end Rearranged

theorem Queried.perform {ready : World σ → Prop} {may : World σ → EntryId → Prop}
    (h : Queried env ready may R)
    (hmessages : ∀ messages : Localizer (StateM σ), Calm view messages →
      ∀ title origin locale w, R w (w.withOutside (localize messages title origin locale w.outside).2))
    (hready : ready w) {op : Operation σ} (hasks : op.Asks)
    (hcalm : op.Calm view) :
    Ends (perform env op) w fun _ w' => R w w' := by
  cases op with
  | lookup label =>
    rw [Registry.perform, ends_discard]
    exact h.lookup hready label
  | lookupDefault =>
    rw [Registry.perform, ends_discard]
    exact h.lookupDefault hready
  | labelMap messages locale defaultCategory =>
    rw [Registry.perform, ends_discard]
    exact h.labelMap locale defaultCategory
      (fun title origin w => hmessages messages hcalm title origin locale w) hready
  | describe =>
    rw [Registry.perform, ends_discard]
    exact h.describe hready
  | openUp | close | addService | removeService | addDirect | unregister | hear | setDefaultLabel
  | setContext => exact absurd hasks id

end Rearrangements

/-! ## Changes -/

inductive Change (env : Environment σ) (view : σ → δ) (own : σ → σ → Prop)
    (admits : Source → Prop) : World σ → World σ → Prop where
  | visits {w w' : World σ} (h : Visits env view (snapshot w) w w') :
    Change env view own admits w w'
  | joins {w w' : World σ} {label : String} {source : Source} (hadmits : admits source)
    (h : Joins env view label source w w') : Change env view own admits w w'
  | leaves {w w' : World σ} {label : String} (h : Leaves env view label w w') :
    Change env view own admits w w'
  | empties {w w' : World σ} (h : Visits env view (snapshot w) { w with table := [] } w')
    (hover : ∀ id ∈ snapshot w, Over id w') : Change env view own admits w w'
  | settings (w : World σ) (defaultLabel : Option String) (subscription : Option Nat)
    (context : Option ContextRef) (keepers serial : Nat) (log : List Notice) :
    Change env view own admits w
      { w with defaultLabel, subscription, context, keepers, serial, log }
  | outside {w : World σ} {s : σ} (h : own w.outside s) :
    Change env view own admits w (w.withOutside s)

abbrev Changes (env : Environment σ) (view : σ → δ) (own : σ → σ → Prop)
    (admits : Source → Prop) : World σ → World σ → Prop :=
  ReflTransGen (Change env view own admits)

theorem Changes.mono {env : Environment σ} {view : σ → δ} {own : σ → σ → Prop}
    {admits admits' : Source → Prop} {w w' : World σ} (h : Changes env view own admits w w')
    (hadmits : ∀ source, admits source → admits' source) :
    Changes env view own admits' w w' := by
  refine ReflTransGen.mono (fun a b hstep => ?_) _ _ h
  cases hstep with
  | visits h => exact .visits h
  | joins hsource h => exact .joins (hadmits _ hsource) h
  | leaves h => exact .leaves h
  | empties h hover => exact .empties h hover
  | settings defaultLabel subscription context keepers serial log =>
    exact .settings a defaultLabel subscription context keepers serial log
  | outside h => exact .outside h

section Changes

variable {env : Environment σ} {view : σ → δ} {own : σ → σ → Prop} {admits : Source → Prop}
variable {w w' w'' : World σ}

theorem changes_rearranged :
    Rearranged env view own admits (Changes env view own admits) where
  refl _ := .refl
  trans h h' := h.trans h'
  joins hadmits h := .single (.joins hadmits h)
  leaves h := .single (.leaves h)
  empties h hover := .single (.empties h hover)
  arrange w defaultLabel subscription keepers log :=
    .single (.settings w defaultLabel subscription w.context keepers w.serial log)
  outside h := .single (.outside h)

/-! ## Every operation comes down to changes -/

theorem perform_visits (hcode : env.code.Spares view) (hranged : Ranged w) {op : Operation σ}
    (hasks : op.Asks) (hcalm : op.Calm view) :
    Ends (perform env op) w fun _ w' => Visits env view (snapshot w) w w' := by
  refine (visits_queried hcode (snapshot w)).perform ?_ ?_ hasks hcalm
  · exact fun messages hmessages title origin locale w =>
      .single (.call (localize_calm hmessages title origin locale w.outside))
  · exact fun id hmem => ⟨hmem, hranged id hmem⟩

theorem perform_changes (hwithin : env.directory.Within own) (hcode : env.code.Spares view)
    (hranged : Ranged w) (op : Operation σ) (hcalm : op.Calm view) :
    Ends (perform env op) w fun _ w' => Changes env view own op.Brings w w' := by
  rcases op.kinds with harranges | hasks | ⟨context, rfl⟩
  · exact changes_rearranged.perform hwithin hcode hranged harranges fun _ h => h
  · exact (perform_visits hcode hranged hasks hcalm).imp fun _ _ h => .single (.visits h)
  cases context with
  | some context =>
    refine (attach_spec hcode hranged context).imp fun _ w' h => ?_
    have hset : Change env view own (Operation.setContext (some context) : Operation σ).Brings w
        { w with serial := w.serial + 1, context := some ⟨w.serial, context⟩ } :=
      .settings w w.defaultLabel w.subscription _ w.keepers _ w.log
    exact (ReflTransGen.single hset).tail (.visits h)
  | none =>
    refine (detach_spec hcode hranged).imp fun _ w' h => ?_
    obtain ⟨w₁, log, hvisits, rfl⟩ := h
    refine (ReflTransGen.single (.visits hvisits)).tail ?_
    exact .settings w₁ w₁.defaultLabel w₁.subscription none w₁.keepers w₁.serial log

end Changes

end Registry

end PluginConsole
