import PluginConsole.Proofs.Lifecycle.Seen
import PluginConsole.Proofs.Registry.Lifetime

/-!
# Failures stay with their entry

While a context is attached or detached, or the registry is closed, the component of one entry may
return, fail or panic whenever it is called. No other entry notices.
-/

namespace PluginConsole

variable {σ δ : Type} {view : σ → δ} {mine : Instance → Prop} {a : EntryId}
variable {env env' : Environment σ} {w w' : World σ}

theorem Akin.snapshot (h : Akin view mine a w w') : Registry.snapshot w' = Registry.snapshot w :=
  congrArg (List.map Prod.snd) h.table

namespace Registry

open Act Lifecycle

/-! ## One entry after the other -/

theorem forM_akin {f f' : EntryId → Act σ Unit}
    (hf : ∀ id {w w'}, Akin view mine a w w' →
      EndBoth (f id) (f' id) w w' fun _ _ => Akin view mine a)
    (h : Akin view mine a w w') (ids : List EntryId) :
    EndBoth (ids.forM f) (ids.forM f') w w' fun _ _ => Akin view mine a := by
  induction ids generalizing w w' with
  | nil => exact h
  | cons id rest ih => exact (hf id h).imp fun _ _ _ _ h₁ => ih h₁

theorem noted_akin {f f' : EntryId → Act σ (Except Fault Unit)}
    (hf : ∀ id {w w'}, Akin view mine a w w' →
      EndBoth (f id) (f' id) w w' fun _ _ => Akin view mine a)
    (notice : String → String → Notice) (h : Akin view mine a w w') (ids : List EntryId) :
    EndBoth
      (holding ids (ids.forM fun id => do
        match ← f id with
        | .error fault => note (notice (← entry id).label fault.message)
        | .ok () => return ()))
      (holding ids (ids.forM fun id => do
        match ← f' id with
        | .error fault => note (notice (← entry id).label fault.message)
        | .ok () => return ())) w w' fun _ _ => Akin view mine a := by
  rw [endBoth_holding, h.inHand]
  refine (forM_akin (fun id w w' h => ?_) (h.holding _) ids).imp
    fun _ _ _ _ hdone => hdone.holding _
  rw [endBoth_bind]
  refine (hf id h).imp ?_
  intro done done' w₁ w₁' hdone
  cases done <;> cases done' <;> exact hdone.aside _ _

section Operations

variable (hd : Environment.Differs view mine a env env') (h : Akin view mine a w w')
include hd h

theorem attach_akin (context : Context) :
    EndBoth (attach env context) (attach env' context) w w' fun _ _ => Akin view mine a := by
  unfold attach
  simp only [endBoth_bind, endBoth_get, endBoth_newContext, endBoth_modify, h.serial, h.snapshot]
  have hset : Akin view mine a
      { w with serial := w.serial + 1, context := some ⟨w.serial, context⟩ }
      { w' with serial := w.serial + 1, context := some ⟨w.serial, context⟩ } :=
    h.change (f := fun v => { v with serial := w.serial + 1, context := some ⟨w.serial, context⟩ })
      (g := fun v => { v with serial := w.serial + 1, context := some ⟨w.serial, context⟩ })
      (fun _ => rfl) fun _ => rfl
  refine (noted_akin (fun id _ _ h => hd.init h _) .initFailed hset _).imp ?_
  exact fun _ _ _ _ hdone => hdone.aside _ _

theorem detach_akin :
    EndBoth (detach env) (detach env') w w' fun _ _ => Akin view mine a := by
  unfold detach
  simp only [endBoth_bind, endBoth_get, endBoth_modify, h.snapshot]
  refine (noted_akin (fun id _ _ h => hd.destroy h) .teardownFailed h _).imp ?_
  intro _ _ w₁ w₁' h₁
  have hforgotten : Akin view mine a { w₁ with context := none } { w₁' with context := none } :=
    h₁.change (f := fun v => { v with context := none }) (g := fun v => { v with context := none })
      (fun _ => rfl) fun _ => rfl
  exact hforgotten.aside _ _

theorem retireAll_akin (ids : List EntryId) :
    EndBoth (retireAll env ids) (retireAll env' ids) w w' fun _ _ => Akin view mine a := by
  induction ids generalizing w w' with
  | nil => exact h
  | cons id rest ih =>
    unfold retireAll
    rw [endBoth_bind, endBoth_holding, h.inHand]
    exact (hd.dispose (h.holding _)).imp fun _ _ _ _ h₁ => ih (h₁.holding _)

theorem cancel_akin :
    EndBoth (cancel env) (cancel env') w w' fun _ _ => Akin view mine a := by
  unfold cancel takeSubscription
  simp only [endBoth_bind, endBoth_get, endBoth_modify, endBoth_pure, h.subscription, hd.directory]
  have htaken : Akin view mine a { w with subscription := none } { w' with subscription := none } :=
    h.change (f := fun v => { v with subscription := none })
      (g := fun v => { v with subscription := none }) (fun _ => rfl) fun _ => rfl
  split
  · exact htaken.withOutside (hd.unsubscribe _ h.view_eq)
  · exact htaken

theorem closeRegistry_akin :
    EndBoth (closeRegistry env) (closeRegistry env') w w' fun _ _ => Akin view mine a := by
  unfold closeRegistry
  rw [endBoth_bind]
  refine (cancel_akin hd h).imp fun _ _ w₁ w₁' h₁ => ?_
  simp only [endBoth_bind, endBoth_get, endBoth_modify, h₁.table]
  have hemptied : Akin view mine a { w₁ with table := [] } { w₁' with table := [] } :=
    h₁.change (f := fun v => { v with table := [] }) (g := fun v => { v with table := [] })
      (fun _ => rfl) fun _ => rfl
  refine (retireAll_akin hd hemptied _).imp fun _ _ w₂ w₂' h₂ => ?_
  have hforgotten : Akin view mine a { w₂ with defaultLabel := none }
      { w₂' with defaultLabel := none } :=
    h₂.change (f := fun v => { v with defaultLabel := none })
      (g := fun v => { v with defaultLabel := none }) (fun _ => rfl) fun _ => rfl
  split
  · exact hforgotten.aside _ _
  · exact hforgotten

end Operations

/-! ## What comes of it -/

/-- Two worlds that differ about the entry `a` at most: about the text of its title, and about the
names under which its component was initialized. -/
structure Contained (view : σ → δ) (a : EntryId) (w w' : World σ) : Prop where
  others : ∀ id, id ≠ a → w'.entry id = w.entry id ∧ w'.eventsOf id = w.eventsOf id
  own : (w'.entry a).untitled = (w.entry a).untitled
  ownEvents : (w'.eventsOf a).map EntryEvent.unnamed = (w.eventsOf a).map EntryEvent.unnamed
  table : w'.table = w.table
  context : w'.context = w.context
  defaultLabel : w'.defaultLabel = w.defaultLabel
  subscription : w'.subscription = w.subscription
  outside : view w'.outside = view w.outside

theorem contained_akin (h : Akin view mine a w w') : Contained view a w w' where
  others _ hid := ⟨h.other hid, h.events_other hid⟩
  own := h.untitled a
  ownEvents := h.events_own
  table := h.table
  context := h.context
  defaultLabel := h.defaultLabel
  subscription := h.subscription
  outside := h.view_eq

def Operation.IsRound : Operation σ → Prop
  | .setContext _ | .close => True
  | _ => False

/-- Whatever state the registry is in, a context is attached or detached, or the registry is closed,
to the same effect however the calls end that the component of one entry gets. It shares no object
with another component. The others get the same calls with the same arguments and end alike, and so
does the registry, and the directory as far as it is seen. -/
theorem perform_contained (hd : Environment.Differs view mine a env env') (howned : Owned mine a w)
    {op : Operation σ} (hround : op.IsRound) :
    Contained view a (perform env op w).2 (perform env' op w).2 := by
  have h : Akin view mine a w w := .refl howned
  cases op with
  | close => exact contained_akin (closeRegistry_akin hd h)
  | setContext context =>
    cases context with
    | some context => exact contained_akin (attach_akin hd h context)
    | none => exact contained_akin (detach_akin hd h)
  | openUp | addService | removeService | addDirect | unregister | hear | lookup | lookupDefault
  | setDefaultLabel | labelMap | describe => exact False.elim hround

def panicking (broken : Option Instance) : Callbacks (Site Unit) where
  deactivate object := pure (if some object = broken then .error (.panic none) else .ok ())
  title object := pure (if some object = broken then .error (.panic none) else .ok "T")
  init object _ := pure (if some object = broken then .error (.panic none) else .ok ())
  destroy object := pure (if some object = broken then .error (.panic none) else .ok ())

theorem panicking_differs (broken : Instance) (a : EntryId) :
    Environment.Differs Site.directory (· = broken) a
      (Site.environment ((panicking none).within PluginCode.still))
      (Site.environment ((panicking (some broken)).within PluginCode.still)) where
  directory := rfl
  code := by
    refine Callbacks.Differs.within ?_ PluginCode.still
    constructor
    case title =>
      intro object s s' hsame
      by_cases hobject : object = broken
      · exact ⟨Or.inl hobject, hsame⟩
      have hbroken : some object ≠ some broken := fun h => hobject (Option.some.inj h)
      have htitle : (if some object = some broken then .error (.panic none) else .ok "T" :
          Outcome String) = if some object = none then .error (.panic none) else .ok "T" := by
        rw [if_neg hbroken, if_neg (Option.some_ne_none object)]
      exact ⟨Or.inr htitle, hsame⟩
    all_goals
      intros
      assumption
  unsubscribe n _ _ hsame := congrArg (·.unsubscribe n) hsame
  releaseService r _ _ hsame := congrArg (·.releaseService r.id) hsame

def twoPlugins : List (Call (Site Unit)) :=
  [.registry (.addDirect "p" "a"), .registry (.addDirect "q" "b"), .registry (.lookup "a"),
    .registry (.lookup "b")]

theorem panicking_contained :
    let env broken := Site.environment ((panicking broken).within PluginCode.still)
    let mine object := object = Instance.made "p" 0
    let w := run (env none) twoPlugins { outside := ⟨{}, ⟨"", []⟩, ()⟩ }
    let attached broken := (perform (env broken) (.setContext (some ⟨"c", []⟩)) w).2
    Owned mine 0 w ∧ Contained Site.directory 0 (attached none) (attached (some (.made "p" 0))) ∧
      ((attached none).entry 0).title = .resolved "T" ∧
      ((attached (some (.made "p" 0))).entry 0).title = .resolved "a" ∧
      ((attached (some (.made "p" 0))).entry 1).title = .resolved "T" := by
  intro env mine w attached
  -- Two entries, each with a component of its own.
  have hlength : w.entries.length = 2 := by decide +kernel
  have hfirst : (w.entry 0).warm.map (·.component.object) = some (.made "p" 0) := by
    decide +kernel
  have hsecond : (w.entry 1).warm.map (·.component.object) = some (.made "q" 0) := by
    decide +kernel
  have howned : Owned mine 0 w := by
    intro id x hx
    have hid : id < 2 := by
      by_contra hout
      rw [World.entry_of_le (hlength.trans_le (Nat.le_of_not_lt hout))] at hx
      cases hx
    rcases Nat.lt_succ_iff_lt_or_eq.mp hid with hzero | rfl
    · obtain rfl := Nat.lt_one_iff.mp hzero
      rw [hx] at hfirst
      exact ⟨fun _ => rfl, fun _ => Option.some.inj hfirst⟩
    · rw [hx] at hsecond
      have hobject : x.component.object = .made "q" 0 := Option.some.inj hsecond
      have hother : ¬ mine x.component.object := by
        rw [hobject]
        decide
      exact ⟨fun hmine => absurd hmine hother, fun hid => absurd hid (by decide)⟩
  have hd : Environment.Differs Site.directory mine 0 (env none) (env (some (.made "p" 0))) :=
    panicking_differs (.made "p" 0) 0
  exact ⟨howned, perform_contained hd howned trivial, by decide +kernel, by decide +kernel,
    by decide +kernel⟩

end Registry

end PluginConsole
