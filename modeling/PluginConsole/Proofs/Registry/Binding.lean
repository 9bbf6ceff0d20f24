import Mathlib.Data.List.Induction
import Mathlib.Tactic.IntervalCases
import PluginConsole.Proofs.Registry.Attend
import PluginConsole.Proofs.Registry.Lifetime

/-!
# Every component knows the context

The registry and the entries in its table never disagree about the context: a component is bound
when it is found and when a context is attached, and unbound when it is detached.
-/

namespace PluginConsole.Registry

open Act Lifecycle

variable {σ δ : Type} {env : Environment σ} {view : σ → δ} {own : σ → σ → Prop}
variable {admits : Source → Prop} {w w' w'' : World σ} {id : EntryId}

/-! ## While the context stays -/

/-- The context stays, and every component was there before or is bound to it. -/
structure Abides (w w' : World σ) : Prop where
  context : w'.context = w.context
  length : w.entries.length ≤ w'.entries.length
  listed : ∀ id ∈ snapshot w', id ∈ snapshot w ∨ w.entries.length ≤ id
  warm : ∀ id x, (w'.entry id).warm = some x → x.bound = w.context ∨ (w.entry id).warm = some x

namespace Abides

theorem refl (w : World σ) : Abides w w :=
  ⟨rfl, Nat.le_refl _, fun _ hmem => Or.inl hmem, fun _ _ hwarm => Or.inr hwarm⟩

theorem trans (h : Abides w w') (h' : Abides w' w'') : Abides w w'' where
  context := h'.context.trans h.context
  length := h.length.trans h'.length
  listed id hmem := by
    rcases h'.listed id hmem with hmem | hnew
    · exact h.listed id hmem
    · exact Or.inr (h.length.trans hnew)
  warm id x hwarm := by
    rcases h'.warm id x hwarm with hbound | hwarm
    · exact Or.inl (hbound.trans h.context)
    · exact h.warm id x hwarm

theorem ofFrame (hframe : Frame id w w')
    (hwarm : ∀ x, (w'.entry id).warm = some x → x.bound = w.context ∨ (w.entry id).warm = some x) :
    Abides w w' where
  context := hframe.context
  length := hframe.length.ge
  listed other hmem := by
    rw [snapshot_congr hframe.table] at hmem
    exact Or.inl hmem
  warm other x hx := by
    by_cases ho : other = id
    · rw [ho] at hx ⊢
      exact hwarm x hx
    · rw [hframe.others other ho] at hx
      exact Or.inr hx

end Abides

theorem Attended.abides (h : Attended w w') : Abides w w' where
  context := h.kept.context
  length := h.kept.length.ge
  listed id hmem := by
    rw [snapshot_congr h.kept.table] at hmem
    exact Or.inl hmem
  warm id x hwarm := (h.consulted id).slot.bound_or hwarm

theorem Contest.warm (h : Contest env view id w w') {other : EntryId} {x : Warm}
    (hwarm : (w'.entry other).warm = some x) : (w.entry other).warm = some x := by
  by_cases hloses : loser id w = some other
  · rw [(h.ended other hloses).cold] at hwarm
    cases hwarm
  · rw [h.untouched hloses] at hwarm
    exact hwarm

theorem Joins.abides {label : String} {source : Source} (h : Joins env view label source w w') :
    Abides w w' where
  context := h.settings.context
  length := by
    rw [h.visits.kept.length]
    exact (World.length_entered _ w).symm ▸ Nat.le_succ _
  listed id hmem := by
    rw [snapshot_congr h.visits.kept.table] at hmem
    rcases mem_snapshot_contested hmem with rfl | hold
    · exact Or.inr (Nat.le_refl _)
    · exact Or.inl hold
  warm id x hwarm := by
    have hbefore := Contest.warm h hwarm
    rw [World.entry_entered] at hbefore
    split at hbefore
    · cases hbefore
    · exact Or.inr hbefore

theorem Leaves.abides {label : String} (h : Leaves env view label w w') : Abides w w' where
  context := h.settings.context
  length := h.visits.kept.length.ge
  listed id hmem := by
    rw [snapshot_congr h.visits.kept.table] at hmem
    obtain ⟨⟨other, _⟩, hentry, rfl⟩ := List.mem_map.mp hmem
    exact Or.inl (List.mem_map_of_mem (Dict.mem_erase.mp hentry).2)
  warm id x hwarm := by
    by_cases hleaves : w.table.lookup label = some id
    · rw [(h.ended id hleaves).cold] at hwarm
      cases hwarm
    · rw [h.untouched hleaves] at hwarm
      exact Or.inr hwarm

theorem abides_rearranged : Rearranged env view own admits Abides where
  refl := .refl
  trans := .trans
  joins _ h := h.abides
  leaves h := h.abides
  empties {w w'} h hover := by
    refine ⟨h.kept.context, h.kept.length.ge, fun id hmem => ?_, fun id x hwarm => ?_⟩
    · rw [snapshot_congr h.kept.table] at hmem
      exact absurd hmem List.not_mem_nil
    · by_cases hlisted : id ∈ snapshot w
      · rw [(hover id hlisted).cold] at hwarm
        cases hwarm
      · rw [h.untouched hlisted] at hwarm
        exact Or.inr hwarm
  arrange _ _ _ _ _ := ⟨rfl, Nat.le_refl _, fun _ hmem => Or.inl hmem, fun _ _ hwarm => Or.inr hwarm⟩
  outside _ := ⟨rfl, Nat.le_refl _, fun _ hmem => Or.inl hmem, fun _ _ hwarm => Or.inr hwarm⟩

/-! ## Calls -/

/-- Components are initialized and torn down by the registry alone. -/
def Call.LeavesBindings : Call σ → Prop
  | .entry _ (.init _) | .entry _ .destroy => False
  | _ => True

/-- The context that is attached after a call. Each is attached under a number of its own. -/
def Call.contextAfter (w : World σ) : Call σ → Option ContextRef
  | .registry (.setContext context) => context.map (⟨w.serial, ·⟩)
  | _ => w.context

/-- The context is bound by everything in the table, and was given its number before. -/
structure Bound (w : World σ) : Prop where
  ranged : Ranged w
  past : ∀ ref, w.context = some ref → ref.serial < w.serial
  bound : ∀ id ∈ snapshot w, ∀ x, (w.entry id).warm = some x → x.bound = w.context

structure Served (call : Call σ) (w w' : World σ) : Prop where
  bound : Bound w'
  later : Later w w'
  context : w'.context = call.contextAfter w
  resolved : ∀ id x, (w.entry id).warm = none → (w'.entry id).warm = some x →
    x.bound = w.context ∧ w'.context = w.context

theorem served_of_warm {call : Call σ} (hbound : Bound w) (hranged : Ranged w')
    (hlater : Later w w') (hcontext : w'.context = w.context)
    (hcall : call.contextAfter w = w.context)
    (hlisted : ∀ id ∈ snapshot w', id ∈ snapshot w ∨ (w.entry id).warm = none)
    (hwarm : ∀ id x, (w'.entry id).warm = some x →
      x.bound = w.context ∨ (w.entry id).warm = some x) : Served call w w' where
  bound := by
    refine ⟨hranged, fun ref href => ?_, fun id hmem x hx => ?_⟩
    · rw [hcontext] at href
      exact (hbound.past ref href).trans_le hlater
    rw [hcontext]
    rcases hwarm id x hx with hnow | hbefore
    · exact hnow
    rcases hlisted id hmem with hold | hcold
    · exact hbound.bound id hold x hbefore
    · rw [hcold] at hbefore
      cases hbefore
  later := hlater
  context := hcontext.trans hcall.symm
  resolved id x hcold hx := by
    refine ⟨(hwarm id x hx).resolve_right fun hbefore => ?_, hcontext⟩
    rw [hcold] at hbefore
    cases hbefore

theorem Abides.served {call : Call σ} (h : Abides w w') (hbound : Bound w) (hranged : Ranged w')
    (hlater : Later w w') (hcall : call.contextAfter w = w.context) : Served call w w' := by
  refine served_of_warm hbound hranged hlater h.context hcall (fun id hmem => ?_) h.warm
  refine (h.listed id hmem).imp_right fun hnew => ?_
  rw [World.entry_of_le hnew]
  rfl

theorem served_of_throughout {call : Call σ} {F : Entry → Entry → Prop} {g : Warm → Warm}
    {before : World σ} (hbound : Bound w) (h : Throughout F (snapshot w) before w')
    (hF : ∀ e e', F e e' → e'.warm = e.warm.map g) (hentries : before.entries = w.entries)
    (htable : before.table = w.table) (hlater : Later w w')
    (hpast : ∀ ref, w'.context = some ref → ref.serial < w'.serial)
    (hcontext : w'.context = call.contextAfter w)
    (hg : ∀ x, x.bound = w.context → (g x).bound = w'.context) : Served call w w' := by
  have hentry := World.entry_congr hentries
  have hinside (id : EntryId) (hmem : id ∈ snapshot w) :
      (w'.entry id).warm = (w.entry id).warm.map g := by
    rw [hF _ _ (h.inside id hmem), hentry]
  have htables : w'.table = w.table := h.kept.table.trans htable
  refine ⟨⟨?_, hpast, fun id hmem x hwarm => ?_⟩, hlater, hcontext, fun id x hcold hwarm => ?_⟩
  · unfold Ranged snapshot
    rw [htables, h.kept.length, hentries]
    exact hbound.ranged
  · rw [snapshot_congr htables] at hmem
    rw [hinside id hmem] at hwarm
    obtain ⟨old, hold, rfl⟩ := Option.map_eq_some_iff.mp hwarm
    exact hg old (hbound.bound id hmem old hold)
  · by_cases hmem : id ∈ snapshot w
    · rw [hinside id hmem, hcold] at hwarm
      cases hwarm
    · rw [h.outside id hmem, hentry, hcold] at hwarm
      cases hwarm

section Calls

variable (hcode : env.code.Spares fun _ : σ => ())
include hcode

theorem attach_served (hbound : Bound w) (context : Context) :
    Ends (attach env context) w fun _ w' =>
      Served (.registry (.setContext (some context))) w w' := by
  refine ((attach_serial hcode context w).and (attach_throughout hcode hbound.ranged context)).imp
    fun _ w' ⟨hserial, h⟩ => ?_
  have hcontext : w'.context = some ⟨w.serial, context⟩ := h.kept.context
  have hwarm : ∀ e e', Entry.Attached ⟨w.serial, context⟩ e e' →
      e'.warm = e.warm.map (Warm.rebind ⟨w.serial, context⟩) := by
    rintro e _ ⟨t, -, rfl⟩
    rfl
  refine served_of_throughout hbound h hwarm rfl rfl hserial.le (fun ref href => ?_) hcontext
    fun x hx => ?_
  · rw [hcontext] at href
    cases href
    exact hserial
  · have hnew : x.bound.any (·.serial == w.serial) = false := by
      rw [hx]
      cases hbefore : w.context with
      | none => rfl
      | some ref => simpa using Nat.ne_of_lt (hbound.past ref hbefore)
    rw [hcontext, Warm.rebind, rebound, hnew]
    rfl

theorem detach_served (hbound : Bound w) :
    Ends (detach env) w fun _ w' => Served (.registry (.setContext none)) w w' := by
  have hlater : Ends (detach env) w fun _ w' => Later w w' :=
    perform_later hcode (.setContext none) w
  refine (hlater.and (detach_throughout hcode hbound.ranged)).imp fun _ w' ⟨hlater, h⟩ => ?_
  have hcontext : w'.context = none := h.kept.context
  have hwarm : ∀ e e', Entry.Detached e e' → e'.warm = e.warm.map Warm.unbind := by
    rintro e _ rfl
    rfl
  refine served_of_throughout hbound h hwarm rfl rfl hlater (fun ref href => ?_) hcontext
    fun x _ => hcontext.symm
  rw [hcontext] at href
  cases href

theorem perform_served (hbound : Bound w) (op : Operation σ) :
    Ends (perform env op) w fun _ w' => Served (.registry op) w w' := by
  have hordinary : (Call.registry op).Ordinary := trivial
  have hranged : Ends (perform env op) w fun _ w' => Ranged w' :=
    (serve_steps hcode hbound.ranged hordinary).imp fun _ _ hsteps => hsteps.ranged hbound.ranged
  have hlater : Ends (perform env op) w fun _ w' => Later w w' := perform_later hcode op w
  have hwithin : env.directory.Within Anyhow :=
    ⟨fun _ _ => trivial, fun _ _ => trivial, fun _ _ => trivial⟩
  rcases op.kinds with harranges | hasks | ⟨_ | context, rfl⟩
  · have habides : Ends (perform env op) w fun _ w' => Abides w w' :=
      abides_rearranged.perform hwithin hcode hbound.ranged harranges fun _ h => h
    refine ((hranged.and hlater).and habides).imp fun _ w' ⟨⟨hranged', hlater'⟩, h⟩ =>
      h.served hbound hranged' hlater' ?_
    cases op <;> first | rfl | exact harranges.elim
  · refine ((hranged.and hlater).and (perform_attended hcode hbound.ranged hasks)).imp
      fun _ w' ⟨⟨hranged', hlater'⟩, h⟩ => h.abides.served hbound hranged' hlater' ?_
    cases op <;> first | rfl | exact hasks.elim
  · exact detach_served hcode hbound
  · exact attach_served hcode hbound context

theorem serveEntry_served (hbound : Bound w) (hid : id < w.entries.length) {call : EntryCall}
    (hcall : (Call.entry id call : Call σ).LeavesBindings) :
    Ends (serveEntry env id call) w fun _ w' => Served (.entry id call) w w' := by
  have h := respected_later hcode
  have hasked := attended_queried hcode
  have hserved {α : Type} {act : Act σ α} (hlater : Ends act w fun _ w' => Later w w')
      (hattended : Ends act w fun _ w' => Attended w w') :
      Ends act w fun _ w' => Served (.entry id call) w w' :=
    (hlater.and hattended).imp fun _ w' ⟨hlater', hattended'⟩ =>
      hattended'.abides.served hbound (hbound.ranged.kept hattended'.kept) hlater' rfl
  cases call with
  | component => exact hserved (h.component id w) (hasked.component hid)
  | title => exact hserved (h.title id w) (hasked.title hid)
  | category => exact hserved (h.category id w) (hasked.category hid)
  | init | destroy => exact hcall.elim
  | dispose =>
    have hlater : Ends (dispose env id) w fun _ w' => Later w w' := h.dispose id w
    refine (hlater.and (dispose_moves hcode hid)).imp fun _ w' ⟨hlater', hmoves, hover⟩ => ?_
    have habides : Abides w w' := .ofFrame hmoves.frame fun x hwarm => by
      rw [hover.cold] at hwarm
      cases hwarm
    exact habides.served hbound
      (hbound.ranged.kept (Visits.ofMoves (List.mem_singleton_self id) hid hmoves).kept) hlater' rfl

theorem register_served (hbound : Bound w) (hid : id < w.entries.length)
    (hcold : (w.entry id).warm = none) :
    Ends (register env id) w fun _ w' => Served (.register id) w w' := by
  have hlater : Ends (register env id) w fun _ w' => Later w w' :=
    (respected_later hcode).register id w
  refine (hlater.and (register_spec hcode hid hbound.ranged)).imp fun _ w' ⟨hlater', h⟩ => ?_
  refine served_of_warm hbound (h.ranged hid hbound.ranged) hlater' h.visits.kept.context rfl
    (fun other hmem => ?_) fun other x hwarm => Or.inr (h.warm hwarm)
  rw [snapshot_congr h.visits.kept.table] at hmem
  rcases mem_snapshot_contested hmem with rfl | hold
  · exact Or.inr hcold
  · exact Or.inl hold

/-- One call keeps every binding in step, if it registers nothing that is warm already. -/
theorem serve_served (hbound : Bound w) {call : Call σ} (hcall : call.LeavesBindings)
    (hcold : ∀ id, call = .register id → (w.entry id).warm = none) :
    Ends (serve env call) w fun _ w' => Served call w w' := by
  cases call with
  | registry op => exact perform_served hcode hbound op
  | make label source =>
    have habides : Abides w (w.entered { label, source }) := by
      refine ⟨rfl, ?_, fun id hmem => Or.inl hmem, fun id x hwarm => ?_⟩
      · rw [World.length_entered]
        exact Nat.le_succ _
      · rw [World.entry_entered] at hwarm
        split at hwarm
        · cases hwarm
        · exact Or.inr hwarm
    exact habides.served hbound (ranged_entered hbound.ranged _) (Nat.le_refl _) rfl
  | register id =>
    refine ends_ifMade (fun hid => ?_) ?_
    · exact register_served hcode hbound hid (hcold id rfl)
    · exact (Abides.refl w).served hbound hbound.ranged (Nat.le_refl _) rfl
  | entry id call =>
    refine ends_ifMade (fun hid => serveEntry_served hcode hbound hid hcall) ?_
    exact (Abides.refl w).served hbound hbound.ranged (Nat.le_refl _) rfl
  | around f =>
    have habides : Abides w (w.withOutside (f w.outside)) :=
      ⟨rfl, Nat.le_refl _, fun _ hmem => Or.inl hmem, fun _ _ hwarm => Or.inr hwarm⟩
    exact habides.served hbound hbound.ranged (Nat.le_refl _) rfl

omit hcode in
theorem bound_fresh (s : σ) : Bound ({ outside := s } : World σ) := by
  refine ⟨fun id hmem => absurd hmem List.not_mem_nil, fun ref href => ?_, fun id hmem => ?_⟩
  · cases href
  · exact absurd hmem List.not_mem_nil

/-- In every state of a run, whatever the table has and is warm is bound to the context that is
attached, and unbound if none is. A context is attached under a number that no context had
before. Whatever gets warm is bound to the context of that moment. -/
theorem run_bound (s : σ) (calls : List (Call σ)) (hcalls : ∀ call ∈ calls, call.LeavesBindings)
    (hcold : ∀ done id, done ++ [.register id] <+: calls →
      ((run env done { outside := s }).entry id).warm = none) :
    let after done := run env done { outside := s }
    (∀ done, done <+: calls → ∀ id ∈ snapshot (after done), ∀ x,
      ((after done).entry id).warm = some x → x.bound = (after done).context) ∧
    ∀ done call, done ++ [call] <+: calls →
      (after (done ++ [call])).context = call.contextAfter (after done) ∧
      (∀ earlier, earlier <+: done → ∀ ref, (after earlier).context = some ref →
        ref.serial < (after done).serial) ∧
      ∀ id x, ((after done).entry id).warm = none →
        ((after (done ++ [call])).entry id).warm = some x →
          x.bound = (after done).context ∧
            (after (done ++ [call])).context = (after done).context := by
  intro after
  have hstep (done : List (Call σ)) (call : Call σ) (hdone : done ++ [call] <+: calls)
      (hbound : Bound (after done)) : Served call (after done) (after (done ++ [call])) := by
    have hcall := hcalls call (hdone.subset (List.mem_append_right done (List.mem_singleton_self _)))
    have hserved := serve_served hcode hbound hcall fun id heq => hcold done id (heq ▸ hdone)
    unfold after
    rw [run_concat]
    exact hserved
  have hall (done : List (Call σ)) (hdone : done <+: calls) : Bound (after done) ∧
      ∀ earlier, earlier <+: done → ∀ ref, (after earlier).context = some ref →
        ref.serial < (after done).serial := by
    induction done using List.reverseRecOn with
    | nil =>
      refine ⟨bound_fresh s, fun earlier hearlier ref href => ?_⟩
      rw [List.prefix_nil.mp hearlier] at href
      cases href
    | append_singleton done call ih =>
      obtain ⟨hbound, hpast⟩ := ih ((List.prefix_append done [call]).trans hdone)
      have hserved := hstep done call hdone hbound
      refine ⟨hserved.bound, fun earlier hearlier ref href => ?_⟩
      rcases List.prefix_concat_iff.mp hearlier with heq | hearlier
      · rw [heq] at href
        exact hserved.bound.past ref href
      · exact (hpast earlier hearlier ref href).trans_le hserved.later
  refine ⟨fun done hdone => (hall done hdone).1.bound, fun done call hdone => ?_⟩
  obtain ⟨hbound, hpast⟩ := hall done ((List.prefix_append done [call]).trans hdone)
  have hserved := hstep done call hdone hbound
  exact ⟨hserved.context, hpast, hserved.resolved⟩

end Calls

/-- A plugin is found before a context is attached. Another is made aside, registered, and found
for its title. Then a second context is attached. -/
def reattached : List (Call (Site Unit)) :=
  [.registry (.addDirect "f" "a"), .registry (.lookup "a"),
    .registry (.setContext (some ⟨"c", []⟩)), .make "b" (.direct "g" true), .register 1,
    .entry 1 .title, .registry (.setContext (some ⟨"d", []⟩))]

theorem reattached_bound :
    let w := run (Site.environment PluginCode.still) reattached { outside := ⟨{}, ⟨"", []⟩, ()⟩ }
    (PluginCode.still : PluginCode (Site Unit)).Spares (fun _ => ()) ∧
      (∀ call ∈ reattached, call.LeavesBindings) ∧
      (∀ done id, done ++ [.register id] <+: reattached →
        ((run (Site.environment PluginCode.still) done
          { outside := ⟨{}, ⟨"", []⟩, ()⟩ }).entry id).warm = none) ∧
      snapshot w = [0, 1] ∧ (w.entry 0).isWarm = true ∧ (w.entry 1).isWarm = true ∧
      ∀ id ∈ snapshot w, ∀ x, (w.entry id).warm = some x → x.bound = some ⟨1, ⟨"d", []⟩⟩ := by
  intro w
  have hcode : (Site.environment PluginCode.still).code.Spares fun _ : Site Unit => () :=
    PluginCode.still_spares _
  have hcalls : ∀ call ∈ reattached, call.LeavesBindings := by
    simp [reattached, Call.LeavesBindings]
  have hcold : ∀ done id, done ++ [.register id] <+: reattached →
      ((run (Site.environment PluginCode.still) done
        { outside := ⟨{}, ⟨"", []⟩, ()⟩ }).entry id).warm = none := by
    rintro done id ⟨rest, hsplit⟩
    have hcall : reattached[done.length]? = some (.register id) := by simp [← hsplit]
    have hdone : done = reattached.take done.length := by simp [← hsplit]
    rw [hdone]
    generalize done.length = n at hcall
    have hn : n < reattached.length := (List.getElem?_eq_some_iff.mp hcall).1
    change n < 7 at hn
    interval_cases n <;> simp [reattached] at hcall
    rw [← hcall]
    rfl
  have hbound := (run_bound hcode ⟨{}, ⟨"", []⟩, ()⟩ reattached hcalls hcold).1 reattached
    List.prefix_rfl
  exact ⟨PluginCode.still_spares _, hcalls, hcold, rfl, rfl, rfl, hbound⟩

end PluginConsole.Registry
