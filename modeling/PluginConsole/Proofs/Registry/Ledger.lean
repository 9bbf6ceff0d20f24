import Mathlib.Data.List.Induction
import Mathlib.Logic.Function.Basic
import PluginConsole.Proofs.Registry.Cold
import PluginConsole.Proofs.Registry.Holder
import PluginConsole.Proofs.Registry.Lifetime

/-!
# A ledger of labels

Who asks for a label is weighed against its holder, and who goes is struck out if it holds the
label. The registry does better than that at first sight, for it looks for a service under every
label.
-/

namespace PluginConsole

structure Holder where
  kind : SourceKind
  rank : Int
  id : Nat
  provider : String
  deriving DecidableEq

def Source.holder (s : Source) : Holder :=
  ⟨s.kind, s.rank, s.sequenceId, s.provider⟩

abbrev Ledger := String → Option Holder

namespace Registry

open Act

/-! ## Keeping the ledger -/

namespace Ledger

/-- The same id again is too late. Otherwise the higher rank counts, then the lower id. -/
def prefer (newcomer : Holder) : Option Holder → Holder
  | none => newcomer
  | some holder =>
    if newcomer.id = holder.id then holder
    else if newcomer.rank < holder.rank then holder
    else if holder.rank < newcomer.rank then newcomer
    else if newcomer.id < holder.id then newcomer
    else holder

def add (label : String) (newcomer : Holder) (l : Ledger) : Ledger :=
  Function.update l label (some (prefer newcomer (l label)))

def clear (label : String) (l : Ledger) : Ledger :=
  Function.update l label none

/-- A service is struck out only where it stands. -/
def retract (label : String) (id : Nat) (l : Ledger) : Ledger :=
  if (l label).any fun holder => holder.kind = .directory && holder.id = id then clear label l
  else l

theorem retract_eq_self {label : String} {id : Nat} {l : Ledger}
    (h : ∀ holder, l label = some holder → holder.kind = .directory → holder.id ≠ id) :
    retract label id l = l := by
  unfold retract
  rw [if_neg]
  cases hheld : l label with
  | none => simp
  | some holder => simpa using h holder hheld

variable {σ : Type}

def after (l : Ledger) : Operation σ → Ledger
  | .addService r =>
    match r.label with
    | some label => add label ⟨.directory, r.ranking, r.id, r.provider⟩ l
    | none => l
  | .removeService r =>
    match r.label with
    | some label => retract label r.id l
    | none => l
  | .addDirect factory label => add label ⟨.direct, 0, 0, factory⟩ l
  | .unregister label => clear label l
  | _ => l

def of (ops : List (Operation σ)) : Ledger :=
  ops.foldl after fun _ => none

theorem of_concat (done : List (Operation σ)) (op : Operation σ) :
    of (done ++ [op]) = after (of done) op := by
  unfold of
  rw [List.foldl_concat]

end Ledger

namespace Operation

variable {σ : Type}

def Files : Operation σ → Prop
  | .addService _ | .removeService _ | .addDirect .. | .unregister _ => True
  | _ => False

/-- The registry is neither opened nor closed, and hears nothing of the directory. -/
def Plain : Operation σ → Prop
  | .openUp | .close | .hear _ => False
  | _ => True

theorem Files.plain {op : Operation σ} (h : op.Files) : op.Plain := by
  cases op <;> first | exact trivial | exact h

def service? : Operation σ → Option Reference
  | .addService r | .removeService r => some r
  | _ => none

end Operation

variable {σ : Type} {env : Environment σ} {w w' : World σ} {done ops : List (Operation σ)}

/-- No id is used with two labels. -/
def OneLabel (ops : List (Operation σ)) : Prop :=
  ∀ a ∈ ops.filterMap Operation.service?, ∀ b ∈ ops.filterMap Operation.service?,
    a.id = b.id → a.label = b.label

theorem OneLabel.subset {others : List (Operation σ)} (h : OneLabel ops)
    (hsubset : ∀ op ∈ others, op ∈ ops) : OneLabel others := by
  have hmem : ∀ r ∈ others.filterMap Operation.service?, r ∈ ops.filterMap Operation.service? := by
    intro r hr
    obtain ⟨op, hop, hservice⟩ := List.mem_filterMap.mp hr
    exact List.mem_filterMap.mpr ⟨op, hsubset op hop, hservice⟩
  exact fun a ha b hb => h a (hmem a ha) b (hmem b hb)

/-! ## What the ledger says of a registry -/

def ledger (w : World σ) : Ledger :=
  fun label => (held w label).map Source.holder

theorem holder_contest (newcomer : Source) (holder : Option Source) :
    (newcomer.contest holder).holder = Ledger.prefer newcomer.holder (holder.map Source.holder) := by
  cases holder with
  | none => rfl
  | some holder =>
    unfold Source.contest Ledger.prefer
    rw [Option.map_some]
    dsimp only
    split
    · rename_i hbeats
      rw [Source.beats_iff] at hbeats
      grind [Source.holder]
    · rename_i hloses
      rw [Source.beats_iff] at hloses
      grind [Source.holder]

theorem ledger_joined (hranged : Ranged w) (label : String) (source : Source) :
    ledger (joined label source w) = Ledger.add label source.holder (ledger w) := by
  funext other
  unfold ledger Ledger.add
  rw [held_joined hranged, Function.update_apply]
  split
  · rw [Option.map_some, holder_contest]
  · rfl

theorem ledger_erased (w : World σ) (label : String) :
    ledger { w with table := Dict.erase label w.table } = Ledger.clear label (ledger w) := by
  funext other
  unfold ledger Ledger.clear
  rw [held_erased, Function.update_apply]
  split <;> rfl

theorem owns_iff (w : World σ) (label : String) (id : Nat) :
    ((ledger w label).any fun holder => holder.kind = .directory && holder.id = id) = true ↔
      ∃ now, held w label = some (.directory now) ∧ now.id = id := by
  unfold ledger
  rw [Option.any_map]
  cases held w label with
  | none => simp
  | some s =>
    cases s with
    | directory now => simp [Source.holder, Source.kind, Source.sequenceId, eq_comm]
    | direct => simp [Source.holder, Source.kind]

theorem ledger_dismissed (hfiled : Filed w) {r : Reference}
    (hlabel : ∀ label now, held w label = some (.directory now) → now.id = r.id →
      r.label = some label) :
    ledger (dismissed r w) = match r.label with
      | some label => Ledger.retract label r.id (ledger w)
      | none => ledger w := by
  unfold dismissed
  cases hheld : heldLabel w r with
  | some label =>
    obtain ⟨now, hnow, hid⟩ := owned_of_heldLabel hfiled hheld
    dsimp only
    rw [hlabel label now hnow hid, ledger_erased]
    dsimp only [Ledger.retract]
    rw [if_pos ((owns_iff w label r.id).mpr ⟨now, hnow, hid⟩)]
  | none =>
    dsimp only
    split
    · rename_i label _
      unfold Ledger.retract
      rw [if_neg]
      rw [owns_iff]
      rintro ⟨now, hnow, hid⟩
      obtain ⟨other, hother⟩ := heldLabel_of_owned r hnow hid
      rw [hheld] at hother
      cases hother
    · rfl

/-! ## One operation -/

def written (env : Environment σ) (op : Operation σ) (w : World σ) : World σ :=
  match op with
  | .addService r => enlisted r w
  | .removeService r => dismissed r w
  | .addDirect factory label => joined label (.direct factory (env.code.hasFactory factory)) w
  | .unregister label => { w with table := Dict.erase label w.table }
  | _ => w

theorem perform_written (hcode : env.code.Respects Undisturbed) {op : Operation σ}
    (hplain : op.Plain) (w : World σ) :
    Ends (perform env op) w fun _ w' => Undisturbed (written env op w) w' := by
  have h := respected_undisturbed hcode
  have hsettings (w : World σ) (context : Option ContextRef) (defaultLabel : Option String) :
      Undisturbed w { w with context, defaultLabel } :=
    ⟨rfl, Nat.le_refl _, fun _ _ => rfl, fun _ _ => rfl⟩
  have hmessages (w : World σ) (s : σ) : Undisturbed w (w.withOutside s) :=
    ⟨rfl, Nat.le_refl _, fun _ _ => rfl, fun _ _ => rfl⟩
  cases op with
  | openUp | close | hear => exact hplain.elim
  | addService r => exact h.addService r w
  | removeService r => exact h.removeService r w
  | addDirect factory label => exact h.addDirect factory label w
  | unregister label => exact h.unregister label w
  | lookup | lookupDefault | labelMap | describe =>
    exact h.queried.perform (fun _ _ _ _ _ w => hmessages w _) trivial trivial
      (Operation.calm_blind _)
  | setDefaultLabel label => exact hsettings w w.context label
  | setContext context =>
    exact h.setContext (fun w context => hsettings w context w.defaultLabel) context w

/-- The registry says what the ledger says, and every service in it came with its label. -/
structure Booked (done : List (Operation σ)) (w : World σ) : Prop where
  filed : Filed w
  ledger : ledger w = Ledger.of done
  announced : ∀ label r, held w label = some (.directory r) →
    r.label = some label ∧ r ∈ done.filterMap Operation.service?

theorem Booked.undisturbed (h : Undisturbed w w') (hbooked : Booked done w) : Booked done w' := by
  have hheld := h.held_eq hbooked.filed.ranged
  refine ⟨h.filed hbooked.filed, ?_, ?_⟩
  · rw [← hbooked.ledger]
    unfold Registry.ledger
    rw [hheld]
  · rw [hheld]
    exact hbooked.announced

theorem mem_service_of_mem {r : Reference} (op : Operation σ)
    (h : r ∈ done.filterMap Operation.service?) : r ∈ (done ++ [op]).filterMap Operation.service? := by
  rw [List.filterMap_append]
  exact List.mem_append_left _ h

theorem booked_joined (h : Booked done w) {label : String} {source : Source} {op : Operation σ}
    (hsource : ∀ r, source = .directory r → r.label = some label ∧ op.service? = some r)
    (hafter : Ledger.after (Ledger.of done) op =
      Ledger.add label source.holder (Ledger.of done)) :
    Booked (done ++ [op]) (joined label source w) := by
  refine ⟨filed_joined h.filed label source, ?_, fun other r hr => ?_⟩
  · rw [ledger_joined h.filed.ranged, h.ledger, Ledger.of_concat, hafter]
  rw [held_joined h.filed.ranged] at hr
  have hold {r : Reference} (hr : held w other = some (.directory r)) :
      r.label = some other ∧ r ∈ (done ++ [op]).filterMap Operation.service? :=
    (h.announced other r hr).imp_right (mem_service_of_mem op)
  split at hr
  · rename_i hother
    have hnew {r : Reference} (hr : source = .directory r) :
        r.label = some other ∧ r ∈ (done ++ [op]).filterMap Operation.service? := by
      obtain ⟨hlabel, hservice⟩ := hsource r hr
      refine ⟨by rw [hother]; exact hlabel, ?_⟩
      rw [List.filterMap_append]
      exact List.mem_append_right _ (List.mem_filterMap.mpr ⟨op, List.mem_singleton_self op, hservice⟩)
    rw [hother] at hold
    unfold Source.contest at hr
    cases hholder : held w label with
    | none =>
      rw [hholder] at hr
      exact hnew (Option.some.inj hr)
    | some holder =>
      rw [hholder] at hr hold
      dsimp only at hr
      split at hr
      · exact hnew (Option.some.inj hr)
      · rw [hother]
        exact hold hr
  · exact hold hr

theorem booked_erased (h : Booked done w) {op : Operation σ} {label : String}
    (hafter : Ledger.after (Ledger.of done) op = Ledger.clear label (Ledger.of done)) :
    Booked (done ++ [op]) { w with table := Dict.erase label w.table } := by
  refine ⟨filed_erased h.filed label, ?_, fun other r hr => ?_⟩
  · rw [ledger_erased, h.ledger, Ledger.of_concat, hafter]
  · rw [held_erased] at hr
    split at hr
    · cases hr
    · exact (h.announced other r hr).imp_right (mem_service_of_mem op)

theorem booked_kept (h : Booked done w) {op : Operation σ}
    (hafter : Ledger.after (Ledger.of done) op = Ledger.of done) : Booked (done ++ [op]) w := by
  refine ⟨h.filed, ?_, fun label r hr => ?_⟩
  · rw [h.ledger, Ledger.of_concat, hafter]
  · exact (h.announced label r hr).imp_right (mem_service_of_mem op)

theorem booked_dismissed (h : Booked done w) {r : Reference}
    (hone : OneLabel (done ++ [.removeService r])) :
    Booked (done ++ [.removeService r]) (dismissed r w) := by
  have hmem : r ∈ (done ++ [Operation.removeService r]).filterMap Operation.service? := by
    rw [List.filterMap_append]
    exact List.mem_append_right _ (List.mem_singleton_self r)
  have hlabel (label : String) (now : Reference) (hnow : held w label = some (.directory now))
      (hid : now.id = r.id) : r.label = some label := by
    obtain ⟨hannounced, hbefore⟩ := h.announced label now hnow
    rw [hone r hmem now (mem_service_of_mem _ hbefore) hid.symm, hannounced]
  have hledger := ledger_dismissed h.filed hlabel
  rw [h.ledger] at hledger
  refine ⟨?_, by rw [hledger, Ledger.of_concat]; rfl, fun label now hnow => ?_⟩
  · unfold dismissed
    split
    · exact h.filed
    · exact filed_erased h.filed _
  · refine (h.announced label now ?_).imp_right (mem_service_of_mem _)
    unfold dismissed at hnow
    split at hnow
    · exact hnow
    · rw [held_erased] at hnow
      split at hnow
      · cases hnow
      · exact hnow

theorem booked_written (h : Booked done w) {op : Operation σ} (hplain : op.Plain)
    (hone : OneLabel (done ++ [op])) : Booked (done ++ [op]) (written env op w) := by
  cases op with
  | openUp | close | hear => exact hplain.elim
  | addService r =>
    show Booked _ (enlisted r w)
    unfold enlisted
    cases hlabel : r.label with
    | none =>
      have hafter : Ledger.after (Ledger.of done) (Operation.addService r : Operation σ) =
          Ledger.of done := by
        simp only [Ledger.after, hlabel]
      exact booked_kept h hafter
    | some label =>
      have hafter : Ledger.after (Ledger.of done) (Operation.addService r : Operation σ) =
          Ledger.add label (Source.directory r).holder (Ledger.of done) := by
        simp only [Ledger.after, hlabel]
        rfl
      refine booked_joined h ?_ hafter
      rintro _ ⟨⟩
      exact ⟨hlabel, rfl⟩
  | removeService r => exact booked_dismissed h hone
  | addDirect factory label => exact booked_joined h (fun _ hr => by cases hr) rfl
  | unregister label => exact booked_erased h rfl
  | lookup | lookupDefault | setDefaultLabel | labelMap | describe | setContext =>
    exact booked_kept h rfl

/-! ## Runs -/

theorem booked_fresh (s : σ) : Booked ([] : List (Operation σ)) ({ outside := s } : World σ) where
  filed := ⟨Dict.sorted_nil, fun _ _ hmem => absurd hmem List.not_mem_nil⟩
  ledger := rfl
  announced _ _ hr := by cases hr

theorem run_booked (hcode : env.code.Respects Undisturbed) (s : σ) {ops : List (Operation σ)}
    (hplain : ∀ op ∈ ops, op.Plain) (hone : OneLabel ops) :
    Booked ops (run env (ops.map .registry) { outside := s }) := by
  induction ops using List.reverseRecOn with
  | nil => exact booked_fresh s
  | append_singleton done op ih =>
    have hbefore := ih (fun other hmem => hplain other (List.mem_append_left _ hmem))
      (hone.subset fun other hmem => List.mem_append_left _ hmem)
    have hop := hplain op (List.mem_append_right _ (List.mem_singleton_self op))
    rw [List.map_append, List.map_singleton, run_concat]
    exact Booked.undisturbed (perform_written hcode hop _) (booked_written hbefore hop hone)

def stilled (env : Environment σ) : Environment σ :=
  { env with code := { PluginCode.still with hasFactory := env.code.hasFactory } }

theorem respects_still {R : World σ → World σ → Prop} (hrefl : ∀ w, R w w) :
    (PluginCode.still : PluginCode σ).Respects R := by
  constructor <;> intros <;> exact fun w => hrefl w

theorem stilled_respects (env : Environment σ) : (stilled env).code.Respects Undisturbed := by
  have h : (PluginCode.still : PluginCode σ).Respects Undisturbed := respects_still .refl
  exact ⟨h.create, h.activate, h.deactivate, h.title, h.category, h.init, h.destroy⟩

theorem agree_perform (env : Environment σ) (hcold : Cold w) {op : Operation σ} (hfiles : op.Files) :
    Agree (perform env op) (perform (stilled env) op) w := by
  have hfactory : (stilled env).code.hasFactory = env.code.hasFactory := rfl
  cases op with
  | addService r => exact agree_addService hcold r
  | removeService r => exact agree_removeService hcold r
  | addDirect factory label => exact agree_addDirect hcold hfactory factory label
  | unregister label => exact agree_discard (agree_unregister hcold label)
  | _ => exact hfiles.elim

/-- Without a query no component is ever made, and no code called. -/
theorem run_stilled (s : σ) {ops : List (Operation σ)} (hfiles : ∀ op ∈ ops, op.Files) :
    run (stilled env) (ops.map .registry) { outside := s } =
        run env (ops.map .registry) { outside := s } ∧
      Cold (run env (ops.map .registry) { outside := s }) := by
  induction ops using List.reverseRecOn with
  | nil =>
    have hcold : Cold ({ outside := s } : World σ) := fun _ => rfl
    refine ⟨?_, hcold⟩
    simp only [List.map_nil, run, List.foldl_nil]
  | append_singleton done op ih =>
    obtain ⟨hsame, hcold⟩ := ih fun other hmem => hfiles other (List.mem_append_left _ hmem)
    have hop := hfiles op (List.mem_append_right _ (List.mem_singleton_self op))
    obtain ⟨hagree, hcold'⟩ := agree_perform env hcold hop
    rw [List.map_append, List.map_singleton, run_concat, run_concat, hsame]
    exact ⟨congrArg Prod.snd hagree, hcold'⟩

/-- Nothing but entries is filed, or the code that queries call leaves the registrations alone. -/
def Keeps (env : Environment σ) (ops : List (Operation σ)) : Prop :=
  (∀ op ∈ ops, op.Files) ∨ ((∀ op ∈ ops, op.Plain) ∧ env.code.Respects Undisturbed)

theorem run_booked_of_keeps (s : σ) (hkeeps : Keeps env ops) (hone : OneLabel ops) :
    Booked ops (run env (ops.map .registry) { outside := s }) := by
  rcases hkeeps with hfiles | ⟨hplain, hcode⟩
  · rw [← (run_stilled s hfiles).1]
    exact run_booked (stilled_respects env) s (fun op hmem => (hfiles op hmem).plain) hone
  · exact run_booked hcode s hplain hone

/-- After every operation the table is what the ledger says, and a service that does not hold
its label may be retracted without any effect. -/
theorem run_ledger (s : σ) (ops : List (Operation σ)) (hkeeps : Keeps env ops)
    (hone : OneLabel ops) :
    (∀ done, done <+: ops →
      ledger (run env (done.map .registry) { outside := s }) = Ledger.of done) ∧
    ∀ (done : List (Operation σ)) (r : Reference),
      done ++ [(.removeService r : Operation σ)] <+: ops →
      (∀ label holder, r.label = some label → Ledger.of done label = some holder →
        holder.kind = .directory → holder.id ≠ r.id) →
      let w := run env (done.map .registry) { outside := s }
      ledger (removeService env r w).2 = ledger w := by
  have hledger : ∀ done, done <+: ops →
      ledger (run env (done.map .registry) { outside := s }) = Ledger.of done := by
    intro done hdone
    have hmem : ∀ op ∈ done, op ∈ ops := fun op h => hdone.subset h
    refine (run_booked_of_keeps s ?_ (hone.subset hmem)).ledger
    rcases hkeeps with hfiles | ⟨hplain, hcode⟩
    · exact Or.inl fun op h => hfiles op (hmem op h)
    · exact Or.inr ⟨fun op h => hplain op (hmem op h), hcode⟩
  refine ⟨hledger, fun done r hdone hlost => ?_⟩
  intro w
  have hafter := hledger _ hdone
  rw [List.map_append, List.map_singleton, run_concat, Ledger.of_concat] at hafter
  have hbefore : ledger w = Ledger.of done :=
    hledger done ((List.prefix_append _ _).trans hdone)
  rw [hbefore]
  refine hafter.trans ?_
  cases hlabel : r.label with
  | none => simp only [Ledger.after, hlabel]
  | some label =>
    simp only [Ledger.after, hlabel]
    exact Ledger.retract_eq_self (hlost label · hlabel)

/-- Two services of one rank and a plugin ask for a label, and the service that lost it goes. -/
def rivals : List (Operation (Site Unit)) :=
  let early := Reference.make 3 "m" [(Property.label, .text "a"), (Property.serviceRanking, .int 5)]
  let late := Reference.make 7 "n" [(Property.label, .text "a"), (Property.serviceRanking, .int 5)]
  [.addService late, .lookup "a", .addDirect "p" "a", .addService early, .removeService late]

theorem rivals_ledger :
    let env : Environment (Site Unit) := Site.environment PluginCode.still
    Keeps env rivals ∧ OneLabel rivals ∧
      ledger (run env (rivals.map .registry) { outside := ⟨{}, ⟨"", []⟩, ()⟩ }) "a" =
        some ⟨.directory, 5, 3, "service #3"⟩ := by
  intro env
  have hcode : env.code.Respects Undisturbed := respects_still .refl
  have hkeeps : Keeps env rivals := Or.inr ⟨by simp [rivals, Operation.Plain], hcode⟩
  have hone : OneLabel rivals := by
    unfold OneLabel
    decide +kernel
  refine ⟨hkeeps, hone, ?_⟩
  rw [(run_ledger ⟨{}, ⟨"", []⟩, ()⟩ rivals hkeeps hone).1 rivals List.prefix_rfl]
  decide +kernel

end Registry

end PluginConsole
