import Mathlib.Data.List.Chain
import Mathlib.Data.List.DropRight
import PluginConsole.Proofs.Lifecycle.Consult
import PluginConsole.Site

/-!
# Failures are reported once

The code of plugins may come back in the middle of an attempt and make another one for the same
entry. So attempts stand in the order in which they end, and what an attempt says of itself it says
after whatever the code wrote.
-/

namespace PluginConsole.Lifecycle

open Act Entry

variable {σ δ : Type}

/-! ## Reports -/

theorem report_of_armed {w : World σ} {id : EntryId} (n : Notice)
    (harmed : (w.entry id).armed = true) :
    report id n w = ((), { w.modifyEntry id (Entry.rearm false) with log := w.log ++ [n] }) := by
  have hends : Ends (report id n) w fun done w' => (done, w') =
      ((), { w.modifyEntry id (Entry.rearm false) with log := w.log ++ [n] }) := by
    unfold report
    simp only [ends_bind, ends_entry, harmed, if_true, ends_modifyEntry, ends_note]
    rfl
  exact hends

theorem report_of_spent {w : World σ} {id : EntryId} (n : Notice)
    (hspent : (w.entry id).armed = false) : report id n w = ((), w) := by
  have hends : Ends (report id n) w fun done w' => (done, w') = ((), w) := by
    unfold report
    simp only [ends_bind, ends_entry, hspent, Bool.false_eq_true, if_false, ends_pure]
  exact hends

/-! ## Attempts -/

/-- An entry whose component is made by a factory. -/
structure Direct where
  id : EntryId
  factory : String
  /-- Whether there is a factory of that name. -/
  known : Bool

/-- Whether the next failure will be reported. -/
def Direct.armed (p : Direct) (w : World σ) : Bool :=
  (w.entry p.id).armed

structure Direct.In (p : Direct) (w : World σ) : Prop where
  made : p.id < w.entries.length
  source : (w.entry p.id).source = .direct p.factory p.known

/-- A search for a component: whom it deals with, and the world it starts in. -/
structure Attempt (σ : Type) where
  env : Environment σ
  start : World σ

/-- Nothing that was made or recorded is undone. -/
structure Lengthened (w w' : World σ) : Prop where
  length : w.entries.length ≤ w'.entries.length
  history : w.history <+: w'.history

namespace Attempt

variable (p : Direct) (a : Attempt σ)

def found : Option Component :=
  (acquire a.env p.id a.start).1

def finish : World σ :=
  (acquire a.env p.id a.start).2

def disabled : Bool :=
  a.env.host.isDisabled a.start.outside p.factory

def made : Except Fault Component × World σ :=
  instantiate a.env p.id p.factory p.known a.start

/-- The world in which it is known what the attempt comes to, and nothing was said of it yet. -/
def decided : World σ :=
  if a.disabled p then a.start else (a.made p).2

def records : List Notice :=
  (a.finish p).log.drop (a.decided p).log.length

/-- The factory is called, and it is so before anything else is done. -/
def Called : Prop :=
  a.start.history ++ [⟨p.id, .create p.factory, a.start.outside⟩] <+: (a.finish p).history

def Complains (n : Notice) : Prop :=
  if a.disabled p then n = .disabled p.factory
  else ∃ f, (a.made p).1 = .error f ∧ n = .notInstantiated p.factory f.message

/-- The entry is there, and plugin code may do anything but undo what was done. -/
structure Tries : Prop where
  entered : p.In a.start
  code : a.env.code.Respects Lengthened

inductive Says : List Notice → Prop where
  | succeeded (henabled : a.disabled p = false) (hfound : (a.found p).isSome = true) : Says []
  | complained (n : Notice) (hcomplains : a.Complains p n) (hfound : a.found p = none)
    (harmed : p.armed (a.decided p) = true) : Says [n]
  | silent (hfound : a.found p = none) (hspent : p.armed (a.decided p) = false) : Says []

/-- All that an attempt does once it is known what it comes to: the next failure will be reported
exactly if this was none. -/
structure Concluded : Prop where
  spoken : a.Says p (a.records p)
  log : (a.finish p).log = (a.decided p).log ++ a.records p
  history : (a.finish p).history = (a.decided p).history
  armed : p.armed (a.finish p) = (a.found p).isSome

variable {p a}

/-! ## How an attempt ends -/

theorem Tries.acquire_eq (h : a.Tries p) :
    acquire a.env p.id a.start =
      if a.disabled p then (none, (report p.id (.disabled p.factory) a.start).2)
      else match a.made p with
        | (.ok c, w) => (some c, w.modifyEntry p.id (Entry.rearm true))
        | (.error f, w) => (none, (report p.id (.notInstantiated p.factory f.message) w).2) := by
  show Ends (acquire a.env p.id) a.start fun found w' => (found, w') = _
  unfold acquire acquireDirect
  simp only [ends_bind, ends_entry, h.entered.source, ends_get]
  cases hdisabled : a.disabled p with
  | true =>
    rw [if_pos (show a.env.host.isDisabled _ _ = true from hdisabled)]
    rfl
  | false =>
    rw [if_neg (Bool.not_eq_true _ ▸ hdisabled), ends_bind]
    rcases hmade : a.made p with ⟨f | c, w⟩
    · exact Ends.of_eq hmade rfl
    · exact Ends.of_eq hmade rfl

theorem decided_of_disabled (hdisabled : a.disabled p = true) : a.decided p = a.start :=
  if_pos hdisabled

theorem decided_of_enabled (henabled : a.disabled p = false) : a.decided p = (a.made p).2 :=
  if_neg (Bool.not_eq_true _ ▸ henabled)

/-! ## While the factory is at work -/

theorem decided_of_uncalled (h : ¬(a.disabled p = false ∧ p.known = true)) :
    a.decided p = a.start := by
  cases hdisabled : a.disabled p with
  | true => exact decided_of_disabled hdisabled
  | false =>
    have hunknown : p.known = false := by simpa [hdisabled] using h
    rw [decided_of_enabled hdisabled, made, hunknown]
    rfl

theorem decided_respects {R : World σ → World σ → Prop} (h : Behaved a.env R)
    (hrecord : ∀ (w : World σ) {event : EntryEvent}, event.IsSupply → R w (w.recorded p.id event)) :
    R a.start (a.decided p) := by
  cases hdisabled : a.disabled p with
  | true =>
    rw [decided_of_disabled hdisabled]
    exact h.refl _
  | false =>
    rw [decided_of_enabled hdisabled]
    exact h.instantiate hrecord _ _ _

theorem lengthened_behaved {env : Environment σ} (hcode : env.code.Respects Lengthened) :
    Behaved env Lengthened where
  refl _ := ⟨Nat.le_refl _, List.prefix_rfl⟩
  trans h h' := ⟨h.length.trans h'.length, h.history.trans h'.history⟩
  code := hcode

theorem lengthened_recorded (id : EntryId) (event : EntryEvent) (w : World σ) :
    Lengthened w (w.recorded id event) :=
  ⟨Nat.le_refl _, List.prefix_append _ _⟩

theorem decided_unnoticed {view : σ → δ} (hcode : a.env.code.Spares view) :
    Unnoticed a.start (a.decided p) :=
  decided_respects (unnoticed_behaved hcode) fun _ _ _ => ⟨rfl, rfl⟩

theorem armed_decided {view : σ → δ} (hcode : a.env.code.Spares view) :
    p.armed (a.decided p) = p.armed a.start :=
  congrArg Entry.armed (World.entry_congr (decided_unnoticed hcode).entries p.id)

theorem Tries.lengthened (h : a.Tries p) : Lengthened a.start (a.decided p) :=
  decided_respects (lengthened_behaved h.code) fun w event _ => lengthened_recorded p.id event w

theorem Tries.decided_entered (h : a.Tries p) : p.id < (a.decided p).entries.length :=
  Nat.lt_of_lt_of_le h.entered.made h.lengthened.length

/-! ## One attempt -/

namespace Says

variable {told : List Notice} (h : a.Says p told)
include h

theorem ne_nil_iff : told ≠ [] ↔ a.found p = none ∧ p.armed (a.decided p) = true := by
  cases h with
  | succeeded _ hfound =>
    refine iff_of_false (fun hnil => hnil rfl) fun hfailed => ?_
    rw [hfailed.1] at hfound
    cases hfound
  | complained n _ hfound harmed => exact iff_of_true (List.cons_ne_nil n []) ⟨hfound, harmed⟩
  | silent _ hspent =>
    refine iff_of_false (fun hnil => hnil rfl) fun hfailed => ?_
    rw [hfailed.2] at hspent
    cases hspent

theorem eq_nil (hfound : (a.found p).isSome = true) : told = [] := by
  by_contra htold
  rw [(h.ne_nil_iff.mp htold).1] at hfound
  cases hfound

theorem length_le : told.length ≤ 1 := by
  cases h <;> simp

theorem complains : ∀ n ∈ told, a.Complains p n := by
  cases h with
  | succeeded => simp
  | complained n hcomplains => simpa using hcomplains
  | silent => simp

end Says

theorem Concluded.of {told : List Notice} (spoken : a.Says p told)
    (log : (a.finish p).log = (a.decided p).log ++ told)
    (history : (a.finish p).history = (a.decided p).history)
    (armed : p.armed (a.finish p) = (a.found p).isSome) : a.Concluded p := by
  obtain rfl : a.records p = told := by
    unfold records
    rw [log, List.drop_left]
  exact ⟨spoken, log, history, armed⟩

theorem armed_rearm {w : World σ} (hid : p.id < w.entries.length) (flag : Bool)
    (log : List Notice) :
    p.armed { w.modifyEntry p.id (Entry.rearm flag) with log } = flag :=
  congrArg Entry.armed (World.entry_modifyEntry_self (Entry.rearm flag) w hid)

theorem Tries.failed (h : a.Tries p) {n : Notice} (hcomplains : a.Complains p n)
    (hacquire : acquire a.env p.id a.start = (none, (report p.id n (a.decided p)).2)) :
    a.Concluded p := by
  have hfound : a.found p = none := congrArg Prod.fst hacquire
  have hfinish : a.finish p = (report p.id n (a.decided p)).2 := congrArg Prod.snd hacquire
  cases harmed : p.armed (a.decided p) with
  | true =>
    rw [report_of_armed n harmed] at hfinish
    refine .of (.complained n hcomplains hfound harmed) ?_ ?_ ?_
    · rw [hfinish]
    · rw [hfinish]
      rfl
    · rw [hfinish, hfound]
      exact armed_rearm h.decided_entered false _
  | false =>
    rw [report_of_spent n harmed] at hfinish
    refine .of (.silent hfound harmed) ?_ ?_ ?_
    · rw [hfinish, List.append_nil]
    · rw [hfinish]
    · rw [hfinish, hfound]
      exact harmed

theorem Tries.concluded (h : a.Tries p) : a.Concluded p := by
  have hacquire := h.acquire_eq
  cases hdisabled : a.disabled p with
  | true =>
    have hcomplains : a.Complains p (.disabled p.factory) := by simp [Complains, hdisabled]
    rw [hdisabled, if_pos rfl] at hacquire
    refine h.failed hcomplains ?_
    rw [decided_of_disabled hdisabled]
    exact hacquire
  | false =>
    have hdecided := decided_of_enabled hdisabled
    rw [hdisabled, if_neg Bool.false_ne_true] at hacquire
    rcases hmade : a.made p with ⟨f | c, w⟩
    all_goals rw [hmade] at hacquire hdecided
    · have hcomplains : a.Complains p (.notInstantiated p.factory f.message) := by
        simp [Complains, hdisabled, hmade]
      exact h.failed hcomplains (hdecided ▸ hacquire)
    · have hfound : a.found p = some c := congrArg Prod.fst hacquire
      have hfinish : a.finish p = (a.decided p).modifyEntry p.id (Entry.rearm true) :=
        hdecided ▸ congrArg Prod.snd hacquire
      refine .of (.succeeded hdisabled (by rw [hfound]; rfl)) ?_ ?_ ?_
      · rw [hfinish, List.append_nil]
        rfl
      · rw [hfinish]
        rfl
      · rw [hfinish, hfound]
        exact armed_rearm h.decided_entered true _

theorem Tries.called_iff (h : a.Tries p) :
    a.Called p ↔ a.disabled p = false ∧ p.known = true := by
  unfold Called
  rw [h.concluded.history]
  by_cases hcalled : a.disabled p = false ∧ p.known = true
  · refine iff_of_true ?_ hcalled
    rw [decided_of_enabled hcalled.1, made, hcalled.2]
    have hcreated := (lengthened_behaved h.code).created
      (fun w event _ => lengthened_recorded p.id event w) p.factory a.start
    exact hcreated.history
  · refine iff_of_false (fun hprefix => ?_) hcalled
    rw [decided_of_uncalled hcalled] at hprefix
    have hlength := hprefix.length_le
    rw [List.length_append] at hlength
    exact Nat.not_succ_le_self _ hlength

end Attempt

/-! ## A sequence of attempts -/

/-- All attempts for an entry since it was made, in the order in which they end. Between two of
them nothing changes what is remembered of the reports. -/
structure InTurn (p : Direct) (attempts : List (Attempt σ)) : Prop where
  tries : ∀ a ∈ attempts, a.Tries p
  first : ∀ a ∈ attempts.head?, p.armed (a.decided p) = true
  next : attempts.IsChain fun a b => p.armed (b.decided p) = p.armed (a.finish p)

/-- The attempts since the last that succeeded, or else since the entry was made. -/
def streak (p : Direct) (before : List (Attempt σ)) : List (Attempt σ) :=
  before.rtakeWhile fun b => (b.found p).isNone

structure Reported (p : Direct) (before : List (Attempt σ)) (a : Attempt σ) : Prop where
  /-- A failure is told if none was told since the last success. -/
  told : a.records p ≠ [] ↔ a.found p = none ∧ ∀ b ∈ streak p before, b.records p = []
  once : (a.records p).length ≤ 1
  complains : ∀ n ∈ a.records p, a.Complains p n
  rearmed : (a.found p).isSome → a.records p = [] ∧ p.armed (a.finish p) = true
  /-- Who is disabled, or has no factory, is not even tried. -/
  called : a.Called p ↔ a.disabled p = false ∧ p.known = true
  uncalled : ¬a.Called p → (a.finish p).history = a.start.history
  /-- All that is new in the log, if the code of plugins does not come back. -/
  whole : (a.env.code.Spares fun _ => ()) → (a.finish p).log = a.start.log ++ a.records p

variable {p : Direct} {before after : List (Attempt σ)} {a : Attempt σ}

theorem InTurn.armed_snoc {b : Attempt σ} (h : InTurn p (before ++ b :: a :: after)) :
    p.armed (a.decided p) = (b.found p).isSome := by
  have htries : b.Tries p := h.tries b (by simp)
  have hnext := (List.isChain_append.mp h.next).2.1
  rw [List.isChain_cons_cons] at hnext
  rw [hnext.1, htries.concluded.armed]

/-- A failure will be reported exactly if none was since the last success. -/
theorem InTurn.armed_iff (h : InTurn p (before ++ a :: after)) :
    p.armed (a.decided p) = true ↔ ∀ b ∈ streak p before, b.records p = [] := by
  -- The last attempt before tells: a success ends the streak, and a failure is told, or one was.
  induction before using List.reverseRecOn generalizing a after with
  | nil => exact iff_of_true (h.first a rfl) (by simp [streak])
  | append_singleton before b ih =>
    rw [List.append_assoc, List.singleton_append] at h
    have htries : b.Tries p := h.tries b (by simp)
    rw [h.armed_snoc]
    cases hfound : b.found p with
    | some c =>
      have hstreak : streak p (before ++ [b]) = [] :=
        List.rtakeWhile_concat_neg _ _ _ (by simp [hfound])
      exact iff_of_true rfl (by simp [hstreak])
    | none =>
      have hstreak : streak p (before ++ [b]) = streak p before ++ [b] :=
        List.rtakeWhile_concat_pos _ _ _ (by simp [hfound])
      refine iff_of_false (by simp) fun hquiet => ?_
      rw [hstreak, List.forall_mem_append] at hquiet
      have harmed : p.armed (b.decided p) = true := (ih h).mpr hquiet.1
      exact htries.concluded.spoken.ne_nil_iff.mpr ⟨hfound, harmed⟩ (hquiet.2 b (by simp))

/-- In every sequence of attempts for an entry, whatever the host has disabled and whatever becomes
of the factory and of the activation each time, a failure is reported exactly if none was since the
last success. A success reports nothing and arms the report again. The factory is called exactly if
there is one and the plugin is not disabled at that moment. -/
theorem attempts_reported {attempts : List (Attempt σ)} (h : InTurn p attempts)
    (hsplit : attempts = before ++ a :: after) : Reported p before a := by
  subst hsplit
  have htries : a.Tries p := h.tries a (by simp)
  have hconcluded := htries.concluded
  have hcalled := htries.called_iff
  refine ⟨?_, hconcluded.spoken.length_le, hconcluded.spoken.complains, fun hfound => ?_, hcalled,
    fun huncalled => ?_, fun hcode => ?_⟩
  · rw [hconcluded.spoken.ne_nil_iff, h.armed_iff]
  · exact ⟨hconcluded.spoken.eq_nil hfound, hconcluded.armed.trans hfound⟩
  · rw [hcalled] at huncalled
    rw [hconcluded.history, Attempt.decided_of_uncalled huncalled]
  · rw [hconcluded.log, (Attempt.decided_unnoticed hcode).log]

/-! ## One attempt after another -/

def consecutive (env : Environment σ) (p : Direct) : World σ → List σ → List (Attempt σ)
  | _, [] => []
  | w, s :: later =>
    ⟨env, w.withOutside s⟩ :: consecutive env p (acquire env p.id (w.withOutside s)).2 later

variable {env : Environment σ} {view : σ → δ}

theorem stays_supplied (hcode : env.code.Spares view) (p : Direct) :
    Supplied env p.id fun w w' => p.In w → p.In w' where
  refl _ h := h
  trans h h' hin := h' (h hin)
  code := hcode.respects fun _ _ _ hin => ⟨hin.made, hin.source⟩
  log _ _ hin := ⟨hin.made, hin.source⟩
  records _ _ _ hin := ⟨hin.made, hin.source⟩
  count _ hin := ⟨hin.made, hin.source⟩
  write w f hsame hin := by
    refine ⟨(World.length_modifyEntry p.id f w).symm ▸ hin.made, ?_⟩
    rw [World.entry_modifyEntry_self f w hin.made]
    exact (hsame _).source.trans hin.source
  getService _ _ hin := ⟨hin.made, hin.source⟩
  releaseService _ _ hin := ⟨hin.made, hin.source⟩

theorem consecutive_tries (hcode : env.code.Spares view) {w : World σ} (hin : p.In w)
    (outsides : List σ) : ∀ a ∈ consecutive env p w outsides, a.Tries p := by
  induction outsides generalizing w with
  | nil => simp [consecutive]
  | cons s later ih =>
    have hstart : p.In (w.withOutside s) := ⟨hin.made, hin.source⟩
    have hcode' : env.code.Respects Lengthened :=
      hcode.respects fun _ _ _ => ⟨Nat.le_refl _, List.prefix_rfl⟩
    rw [consecutive, List.forall_mem_cons]
    exact ⟨⟨hstart, hcode'⟩, ih ((stays_supplied hcode p).acquire _ hstart)⟩

theorem consecutive_inTurn (hcode : env.code.Spares view) {w : World σ} (hin : p.In w)
    (hnew : p.armed w = true) (outsides : List σ) : InTurn p (consecutive env p w outsides) where
  tries := consecutive_tries hcode hin outsides
  first := by
    cases outsides with
    | nil => simp [consecutive]
    | cons s later =>
      rintro _ ⟨⟩
      exact (Attempt.armed_decided hcode).trans hnew
  next := by
    clear hin hnew
    induction outsides generalizing w with
    | nil => exact .nil
    | cons s later ih =>
      cases later with
      | nil => exact .singleton _
      | cons s' later =>
        refine .cons_cons ?_ ih
        exact Attempt.armed_decided hcode

def fickle : PluginCode (Site Nat) :=
  { PluginCode.still with
    create := fun factory w =>
      (if w.outside.own = 0 then .error (.panic none) else .ok (.made factory 0), w) }

/-- A plugin that is disabled, then broken, is told of once. After it worked it is told of again. -/
theorem relapse_reported :
    let p : Direct := ⟨0, "f", true⟩
    let w : World (Site Nat) := { entries := [{ label := "a", source := .direct "f" true }],
                                  outside := ⟨{}, ⟨"", []⟩, 0⟩ }
    let attempts := consecutive (Site.environment fickle) p w
      [⟨{}, ⟨"", ["f"]⟩, 0⟩, ⟨{}, ⟨"", []⟩, 0⟩, ⟨{}, ⟨"", []⟩, 1⟩, ⟨{}, ⟨"", []⟩, 0⟩]
    ∃ before a, attempts = before ++ [a] ∧
      attempts.map (fun a => (a.records p).length) = [1, 0, 0, 1] ∧ Reported p before a := by
  intro p w attempts
  have hcode : fickle.Spares fun _ : Site Nat => () := by
    constructor <;> intros <;> exact fun w => ⟨w.outside, rfl, rfl⟩
  have hinTurn : InTurn p attempts := consecutive_inTurn hcode ⟨by decide, rfl⟩ rfl _
  exact ⟨attempts.take 3, attempts.getLast (by simp [attempts, consecutive]), rfl, rfl,
    attempts_reported hinTurn rfl⟩

end PluginConsole.Lifecycle
