import PluginConsole.Proofs.Lifecycle.Respect
import PluginConsole.Proofs.Registry.Effect

/-!
# What the registry respects

Queries respect whatever entries respect. What changes the table comes to the plain change of the
table, up to a relation that entries respect.
-/

namespace PluginConsole

open Act Registry

variable {σ : Type} {env : Environment σ} {R : World σ → World σ → Prop} {w : World σ}

/-! ## Queries -/

theorem Inquired.queried (h : Inquired env R) :
    Queried env (fun _ => True) (fun _ _ => True) R where
  refl := h.refl
  trans := h.trans
  aside w inHand := h.aside w w.log inHand
  stays _ _ := trivial
  keeps _ _ := trivial
  listed _ _ _ := trivial
  component _ := h.component _ _
  title _ := h.title _ _
  category _ := h.category _ _

namespace Respected

variable (h : Respected env R)
include h

theorem retire (id : EntryId) : (retire env id).Respects R :=
  h.holding [id] (h.dispose id)

theorem forM {α : Type} {f : α → Act σ Unit} (hf : ∀ a, (f a).Respects R) (l : List α) :
    (l.forM f).Respects R := by
  induction l with
  | nil => exact h.pure _
  | cons a rest ih => exact h.bind (hf a) fun _ => ih

theorem noted {f : EntryId → Act σ (Except Fault Unit)} (hf : ∀ id, (f id).Respects R)
    (notice : String → String → Notice) (ids : List EntryId) :
    Act.Respects R (Act.holding ids (ids.forM fun id => do
      match ← f id with
      | .error fault => Act.note (notice (← Act.entry id).label fault.message)
      | .ok () => return ())) := by
  refine h.holding ids (h.forM (fun id => ?_) ids)
  refine h.bind (hf id) fun done => ?_
  rcases done with fault | _
  · exact h.entry_bind id fun _ => h.note _
  · exact h.pure _

theorem setContext (hcontext : ∀ (w : World σ) context, R w { w with context })
    (context : Option Context) : (setContext env context).Respects R := by
  cases context with
  | some context =>
    refine h.get_bind fun w => h.bind h.count fun ref => ?_
    refine h.bind (fun w => hcontext w _) fun _ => ?_
    exact h.bind (h.noted (fun id => h.init id _) _ _) fun _ => h.note _
  | none =>
    refine h.get_bind fun w => h.bind (h.noted h.destroy _ _) fun _ => ?_
    exact h.bind (fun w => hcontext w none) fun _ => h.note _

/-! ## Changes of the table -/

theorem register (id : EntryId) (w : World σ) :
    Ends (register env id) w fun _ w' => R { w with table := contested id w } w' := by
  unfold Registry.register
  simp only [ends_bind, ends_get]
  split
  · rename_i hfree
    rw [ends_modify]
    simp only [contested, wins, hfree, if_true]
    exact h.refl _
  rename_i holder hheld
  split
  · rename_i hrank
    simp only [contested, wins, hheld, hrank, reduceCtorEq, decide_false, Bool.false_eq_true,
      if_false]
    exact h.retire id w
  · rename_i hrank
    simp only [ends_bind, ends_note, ends_modify, contested, wins, hheld, hrank, decide_true,
      if_true]
    exact h.trans (h.aside _ _ _) (h.retire holder _)
  · rename_i hrank
    simp only [ends_bind, ends_note, contested, wins, hheld, hrank, reduceCtorEq, decide_false,
      Bool.false_eq_true, if_false]
    exact h.trans (h.aside w _ _) (h.retire id _)

theorem addService (r : Reference) (w : World σ) :
    Ends (addService env r) w fun _ w' => R (enlisted r w) w' := by
  unfold Registry.addService serviceEntry enlisted
  cases r.label with
  | none => exact h.refl w
  | some label => exact h.register _ _

theorem addDirect (factory label : String) (w : World σ) :
    Ends (addDirect env factory label) w fun _ w' =>
      R (joined label (.direct factory (env.code.hasFactory factory)) w) w' := by
  unfold Registry.addDirect directEntry
  simp only [ends_bind]
  split
  · simp only [ends_note, ends_bind, ends_newEntry]
    refine (h.register _ _).imp fun _ w' hw' => h.trans ?_ hw'
    exact h.aside (joined label (.direct factory (env.code.hasFactory factory)) w) _ w.inHand
  · simp only [ends_newEntry]
    exact h.register _ _

theorem unregister (label : String) (w : World σ) :
    Ends (unregister env label) w fun _ w' =>
      R { w with table := Dict.erase label w.table } w' := by
  unfold Registry.unregister
  simp only [ends_bind, ends_get]
  split
  · rename_i hfree
    rw [Dict.erase_of_lookup_eq_none hfree]
    exact h.refl w
  · rename_i id hheld
    simp only [ends_bind, ends_modify]
    exact h.retire id _

theorem removeService (r : Reference) (w : World σ) :
    Ends (removeService env r) w fun _ w' => R (dismissed r w) w' := by
  unfold Registry.removeService dismissed
  simp only [ends_bind, ends_get]
  cases heldLabel w r with
  | none => exact h.refl w
  | some label => exact h.unregister label w

end Respected

end PluginConsole
