import PluginConsole.Directory
import PluginConsole.Registry.Table

/-!
# Services in the directory

What the changes of a directory do to the service that is found under an id.
-/

namespace PluginConsole

/-! ## Properties of a reference -/

namespace Reference

theorem property_make {key : String} (hkey : key ≠ Property.serviceId) (id : Nat)
    (origin : String) (properties : Dict Json) :
    (make id origin properties).property key = properties.lookup key := by
  unfold make property
  exact Dict.lookup_insert_of_ne hkey _ _

theorem hasCapability_congr {r s : Reference}
    (h : r.property Property.objectClass = s.property Property.objectClass)
    (capability : String) : r.hasCapability capability = s.hasCapability capability := by
  unfold hasCapability
  rw [h]

end Reference

namespace Directory

variable {d d' : Directory} {id other : Nat} {s : Service}

theorem find?_id (h : d.find? id = some s) : s.reference.id = id := by
  simpa using List.find?_some h

theorem mem_of_find? (h : d.find? id = some s) : s ∈ d.services :=
  List.mem_of_find?_eq_some h

theorem id_changed {f : Service → Service} (hf : ∀ s, s.reference.id = id → (f s).reference.id = id)
    (s : Service) : (if s.reference.id == id then f s else s).reference.id = s.reference.id := by
  split
  · rename_i hid
    have hid : s.reference.id = id := by simpa using hid
    rw [hf s hid, hid]
  · rfl

theorem find?_modifyService {f : Service → Service}
    (hf : ∀ s, s.reference.id = id → (f s).reference.id = id) (d : Directory) (other : Nat) :
    (d.modifyService id f).find? other =
      if other = id then (d.find? id).map f else d.find? other := by
  have hmap : (d.modifyService id f).find? other =
      (d.find? other).map fun s => if s.reference.id == id then f s else s := by
    unfold find? modifyService
    rw [List.find?_map]
    congr 2
    funext s
    rw [Function.comp_apply, id_changed hf]
  rw [hmap]
  cases hfind : d.find? other with
  | none =>
    split
    · rename_i ho
      rw [← ho, hfind]
      rfl
    · rfl
  | some s =>
    have hid := find?_id hfind
    split
    · rename_i ho
      rw [← ho, hfind, Option.map_some, Option.map_some, hid, ho]
      simp
    · rename_i ho
      rw [Option.map_some, hid]
      simp [ho]

theorem find?_remove (id other : Nat) (d : Directory) :
    (d.remove id).find? other = if other = id then none else d.find? other := by
  unfold find? remove
  rw [List.find?_filter]
  split
  · rename_i ho
    rw [ho, List.find?_eq_none]
    simp
  · rename_i ho
    congr 1
    funext s
    by_cases hs : s.reference.id = other <;> simp [hs, ho]

/-! ## Changes made by others -/

/-- One change of the directory that takes no hold and gives none back. -/
inductive Turn : Directory → Directory → Prop where
  | watch (d : Directory) (subscriptions : List Subscription) (lastSubscription : Nat) :
    Turn d { d with subscriptions, lastSubscription }
  | add {d : Directory} {r : Reference} (object : ServiceObject)
    (hid : r.id = d.lastService + 1) :
    Turn d { d with
      services := d.services ++ [⟨r, object, 0⟩]
      lastService := d.lastService + 1 }
  | replace {d : Directory} {id : Nat} {r : Reference} (hid : r.id = id) :
    Turn d (d.modifyService id fun s => { s with reference := r })
  | remove (d : Directory) (id : Nat) : Turn d (d.remove id)

theorem turn_refl (d : Directory) : Turn d d :=
  .watch d d.subscriptions d.lastSubscription

theorem turn_subscribe (filter : String) (listener : Listener) (d : Directory) :
    match d.subscribe filter listener with
    | .ok (_, d') => Turn d d'
    | .error _ => True := by
  unfold subscribe
  cases parseFilter filter with
  | ok capability => exact .watch d _ _
  | error f => exact trivial

theorem turn_unsubscribe (subscription : Nat) (d : Directory) : Turn d (d.unsubscribe subscription) :=
  .watch d _ _

theorem turn_add (origin : String) (properties : Dict Json) (object : ServiceObject)
    (d : Directory) : Turn d (d.add origin properties object).2 :=
  .add object rfl

theorem turn_replace {properties : Dict Json} {r : Reference}
    (h : d.replace id properties = some (r, d')) : Turn d d' := by
  unfold replace at h
  obtain ⟨s, -, hs⟩ := Option.map_eq_some_iff.mp h
  cases hs
  exact .replace rfl

def Numbered (d : Directory) : Prop :=
  ∀ s ∈ d.services, s.reference.id ≤ d.lastService

theorem numbered_modifyService {f : Service → Service}
    (hf : ∀ s, s.reference.id = id → (f s).reference.id = id) (h : d.Numbered) :
    (d.modifyService id f).Numbered := by
  intro s hmem
  obtain ⟨old, hold, rfl⟩ := List.mem_map.mp hmem
  rw [id_changed hf]
  exact h old hold

theorem Turn.numbered (h : Turn d d') (hnumbered : d.Numbered) : d'.Numbered := by
  cases h with
  | watch => exact hnumbered
  | add object hid =>
    intro s hmem
    rcases List.mem_append.mp hmem with hmem | hmem
    · exact Nat.le_trans (hnumbered s hmem) (Nat.le_succ _)
    · rw [List.mem_singleton.mp hmem]
      exact Nat.le_of_eq hid
  | replace hid => exact numbered_modifyService (fun _ _ => hid) hnumbered
  | remove id => exact fun s hmem => hnumbered s (List.mem_filter.mp hmem).1

theorem Turn.lastService_le (h : Turn d d') : d.lastService ≤ d'.lastService := by
  cases h with
  | add => exact Nat.le_succ _
  | watch | replace | remove => exact Nat.le_refl _

theorem Turn.find? (h : Turn d d') (hfind : d'.find? id = some s) :
    (∃ old, d.find? id = some old ∧ old.holds = s.holds) ∨
      (d.lastService < id ∧ s.holds = 0) := by
  cases h with
  | watch => exact Or.inl ⟨s, hfind, rfl⟩
  | @add r object hid =>
    unfold Directory.find? at hfind
    rw [List.find?_append] at hfind
    cases hold : d.services.find? (·.reference.id == id) with
    | some old =>
      rw [hold] at hfind
      cases hfind
      exact Or.inl ⟨s, hold, rfl⟩
    | none =>
      rw [hold, Option.none_or, List.find?_singleton] at hfind
      split at hfind
      · rename_i heq
        cases hfind
        refine Or.inr ⟨?_, rfl⟩
        have heq : r.id = id := by simpa using heq
        omega
      · cases hfind
  | @replace id' r hid =>
    rw [find?_modifyService (fun _ _ => hid)] at hfind
    split at hfind
    · rename_i heq
      obtain ⟨old, hold, rfl⟩ := Option.map_eq_some_iff.mp hfind
      rw [← heq] at hold
      exact Or.inl ⟨old, hold, rfl⟩
    · exact Or.inl ⟨s, hfind, rfl⟩
  | remove id' =>
    rw [find?_remove] at hfind
    split at hfind
    · cases hfind
    · exact Or.inl ⟨s, hfind, rfl⟩

/-! ## Ids -/

structure Sequential (d : Directory) : Prop where
  numbered : d.Numbered
  nodup : (d.services.map (·.reference.id)).Nodup

theorem ids_modifyService {f : Service → Service}
    (hf : ∀ s, s.reference.id = id → (f s).reference.id = id) (d : Directory) :
    (d.modifyService id f).services.map (·.reference.id) = d.services.map (·.reference.id) := by
  unfold modifyService
  rw [List.map_map]
  refine List.map_congr_left fun s _ => ?_
  exact id_changed hf s

theorem Turn.sequential (h : Turn d d') (hsequential : d.Sequential) : d'.Sequential := by
  refine ⟨h.numbered hsequential.numbered, ?_⟩
  cases h with
  | watch => exact hsequential.nodup
  | add object hid =>
    rw [List.map_append, List.nodup_append]
    refine ⟨hsequential.nodup, by simp, ?_⟩
    intro old hold new hnew
    obtain ⟨s, hs, rfl⟩ := List.mem_map.mp hold
    have hle := hsequential.numbered s hs
    rw [List.map_singleton, List.mem_singleton] at hnew
    rw [hnew, hid]
    omega
  | replace hid =>
    rw [ids_modifyService fun _ _ => hid]
    exact hsequential.nodup
  | remove id => exact hsequential.nodup.sublist (List.filter_sublist.map _)

/-! ## Published references -/

theorem reference?_eq (d : Directory) (id : Nat) :
    d.reference? id = (d.services.map (·.reference)).find? (·.id == id) := by
  unfold reference? find?
  rw [List.find?_map]
  rfl

theorem reference?_of_mem (h : d.Sequential) (hs : s ∈ d.services) :
    d.reference? s.reference.id = some s.reference := by
  have hfind : d.find? s.reference.id = some s := by
    unfold find?
    obtain ⟨before, after, hsplit⟩ := List.append_of_mem hs
    have hnodup := h.nodup
    rw [hsplit, List.map_append, List.map_cons, List.nodup_append] at hnodup
    rw [hsplit, List.find?_append, List.find?_eq_none.mpr, List.find?_cons_of_pos (by simp)]
    · rfl
    · intro other hother heq
      have hne := hnodup.2.2 other.reference.id (List.mem_map_of_mem hother) s.reference.id
        List.mem_cons_self
      exact hne (by simpa using heq)
  unfold reference?
  rw [hfind]
  rfl

theorem reference?_add {n : Nat} (origin : String) (properties : Dict Json)
    (object : ServiceObject) (d : Directory) (h : n ≤ d.lastService) :
    (d.add origin properties object).2.reference? n = d.reference? n := by
  rw [reference?_eq, reference?_eq]
  show ((d.services ++ [_]).map _).find? _ = _
  rw [List.map_append, List.find?_append, List.map_singleton, List.find?_singleton, if_neg,
    Option.or_none]
  intro heq
  have hid : d.lastService + 1 = n := by simpa [add, Reference.make] using heq
  omega

theorem reference?_id {r : Reference} (h : d.reference? id = some r) : r.id = id := by
  obtain ⟨s, hfind, rfl⟩ := Option.map_eq_some_iff.mp h
  exact find?_id hfind

theorem reference_of_replace {properties : Dict Json} {r : Reference}
    (h : d.replace id properties = some (r, d')) :
    ∃ old, d.reference? id = some old ∧
      r = Reference.make id old.origin (keepCapability old properties) := by
  unfold replace at h
  obtain ⟨s, hfound, hs⟩ := Option.map_eq_some_iff.mp h
  cases hs
  refine ⟨s.reference, ?_, rfl⟩
  unfold reference?
  rw [hfound]
  rfl

theorem reference?_replace {properties : Dict Json} {r : Reference} {n : Nat}
    (h : d.replace id properties = some (r, d')) :
    d'.reference? n = if n = id then some r else d.reference? n := by
  unfold replace at h
  obtain ⟨s, hfound, hs⟩ := Option.map_eq_some_iff.mp h
  cases hs
  unfold reference?
  rw [find?_modifyService fun _ _ => by rfl]
  split
  · rw [hfound]
    rfl
  · rfl

theorem changed_of_replace {properties : Dict Json} {r : Reference}
    (h : d.replace id properties = some (r, d')) :
    d' = d.modifyService id fun s => { s with reference := r } := by
  unfold replace at h
  obtain ⟨s, -, hs⟩ := Option.map_eq_some_iff.mp h
  cases hs
  rfl

theorem references_replaced (id : Nat) (r : Reference) (d : Directory) :
    (d.modifyService id fun s => { s with reference := r }).services.map (·.reference) =
      (d.services.map (·.reference)).map fun old => if old.id == id then r else old := by
  unfold modifyService
  rw [List.map_map, List.map_map]
  refine List.map_congr_left fun s _ => ?_
  rw [Function.comp_apply, Function.comp_apply]
  split <;> rfl

theorem references_removed (id : Nat) (d : Directory) :
    (d.remove id).services.map (·.reference) =
      (d.services.map (·.reference)).filter (·.id != id) := by
  unfold remove
  rw [List.filter_map]
  rfl

theorem reference?_remove (id n : Nat) (d : Directory) :
    (d.remove id).reference? n = if n = id then none else d.reference? n := by
  unfold reference?
  rw [find?_remove]
  split <;> rfl

/-! ## Holds -/

theorem find?_getService {r : ServiceObject} (h : d.getService id = (some r, d')) (other : Nat) :
    d'.find? other =
      if other = id then (d.find? id).map fun s => { s with holds := s.holds + 1 }
      else d.find? other := by
  unfold getService at h
  split at h
  · cases h
  · cases h
    exact find?_modifyService (fun _ hid => by exact hid) d other

theorem find?_releaseService (id : Nat) (d : Directory) (other : Nat) :
    (d.releaseService id).find? other =
      if other = id then (d.find? id).map fun s => { s with holds := s.holds - 1 }
      else d.find? other :=
  find?_modifyService (fun _ hid => by exact hid) d other

theorem getService_none (h : d.getService id = (none, d')) : d' = d := by
  unfold getService at h
  split at h <;> cases h
  rfl

theorem find?_of_getService {r : ServiceObject} (h : d.getService id = (some r, d')) :
    ∃ s, d.find? id = some s := by
  unfold getService at h
  split at h
  · cases h
  · rename_i s hs
    exact ⟨s, hs⟩

theorem lastService_getService {r : ServiceObject} (h : d.getService id = (some r, d')) :
    d'.lastService = d.lastService := by
  unfold getService at h
  split at h <;> cases h
  rfl

theorem numbered_getService {r : ServiceObject} (h : d.getService id = (some r, d'))
    (hnumbered : d.Numbered) : d'.Numbered := by
  unfold getService at h
  split at h <;> cases h
  exact numbered_modifyService (fun _ h => by exact h) hnumbered

/-! ## Holds aside -/

/-- The same services and the same subscriptions, whoever holds what. -/
structure SameShape (d d' : Directory) : Prop where
  references : d'.services.map (·.reference) = d.services.map (·.reference)
  subscriptions : d'.subscriptions = d.subscriptions
  lastService : d'.lastService = d.lastService

theorem SameShape.refl (d : Directory) : SameShape d d := ⟨rfl, rfl, rfl⟩

theorem SameShape.trans {d d' d'' : Directory} (h : SameShape d d') (h' : SameShape d' d'') :
    SameShape d d'' :=
  ⟨h'.references.trans h.references, h'.subscriptions.trans h.subscriptions,
    h'.lastService.trans h.lastService⟩

theorem SameShape.reference? {d d' : Directory} (h : SameShape d d') (id : Nat) :
    d'.reference? id = d.reference? id := by
  rw [reference?_eq, reference?_eq, h.references]

theorem sameShape_modifyService {f : Service → Service} (hf : ∀ s, (f s).reference = s.reference)
    (id : Nat) (d : Directory) : SameShape d (d.modifyService id f) := by
  refine ⟨?_, rfl, rfl⟩
  unfold modifyService
  rw [List.map_map]
  refine List.map_congr_left fun s _ => ?_
  rw [Function.comp_apply]
  split
  · exact hf s
  · rfl

theorem sameShape_getService (id : Nat) (d : Directory) : SameShape d (d.getService id).2 := by
  unfold getService
  split
  · exact .refl d
  · exact sameShape_modifyService (fun _ => by rfl) id d

theorem sameShape_releaseService (id : Nat) (d : Directory) :
    SameShape d (d.releaseService id) :=
  sameShape_modifyService (fun _ => by rfl) id d

theorem SameShape.remove {d d' : Directory} (h : SameShape d d') (id : Nat) :
    SameShape (d.remove id) (d'.remove id) := by
  refine ⟨?_, h.subscriptions, h.lastService⟩
  rw [references_removed, references_removed, h.references]

/-! ## Filters -/

theorem after_append (start rest : String) : after start (start ++ rest) = some rest := by
  unfold after
  rw [String.toList_append, if_pos (List.isPrefixOf_iff_prefix.mpr (List.prefix_append _ _)),
    ← String.length_toList, List.drop_left, String.ofList_toList]

theorem before_append (c : Char) (s : String) : before c (s ++ String.singleton c) = some s := by
  unfold before
  simp

theorem parseFilter_capabilityFilter {capability : String} (h : capability ≠ "") :
    parseFilter (Registry.capabilityFilter capability) = .ok capability := by
  have hfilter : Registry.capabilityFilter capability =
      "(" ++ (Property.objectClass ++ ("=" ++ capability) ++ String.singleton ')') := by
    unfold Registry.capabilityFilter
    simp [String.append_assoc]
  have hcapability : capability? (Registry.capabilityFilter capability) = some capability := by
    unfold capability?
    rw [hfilter, after_append, Option.bind_some, before_append]
    simp [after_append, h]
  unfold parseFilter
  rw [hcapability]

end Directory

end PluginConsole
