import PluginConsole.CommandLine.Execution
import PluginConsole.Proofs.Config.Validation
import PluginConsole.Proofs.Registry.Holder
import PluginConsole.Proofs.Site.Outcome

/-!
# The table of a console that was started

A configuration says which labels there will be and what will stand behind each of them: the
plugin of that label, unless a service ranks above it, and otherwise the best service.
-/

namespace PluginConsole

/-- A missing ranking counts as zero. A ranking has 32 bits. -/
def ServiceSpec.rank (s : ServiceSpec) : Int :=
  (s.ranking.filter Decimal.isInt32).getD 0

namespace Builtin

variable {π δ : Type} {view : Site π → δ} {store : Store (Site π)}

theorem update_spares (hstore : ∀ all s, view (store.write all s) = view s)
    (f : Builtin → Builtin) (object : Instance) : (store.update f object).Spares view := by
  cases object with
  | named => exact Act.Spares.pure _
  | made => exact Act.Spares.outside fun s => hstore _ s

theorem code_spares (hstore : ∀ all s, view (store.write all s) = view s)
    (host : Site π → String) : (code store host).Spares view where
  create id := by
    dsimp only [code]
    split
    · exact (Act.Spares.outside fun s => hstore _ s).bind fun _ => .pure _
    · exact .pure _
  activate object := by
    have hget : (get : Act (Site π) (World (Site π))).Spares view := fun w => ⟨w.outside, rfl, rfl⟩
    exact hget.bind fun w => (update_spares hstore _ object).bind fun _ => .pure _
  deactivate object := (update_spares hstore _ object).bind fun _ => .pure _
  title object := .pure _
  category object := .pure _
  init object config := (update_spares hstore _ object).bind fun _ => .pure _
  destroy object := (update_spares hstore _ object).bind fun _ => .pure _
  observe _ _ := .pure _

end Builtin

namespace Console

open Act Registry Site

variable {π : Type}

/-! ## What a configuration describes -/

/-- A service and its position. It is the best of its label if it has the highest ranking, and
the first of those that have it. -/
def Best (services : List ServiceSpec) (label : String) (i : Nat) (s : ServiceSpec) : Prop :=
  services[i]? = some s ∧ s.label = label ∧
    ∀ j t, services[j]? = some t → t.label = label →
      t.rank < s.rank ∨ (t.rank = s.rank ∧ i ≤ j)

/-- A service as it is published. The ids follow the positions and begin with one. -/
def reference (i : Nat) (s : ServiceSpec) : Reference :=
  Reference.make (i + 1) s.origin (Directory.withCapability (serviceProperties s))

/-- What is to stand behind a label. -/
inductive Awards (services : List ServiceSpec) (plugins : List PluginSpec) (label : String) :
    Source → Prop where
  | plugin {p : PluginSpec} (hmem : p ∈ plugins) (hlabel : p.label = label)
    (hbest : ∀ i s, Best services label i s → s.rank ≤ 0) :
    Awards services plugins label (.direct p.factory (Builtin.pluginIds.contains p.factory))
  | service {i : Nat} {s : ServiceSpec} (hbest : Best services label i s)
    (hplugin : ∀ p ∈ plugins, p.label = label → 0 < s.rank) :
    Awards services plugins label (.directory (reference i s))

section Best

variable {services : List ServiceSpec} {plugins : List PluginSpec} {label : String} {i j : Nat}
variable {s t : ServiceSpec}

theorem Best.lt (h : Best services label i s) : i < services.length :=
  (List.getElem?_eq_some_iff.mp h.1).1

theorem Best.mem (h : Best services label i s) : s ∈ services :=
  List.mem_of_getElem? h.1

theorem Best.unique (h : Best services label i s) (h' : Best services label j t) :
    i = j ∧ s = t := by
  have hle := h.2.2 j t h'.1 h'.2.1
  have hge := h'.2.2 i s h.1 h.2.1
  have hsame : i = j := by omega
  subst hsame
  exact ⟨rfl, Option.some.inj (h.1.symm.trans h'.1)⟩

theorem Best.append (h : Best services label i s) (ht : t.label = label → t.rank ≤ s.rank) :
    Best (services ++ [t]) label i s := by
  refine ⟨by rw [List.getElem?_append_left h.lt]; exact h.1, h.2.1, fun j u hj hu => ?_⟩
  by_cases hlt : j < services.length
  · rw [List.getElem?_append_left hlt] at hj
    exact h.2.2 j u hj hu
  · obtain ⟨hlast, rfl⟩ := List.getElem?_eq_some_iff.mp hj
    rw [List.length_append, List.length_singleton] at hlast
    have hend : j = services.length := by omega
    subst hend
    rw [List.getElem_append_right (Nat.le_refl _)] at hu ⊢
    simp only [Nat.sub_self, List.getElem_singleton] at hu ⊢
    have hrank := ht hu
    have hpos := h.lt
    omega

theorem Best.last (hlabel : s.label = label)
    (h : ∀ t ∈ services, t.label = label → t.rank < s.rank) :
    Best (services ++ [s]) label services.length s := by
  refine ⟨by simp, hlabel, fun j t hj ht => ?_⟩
  by_cases hlt : j < services.length
  · rw [List.getElem?_append_left hlt] at hj
    exact Or.inl (h t (List.mem_of_getElem? hj) ht)
  · have hmem : j < (services ++ [s]).length := (List.getElem?_eq_some_iff.mp hj).1
    rw [List.length_append, List.length_singleton] at hmem
    have hend : j = services.length := by omega
    subst hend
    rw [List.getElem?_append_right (Nat.le_refl _), Nat.sub_self] at hj
    cases hj
    exact Or.inr ⟨rfl, Nat.le_refl _⟩

end Best

theorem Awards.unique {services : List ServiceSpec} {plugins : List PluginSpec} {label : String}
    {source source' : Source} (hplugins : (plugins.map (·.label)).Nodup)
    (h : Awards services plugins label source) (h' : Awards services plugins label source') :
    source = source' := by
  cases h with
  | plugin hmem hlabel hbest =>
    cases h' with
    | plugin hmem' hlabel' =>
      rw [List.inj_on_of_nodup_map hplugins hmem hmem' (hlabel.trans hlabel'.symm)]
    | service hbest' hplugin' =>
      have hhigh := hplugin' _ hmem hlabel
      have hlow := hbest _ _ hbest'
      omega
  | service hbest hplugin =>
    cases h' with
    | plugin hmem' hlabel' hbest' =>
      have hhigh := hplugin _ hmem' hlabel'
      have hlow := hbest' _ _ hbest
      omega
    | service hbest' =>
      obtain ⟨rfl, rfl⟩ := hbest.unique hbest'
      rfl

/-! ## Services as they are published -/

section Properties

variable (i : Nat) (s : ServiceSpec)

theorem lookup_given (key other : String) {α : Type} (f : α → Json) (value : Option α) :
    (given key f value).lookup other = if other = key then value.map f else none := by
  unfold given
  cases value with
  | none => simp
  | some a =>
    by_cases h : other = key
    · simp [h]
    · simp [h, List.lookup_cons, beq_false_of_ne h]

theorem reverse_given (key : String) {α : Type} (f : α → Json) (value : Option α) :
    (given key f value).reverse = given key f value := by
  unfold given
  cases value <;> rfl

theorem lookup_serviceProperties (key : String) :
    (serviceProperties s).lookup key =
      if key = Property.label then some (.text s.label)
      else if key = Property.title then s.title.map .text
      else if key = Property.category then s.category.map .text
      else if key = Property.serviceRanking then s.ranking.map .int
      else if key = Property.provider then s.provider.map .text
      else none := by
  unfold serviceProperties
  rw [Dict.lookup_ofList]
  simp only [List.reverse_cons, List.reverse_append, reverse_given, List.lookup_append,
    lookup_given, List.lookup_cons, List.lookup_nil]
  by_cases h : key = Property.label
  · subst h
    simp [Property.label, Property.title, Property.category, Property.serviceRanking,
      Property.provider]
  · simp only [beq_false_of_ne h, h]
    by_cases htitle : key = Property.title
    · subst htitle
      simp [Property.title, Property.category, Property.serviceRanking, Property.provider]
    · by_cases hcategory : key = Property.category
      · subst hcategory
        simp [Property.title, Property.category, Property.serviceRanking, Property.provider]
      · by_cases hranking : key = Property.serviceRanking
        · subst hranking
          simp [Property.title, Property.category, Property.serviceRanking, Property.provider]
        · simp [htitle, hcategory, hranking]

theorem property_reference {key : String} (hid : key ≠ Property.serviceId)
    (hclass : key ≠ Property.objectClass) :
    (reference i s).property key = (serviceProperties s).lookup key := by
  unfold Reference.property reference Reference.make Directory.withCapability
  dsimp only
  rw [Dict.lookup_insert_of_ne hid]
  split
  · rfl
  · rw [Dict.lookup_insert_of_ne hclass]

theorem label_reference : (reference i s).label = some s.label := by
  unfold Reference.label Reference.textProperty
  rw [property_reference i s (by decide) (by decide), lookup_serviceProperties, if_pos rfl]
  rfl

theorem ranking_reference : (reference i s).ranking = s.rank := by
  have hproperty : (reference i s).property Property.serviceRanking = s.ranking.map .int := by
    rw [property_reference i s (by decide) (by decide), lookup_serviceProperties]
    simp [Property.label, Property.title, Property.category, Property.serviceRanking]
  unfold Reference.ranking ServiceSpec.rank
  rw [hproperty]
  cases s.ranking with
  | none => rfl
  | some n =>
    rw [Option.map_some, Option.filter_some]
    dsimp only
    split <;> rfl

theorem hasCapability_reference : (reference i s).hasCapability consoleCapability = true := by
  have hnone : Dict.has Property.objectClass (serviceProperties s) = false := by
    unfold Dict.has
    rw [lookup_serviceProperties]
    simp [Property.label, Property.title, Property.category, Property.serviceRanking,
      Property.provider, Property.objectClass]
  have hproperty : (reference i s).property Property.objectClass =
      some (.list [.text consoleCapability]) := by
    unfold Reference.property reference Reference.make Directory.withCapability
    dsimp only
    rw [Dict.lookup_insert_of_ne (by decide), hnone, if_neg (by decide), Dict.lookup_insert_self]
  unfold Reference.hasCapability
  rw [hproperty]
  rfl

end Properties

/-! ## The table is assembled -/

variable {code : PluginCode (Site π)} {w w' : World (Site π)}
variable {services : List ServiceSpec} {plugins : List PluginSpec}

/-- A listening registry has taken in these services and plugins. -/
structure Assembled (services : List ServiceSpec) (plugins : List PluginSpec)
    (w : World (Site π)) : Prop where
  listening : isOpen w = true
  numbered : w.outside.directory.lastService = services.length
  awarded : ∀ label source, held w label = some source → Awards services plugins label source
  free : ∀ label, held w label = none →
    (∀ s ∈ services, s.label ≠ label) ∧ ∀ p ∈ plugins, p.label ≠ label

theorem held_alike (h : Alike w w') : held w' = held w := by
  funext label
  unfold held
  rw [h.table]
  exact Option.map_congr fun id _ => h.source id

theorem mem_keys_iff_held (w : World (Site π)) (label : String) :
    label ∈ Dict.keys w.table ↔ ∃ source, held w label = some source := by
  unfold Dict.keys held
  constructor
  · intro hmem
    cases hlookup : w.table.lookup label with
    | some id => exact ⟨_, rfl⟩
    | none =>
      obtain ⟨entry, hentry, rfl⟩ := List.mem_map.mp hmem
      exact absurd (List.lookup_eq_none_iff.mp hlookup entry hentry) (by simp)
  · rintro ⟨source, hsource⟩
    obtain ⟨id, hlookup, -⟩ := Option.map_eq_some_iff.mp hsource
    exact List.mem_map_of_mem (Dict.mem_of_lookup hlookup)

theorem Assembled.alike (h : Alike w w') (ha : Assembled services plugins w) :
    Assembled services plugins w' := by
  have hheld := held_alike h
  refine ⟨?_, h.shape.lastService.trans ha.numbered, ?_, ?_⟩
  · unfold isOpen
    rw [h.subscription]
    exact ha.listening
  · rw [hheld]
    exact ha.awarded
  · rw [hheld]
    exact ha.free

theorem service_beats_service (j i : Nat) (s t : ServiceSpec) :
    (Source.directory (reference j s)).beats (.directory (reference i t)) = true ↔
      j ≠ i ∧ (t.rank < s.rank ∨ (s.rank = t.rank ∧ j < i)) := by
  rw [Source.beats_iff]
  simp only [Source.rank, ranking_reference]
  simp [Source.sequenceId, reference, Reference.make]

theorem plugin_beats_service (factory : String) (known : Bool) (i : Nat) (s : ServiceSpec) :
    (Source.direct factory known).beats (.directory (reference i s)) = true ↔ s.rank ≤ 0 := by
  rw [Source.beats_iff]
  simp only [Source.rank, ranking_reference]
  simp only [Source.sequenceId, reference, Reference.make]
  omega

theorem awards_service (ha : Assembled services [] w) (s : ServiceSpec) :
    Awards (services ++ [s]) [] s.label
      ((Source.directory (reference services.length s)).contest (held w s.label)) := by
  have hplugin : ∀ rank : Int, ∀ p ∈ ([] : List PluginSpec), p.label = s.label → 0 < rank :=
    fun _ p hp => absurd hp List.not_mem_nil
  cases hheld : held w s.label with
  | none =>
    obtain ⟨hfree, -⟩ := ha.free s.label hheld
    exact .service (Best.last rfl fun t ht hlabel => absurd hlabel (hfree t ht)) (hplugin _)
  | some holder =>
    cases ha.awarded s.label holder hheld with
    | plugin hmem => exact absurd hmem List.not_mem_nil
    | @service i t hbest _ =>
      have hlt := hbest.lt
      unfold Source.contest
      dsimp only
      split
      · rename_i hbeats
        rw [service_beats_service] at hbeats
        refine .service (Best.last rfl fun u hu hlabel => ?_) (hplugin _)
        obtain ⟨j, hj⟩ := List.getElem?_of_mem hu
        have hle := hbest.2.2 j u hj hlabel
        omega
      · rename_i hloses
        rw [service_beats_service] at hloses
        exact .service (hbest.append fun _ => by omega) (hplugin _)

theorem assembled_published (ha : Assembled services [] w) (s : ServiceSpec)
    (object : ServiceObject) (hranged : Ranged w) :
    Assembled (services ++ [s]) [] (published s.origin (serviceProperties s) object w) := by
  have hadded : (w.outside.directory.add s.origin (serviceProperties s) object).1 =
      reference services.length s := by
    unfold reference
    rw [← ha.numbered]
    rfl
  have hhears : hears (reference services.length s) w = true := by
    unfold hears
    rw [ha.listening, hasCapability_reference]
    rfl
  have hresult : published s.origin (serviceProperties s) object w =
      joined s.label (.directory (reference services.length s)) (withDirectory
        (w.outside.directory.add s.origin (serviceProperties s) object).2 w) := by
    unfold published enlisted
    dsimp only
    rw [hadded, if_pos hhears, label_reference]
  have hranged' : Ranged (withDirectory
      (w.outside.directory.add s.origin (serviceProperties s) object).2 w) := hranged
  have hheld (label : String) : held (published s.origin (serviceProperties s) object w) label =
      if label = s.label then
        some ((Source.directory (reference services.length s)).contest (held w s.label))
      else held w label := by
    rw [hresult]
    exact held_joined hranged' _ _ label
  refine ⟨?_, ?_, fun label source hsource => ?_, fun label hnone => ?_⟩
  · rw [(tableOnly_published _ _ _ w).isOpen]
    exact ha.listening
  · rw [(tableOnly_published _ _ _ w).outside, List.length_append, ← ha.numbered]
    rfl
  · rw [hheld] at hsource
    split at hsource
    · rename_i hlabel
      cases hsource
      rw [hlabel]
      exact awards_service ha s
    · rename_i hother
      cases ha.awarded label source hsource with
      | plugin hmem => exact absurd hmem List.not_mem_nil
      | service hbest hplugin =>
        exact .service (hbest.append fun hlabel => absurd hlabel.symm hother) hplugin
  · rw [hheld] at hnone
    split at hnone
    · cases hnone
    · rename_i hother
      obtain ⟨hfree, hplugins⟩ := ha.free label hnone
      refine ⟨fun t ht => ?_, hplugins⟩
      rcases List.mem_append.mp ht with ht | ht
      · exact hfree t ht
      · rw [List.mem_singleton.mp ht]
        exact Ne.symm hother

/-- A plugin of a new label loses only to a service that ranks above it. -/
theorem awards_plugin (ha : Assembled services plugins w) (p : PluginSpec)
    (hnew : ∀ q ∈ plugins, q.label ≠ p.label) :
    Awards services (plugins ++ [p]) p.label
      ((Source.direct p.factory (Builtin.pluginIds.contains p.factory)).contest
        (held w p.label)) := by
  have hmem : p ∈ plugins ++ [p] := List.mem_append_right _ (List.mem_singleton_self p)
  cases hheld : held w p.label with
  | none =>
    obtain ⟨hfree, -⟩ := ha.free p.label hheld
    exact .plugin hmem rfl fun i s hbest => absurd hbest.2.1 (hfree s hbest.mem)
  | some holder =>
    cases ha.awarded p.label holder hheld with
    | plugin hmem hlabel => exact absurd hlabel (hnew _ hmem)
    | @service i s hbest _ =>
      unfold Source.contest
      dsimp only
      split
      · rename_i hbeats
        rw [plugin_beats_service] at hbeats
        refine .plugin hmem rfl fun j t ht => ?_
        rw [(ht.unique hbest).2]
        omega
      · rename_i hloses
        rw [plugin_beats_service] at hloses
        exact .service hbest fun _ _ _ => by omega

theorem assembled_joined (ha : Assembled services plugins w) (p : PluginSpec)
    (hnew : ∀ q ∈ plugins, q.label ≠ p.label) (hranged : Ranged w) :
    Assembled services (plugins ++ [p])
      (joined p.label (.direct p.factory (Builtin.pluginIds.contains p.factory)) w) := by
  refine ⟨ha.listening, ha.numbered, fun label source hsource => ?_, fun label hnone => ?_⟩
  · rw [held_joined hranged] at hsource
    split at hsource
    · rename_i hlabel
      cases hsource
      rw [hlabel]
      exact awards_plugin ha p hnew
    · rename_i hother
      cases ha.awarded label source hsource with
      | plugin hmem hlabel hbest => exact .plugin (List.mem_append_left _ hmem) hlabel hbest
      | service hbest hplugin =>
        refine .service hbest fun q hq hlabel => ?_
        rcases List.mem_append.mp hq with hq | hq
        · exact hplugin q hq hlabel
        · rw [List.mem_singleton.mp hq] at hlabel
          exact absurd hlabel.symm hother
  · rw [held_joined hranged] at hnone
    split at hnone
    · cases hnone
    · rename_i hother
      obtain ⟨hfree, hplugins⟩ := ha.free label hnone
      refine ⟨hfree, fun q hq => ?_⟩
      rcases List.mem_append.mp hq with hq | hq
      · exact hplugins q hq
      · rw [List.mem_singleton.mp hq]
        exact Ne.symm hother

/-! ## Starting -/

theorem nodup_of_valid {c : Config} (h : Config.violations c = []) :
    (c.console.plugins.map (·.label)).Nodup := by
  rw [Config.violations_eq] at h
  exact (Config.acceptable_iff.mp h).distinct

theorem ready_outside (h : Ready w) {s : Site π} (hs : s.directory = w.outside.directory) :
    Ready (w.withOutside s) := by
  refine ⟨⟨⟨h.sorted, h.filed⟩, fun id hid => ?_⟩, ?_⟩
  · exact (h.settled id hid).imp_right fun hover => ⟨hover.disposed, hover.cold⟩
  · refine Linked.alike (alike_outside ?_) h.toLinked
    rw [hs]
    exact .refl _

section Start

variable {store : Builtin.Store (Site π)} (host : Site π → String)
variable (hstore : ∀ all s, (store.write all s).directory = s.directory)
include hstore

theorem builtin_spares : (Builtin.code store host).Spares Site.directory :=
  Builtin.code_spares hstore host

theorem opened_assembled (h : Host) (own : π) :
    Ends (openRegistry (environment (Builtin.code store host))) (Site.start h own)
      fun result w' => result = .ok () ∧ Ready w' ∧ Assembled [] [] w' := by
  have hready : Ready (Site.start h own) := ready_start h own
  have hcode : (environment (Builtin.code store host)).code.Spares Site.directory :=
    builtin_spares host hstore
  have hspec := openRegistry_spec hcode hready.ranged
  have hact := act_ready (builtin_spares host hstore) hready (.registry .openUp) trivial
  rw [act, perform, ends_discard] at hact
  refine (hspec.and hact).imp ?_
  rintro result w' ⟨hopens, hready', halike⟩
  refine ⟨?_, hready', ?_⟩
  · cases hopens with
    | already => rfl
    | refused _ hsubscribe =>
      rw [subscribe_site] at hsubscribe
      cases hsubscribe
    | undone _ _ hreferences =>
      rw [references_site] at hreferences
      cases hreferences
    | opened => rfl
  · have hempty : Assembled [] [] (opened (Site.start h own)) := by
      refine ⟨rfl, rfl, fun label source hsource => ?_, fun label _ => ?_⟩
      · cases hsource
      · exact ⟨fun s hs => absurd hs List.not_mem_nil, fun p hp => absurd hp List.not_mem_nil⟩
    exact hempty.alike halike

theorem publishService_assembled (hready : Ready w) (ha : Assembled services [] w)
    (s : ServiceSpec) :
    Ends (publishService (environment (Builtin.code store host)) store s) w fun _ w' =>
      Ready w' ∧ Assembled (services ++ [s]) [] w' := by
  unfold publishService Builtin.Store.make
  simp only [ends_bind, ends_outside]
  have hmade : (store.write (store.read w.outside ++ [(Builtin.fresh? s.handler).getD default])
      w.outside).directory = w.outside.directory := hstore _ _
  have hready₁ := ready_outside hready hmade
  have ha₁ := ha.alike (alike_outside (w := w) (by rw [hmade]; exact .refl _))
  have hact := act_ready (builtin_spares host hstore) hready₁
    (.publish s.origin (serviceProperties s) (.handler
      (.made ((Builtin.fresh? s.handler).getD default).id (store.read w.outside).length))) trivial
  rw [act, ends_discard] at hact
  refine hact.imp ?_
  rintro _ w' ⟨hready', halike⟩
  refine ⟨hready', ?_⟩
  exact (assembled_published ha₁ s _ hready₁.ranged).alike halike

theorem publishServices_assembled (hready : Ready w) (ha : Assembled services [] w)
    (rest : List ServiceSpec) :
    Ends (rest.mapM (publishService (environment (Builtin.code store host)) store)) w fun _ w' =>
      Ready w' ∧ Assembled (services ++ rest) [] w' := by
  induction rest generalizing services w with
  | nil =>
    rw [List.append_nil]
    exact ⟨hready, ha⟩
  | cons s rest ih =>
    rw [List.mapM_cons, ends_bind]
    refine (publishService_assembled host hstore hready ha s).imp ?_
    rintro _ w₁ ⟨hready₁, ha₁⟩
    rw [ends_bind]
    refine (ih hready₁ ha₁).imp fun _ w₂ h => ?_
    rw [List.append_assoc] at h
    exact h

theorem addPlugins_assembled (hready : Ready w) (ha : Assembled services plugins w)
    (rest : List PluginSpec) (hnodup : ((plugins ++ rest).map (·.label)).Nodup) :
    Ends (rest.forM fun p => addDirect (environment (Builtin.code store host)) p.factory p.label) w
      fun _ w' => Ready w' ∧ Assembled services (plugins ++ rest) w' := by
  induction rest generalizing plugins w with
  | nil =>
    rw [List.append_nil]
    exact ⟨hready, ha⟩
  | cons p rest ih =>
    show Ends (addDirect (environment (Builtin.code store host)) p.factory p.label >>= fun _ =>
      rest.forM fun p => addDirect (environment (Builtin.code store host)) p.factory p.label) w _
    have hact := act_ready (builtin_spares host hstore) hready
      (.registry (.addDirect p.factory p.label)) trivial
    rw [act, perform] at hact
    have hnew : ∀ q ∈ plugins, q.label ≠ p.label := by
      intro q hq hlabel
      rw [List.map_append, List.map_cons] at hnodup
      have hdisjoint := List.disjoint_of_nodup_append hnodup
      exact hdisjoint (List.mem_map_of_mem hq) (hlabel ▸ List.mem_cons_self)
    rw [ends_bind]
    refine hact.imp ?_
    rintro _ w₁ ⟨hready₁, halike⟩
    have ha₁ := (assembled_joined ha p hnew hready.ranged).alike halike
    rw [List.append_cons] at hnodup ⊢
    exact ih hready₁ ha₁ hnodup

/-- A console that knows all of its handlers starts, with the table that it describes. -/
theorem start_assembled {c : Config} (own : π) (hvalid : Config.violations c = [])
    (hhandlers : ∀ s ∈ c.services, s.handler ∈ Builtin.handlerIds) :
    Ends (start (environment (Builtin.code store host)) store c) { outside := site c own }
      fun result w' => (∃ console, result = .ok console) ∧
        Assembled c.services c.console.plugins w' := by
  have hknown : unknownHandler? c = none := by
    unfold unknownHandler?
    rw [Option.map_eq_none_iff, List.find?_eq_none]
    exact fun s hs => by simpa using hhandlers s hs
  unfold start
  rw [hknown]
  simp only [ends_bind]
  refine (opened_assembled host hstore (Host.make builtinOrigin c.console.disabledPlugins)
    own).imp ?_
  rintro _ w₁ ⟨rfl, hready₁, ha₁⟩
  simp only [ends_bind]
  refine (publishServices_assembled host hstore hready₁ ha₁ c.services).imp ?_
  rintro _ w₂ ⟨hready₂, ha₂⟩
  refine (addPlugins_assembled host hstore hready₂ ha₂ c.console.plugins
    (nodup_of_valid hvalid)).imp ?_
  rintro _ w₃ ⟨hready₃, ha₃⟩
  simp only [setDefaultLabel, ends_modify]
  have hdefault := act_ready (builtin_spares host hstore) hready₃
    (.registry (.setDefaultLabel c.console.defaultLabel)) trivial
  obtain ⟨hready₄, halike₄⟩ := hdefault
  have hattached := act_ready (builtin_spares host hstore) hready₄
    (.registry (.setContext (some (context c)))) trivial
  rw [act, perform, setContext] at hattached
  refine hattached.imp ?_
  rintro _ w₅ ⟨_, halike₅⟩
  simp only [ends_get, ends_note, ends_pure]
  refine ⟨⟨_, rfl⟩, ?_⟩
  have ha₅ := (ha₃.alike halike₄).alike halike₅
  exact ha₅.alike (alike_settings w₅ w₅.defaultLabel w₅.context w₅.serial _)

/-- A valid configuration with built-in handlers starts a console that has exactly the labels
of its plugins and services, and behind each of them what the configuration says. An unknown
handler is an error, and nothing is started. -/
theorem start_table (c : Config) (own : π) :
    let ended := start (environment (Builtin.code store host)) store c { outside := site c own }
    (Config.violations c = [] → (∀ s ∈ c.services, s.handler ∈ Builtin.handlerIds) →
      (∃ console, ended.1 = .ok console) ∧
      (∀ label, label ∈ Dict.keys ended.2.table ↔
        (∃ p ∈ c.console.plugins, p.label = label) ∨ ∃ s ∈ c.services, s.label = label) ∧
      ∀ label source, held ended.2 label = some source ↔
        Awards c.services c.console.plugins label source) ∧
    ((∃ s ∈ c.services, s.handler ∉ Builtin.handlerIds) →
      ∃ message, ended = (.error (.config message), { outside := site c own })) := by
  intro ended
  refine ⟨fun hvalid hhandlers => ?_, fun ⟨s, hs, hhandler⟩ => ?_⟩
  · have hstart := start_assembled host hstore own hvalid hhandlers
    obtain ⟨hok, ha⟩ : (∃ console, ended.1 = .ok console) ∧
        Assembled c.services c.console.plugins ended.2 := hstart
    refine ⟨hok, fun label => ?_, fun label source => ⟨ha.awarded label source, fun h => ?_⟩⟩
    · rw [mem_keys_iff_held]
      constructor
      · rintro ⟨source, hsource⟩
        cases ha.awarded label source hsource with
        | plugin hmem hlabel => exact Or.inl ⟨_, hmem, hlabel⟩
        | service hbest => exact Or.inr ⟨_, hbest.mem, hbest.2.1⟩
      · intro hlabel
        cases hheld : held ended.2 label with
        | some source => exact ⟨source, rfl⟩
        | none =>
          obtain ⟨hservices, hplugins⟩ := ha.free label hheld
          rcases hlabel with ⟨p, hp, hlabel⟩ | ⟨s, hs, hlabel⟩
          · exact absurd hlabel (hplugins p hp)
          · exact absurd hlabel (hservices s hs)
    · cases hheld : held ended.2 label with
      | some source' =>
        rw [Awards.unique (nodup_of_valid hvalid) (ha.awarded label source' hheld) h]
      | none =>
        obtain ⟨hservices, hplugins⟩ := ha.free label hheld
        cases h with
        | plugin hmem hlabel => exact absurd hlabel (hplugins _ hmem)
        | service hbest => exact absurd hbest.2.1 (hservices _ hbest.mem)
  · obtain ⟨t, ht⟩ : ∃ t, c.services.find? (fun s => !Builtin.handlerIds.contains s.handler) =
        some t := by
      rw [← Option.isSome_iff_exists, List.find?_isSome]
      exact ⟨s, hs, by simpa using hhandler⟩
    obtain ⟨message, hunknown⟩ : ∃ message, unknownHandler? c = some (.config message) := by
      unfold unknownHandler?
      rw [ht]
      exact ⟨_, rfl⟩
    refine ⟨message, ?_⟩
    show start _ store c _ = _
    unfold start
    rw [hunknown]
    rfl

end Start

/-- Two services and a plugin share a label, and a plugin has one of its own. -/
def shared : Config where
  console := { plugins := [⟨"status", "a"⟩, ⟨"licenses", "b"⟩] }
  services := [{ label := "a", handler := "echo", ranking := some 1 },
    { label := "a", handler := "health", ranking := some 1 }]

theorem shared_table :
    let ended := start CommandLine.environment CommandLine.builtins shared
      { outside := site shared [] }
    (∀ all s, (CommandLine.builtins.write all s).directory = s.directory) ∧
      Config.violations shared = [] ∧
      held ended.2 "a" = some (.directory (reference 0
        { label := "a", handler := "echo", ranking := some 1 })) ∧
      held ended.2 "b" = some (.direct "licenses" true) := by
  have hstore : ∀ all s, (CommandLine.builtins.write all s).directory = s.directory :=
    fun _ _ => rfl
  have hvalid : Config.violations shared = [] := by decide +kernel
  have hhandlers : ∀ s ∈ shared.services, s.handler ∈ Builtin.handlerIds := by decide +kernel
  have hbest : Best shared.services "a" 0 { label := "a", handler := "echo", ranking := some 1 } := by
    refine ⟨rfl, rfl, fun j t hj _ => ?_⟩
    have hmem := List.mem_of_getElem? hj
    refine Or.inr ⟨?_, Nat.zero_le j⟩
    rcases List.mem_cons.mp hmem with rfl | hmem
    · rfl
    · rw [List.mem_singleton.mp hmem]
      rfl
  obtain ⟨-, -, htable⟩ := (start_table (fun s => s.host.origin) hstore shared []).1
    hvalid hhandlers
  refine ⟨hstore, hvalid, (htable "a" _).mpr (.service hbest ?_), (htable "b" _).mpr ?_⟩
  · intro p _ _
    decide
  · refine .plugin (p := ⟨"licenses", "b"⟩) ?_ rfl fun i s hs => ?_
    · simp [shared]
    · have hlabel := hs.2.1
      have hmem := hs.mem
      simp [shared] at hmem
      grind

end Console

end PluginConsole
