import Mathlib.Data.Finset.Card
import Mathlib.Data.Finset.Dedup
import PluginConsole.Config.Validation
import PluginConsole.Proofs.Text

/-!
# What is told of a configuration

What is told is the list of the broken rules, in the order of the rules and of the items. The walk
over the plugins remembers their labels, less the blank ones.
-/

namespace PluginConsole.Config

open Text

/-! ## The rules -/

/-- One of the levels, in capitals or not. -/
def KnownLevel (level : String) : Prop :=
  ∃ known ∈ ["trace", "debug", "info", "warn", "error"], SpelledAlike level known

instance (level : String) : Decidable (KnownLevel level) :=
  inferInstanceAs (Decidable (∃ known ∈ _, _))

/-- A label that an earlier plugin has. Blank labels are no labels. -/
def Repeats (earlier : List PluginSpec) (label : String) : Prop :=
  ¬ Blank label ∧ ∃ p ∈ earlier, p.label = label

instance (earlier : List PluginSpec) (label : String) : Decidable (Repeats earlier label) :=
  inferInstanceAs (Decidable (_ ∧ _))

def told (broken : Prop) [Decidable broken] (v : Violation) : List Violation :=
  if broken then [v] else []

def toldOfConsole (c : ConsoleSection) : List Violation :=
  told (¬ KnownLevel c.logLevel) (.unknownLogLevel c.logLevel) ++
  told (Blank c.defaultCategory) .blankDefaultCategory ++
  told (Blank c.locale) .blankLocale ++
  told (∃ label ∈ c.defaultLabel, Blank label) .blankDefaultLabel

def toldOfPlugin (earlier : List PluginSpec) (index : Nat) (p : PluginSpec) : List Violation :=
  told (Blank p.factory) (.blankPluginFactory index) ++
  told (Blank p.label) (.blankPluginLabel index) ++
  told (Repeats earlier p.label) (.duplicateLabel p.label)

def toldOfService (index : Nat) (s : ServiceSpec) : List Violation :=
  told (Blank s.label) (.blankServiceLabel index) ++
  told (Blank s.handler) (.blankServiceHandler index)

def toldOf (c : Config) : List Violation :=
  toldOfConsole c.console ++
  (c.console.plugins.mapIdx fun i p => toldOfPlugin (c.console.plugins.take i) i p).flatten ++
  (c.services.mapIdx toldOfService).flatten

structure Acceptable (c : Config) : Prop where
  logLevel : KnownLevel c.console.logLevel
  defaultCategory : ¬ Blank c.console.defaultCategory
  locale : ¬ Blank c.console.locale
  defaultLabel : ∀ label ∈ c.console.defaultLabel, ¬ Blank label
  plugins : ∀ p ∈ c.console.plugins, ¬ Blank p.factory ∧ ¬ Blank p.label
  distinct : (c.console.plugins.map (·.label)).Nodup
  services : ∀ s ∈ c.services, ¬ Blank s.label ∧ ¬ Blank s.handler

def namedLabels (plugins : List PluginSpec) : List String :=
  (plugins.map (·.label)).filter fun label => ¬ Blank label

def Violation.isDuplicate : Violation → Bool
  | .duplicateLabel _ => true
  | _ => false

/-! ## The settings of the console -/

theorem violates_eq_told {condition : Bool} {broken : Prop} [Decidable broken]
    (h : condition = true ↔ broken) (v : Violation) : violates condition v = told broken v := by
  unfold violates told
  simp only [h]

theorem told_eq_nil {broken : Prop} [Decidable broken] {v : Violation} :
    told broken v = [] ↔ ¬ broken := by
  unfold told
  split <;> simp_all

theorem lowerAscii_logLevels : ∀ known ∈ logLevels, lowerAscii known = known := by
  decide +kernel

theorem knownLevel_iff {level : String} :
    logLevels.contains (lowerAscii level) = true ↔ KnownLevel level := by
  rw [List.contains_iff_mem]
  constructor
  · intro hmem
    refine ⟨lowerAscii level, hmem, lowerAscii_eq_iff.mp ?_⟩
    exact (lowerAscii_logLevels _ hmem).symm
  · rintro ⟨known, hknown, halike⟩
    rw [lowerAscii_eq_iff.mpr halike, lowerAscii_logLevels known hknown]
    exact hknown

theorem consoleViolations_eq (c : ConsoleSection) : consoleViolations c = toldOfConsole c := by
  have hlevel : (!logLevels.contains (lowerAscii c.logLevel)) = true ↔ ¬ KnownLevel c.logLevel := by
    rw [← knownLevel_iff, Bool.not_eq_true', Bool.not_eq_true]
  have hlabel : c.defaultLabel.any isBlankText = true ↔ ∃ label ∈ c.defaultLabel, Blank label := by
    simp only [Option.any_eq_true, isBlankText_iff]
    rfl
  unfold consoleViolations toldOfConsole
  rw [violates_eq_told hlevel, violates_eq_told isBlankText_iff, violates_eq_told isBlankText_iff,
    violates_eq_told hlabel]

/-! ## The walk over the plugins -/

variable {seen : List String} {earlier : List PluginSpec}

def Remembers (seen : List String) (earlier : List PluginSpec) : Prop :=
  ∀ label, ¬ Blank label → (label ∈ seen ↔ ∃ p ∈ earlier, p.label = label)

theorem remembers_nil : Remembers [] [] := by
  intro label _
  simp

theorem Remembers.snoc (h : Remembers seen earlier) (p : PluginSpec)
    (hp : Blank p.label ∨ p.label ∈ seen) : Remembers seen (earlier ++ [p]) := by
  intro label hlabel
  rw [h label hlabel]
  constructor
  · rintro ⟨q, hq, hsame⟩
    exact ⟨q, List.mem_append_left _ hq, hsame⟩
  · rintro ⟨q, hq, rfl⟩
    rcases List.mem_append.mp hq with hq | hq
    · exact ⟨q, hq, rfl⟩
    · rw [List.mem_singleton] at hq
      subst hq
      exact (h _ hlabel).mp (hp.resolve_left hlabel)

theorem Remembers.cons (h : Remembers seen earlier) (p : PluginSpec) :
    Remembers (p.label :: seen) (earlier ++ [p]) := by
  intro label hlabel
  rw [List.mem_cons, h label hlabel]
  constructor
  · rintro (rfl | ⟨q, hq, hsame⟩)
    · exact ⟨p, List.mem_append_right _ List.mem_cons_self, rfl⟩
    · exact ⟨q, List.mem_append_left _ hq, hsame⟩
  · rintro ⟨q, hq, rfl⟩
    rcases List.mem_append.mp hq with hq | hq
    · exact Or.inr ⟨q, hq, rfl⟩
    · rw [List.mem_singleton] at hq
      exact Or.inl (hq ▸ rfl)

/-- One step of the walk, for a plugin of any kind. -/
theorem pluginViolations_cons (h : Remembers seen earlier) (index : Nat) (p : PluginSpec)
    (rest : List PluginSpec) :
    ∃ seen', Remembers seen' (earlier ++ [p]) ∧
      pluginViolations seen index (p :: rest) =
        toldOfPlugin earlier index p ++ pluginViolations seen' (index + 1) rest := by
  rw [pluginViolations, toldOfPlugin, violates_eq_told isBlankText_iff]
  by_cases hblank : Blank p.label
  · refine ⟨seen, h.snoc p (Or.inl hblank), ?_⟩
    rw [if_pos (isBlankText_iff.mpr hblank)]
    simp [told, hblank, Repeats]
  have hrepeats : Repeats earlier p.label ↔ p.label ∈ seen := by
    rw [Repeats, ← h _ hblank]
    exact and_iff_right hblank
  rw [if_neg (mt isBlankText_iff.mp hblank)]
  by_cases hseen : p.label ∈ seen
  · refine ⟨seen, h.snoc p (Or.inr hseen), ?_⟩
    rw [if_pos (List.contains_iff_mem.mpr hseen)]
    simp [told, hblank, hrepeats, hseen]
  · refine ⟨p.label :: seen, h.cons p, ?_⟩
    rw [if_neg (mt List.contains_iff_mem.mp hseen)]
    simp [told, hblank, hrepeats, hseen]

theorem pluginViolations_eq (h : Remembers seen earlier) (plugins : List PluginSpec) :
    pluginViolations seen earlier.length plugins =
      (plugins.mapIdx fun i p => toldOfPlugin ((earlier ++ plugins).take (earlier.length + i))
        (earlier.length + i) p).flatten := by
  induction plugins generalizing seen earlier with
  | nil => rfl
  | cons p rest ih =>
    obtain ⟨seen', h', hstep⟩ := pluginViolations_cons h earlier.length p rest
    have hrest := ih h'
    rw [List.length_append, List.length_singleton, List.append_assoc, List.singleton_append] at hrest
    rw [hstep, hrest, List.mapIdx_cons, List.flatten_cons]
    simp only [Nat.add_zero, List.take_left, Nat.add_assoc, Nat.add_comm 1]

theorem serviceViolations_eq (services : List ServiceSpec) (index : Nat) :
    serviceViolations index services =
      (services.mapIdx fun i s => toldOfService (index + i) s).flatten := by
  induction services generalizing index with
  | nil => rfl
  | cons s rest ih =>
    rw [serviceViolations, violates_eq_told isBlankText_iff, violates_eq_told isBlankText_iff, ih,
      List.mapIdx_cons, List.flatten_cons]
    simp only [toldOfService, Nat.add_zero, Nat.add_assoc, Nat.add_comm 1]

theorem violations_eq (c : Config) : violations c = toldOf c := by
  have hplugins := pluginViolations_eq remembers_nil c.console.plugins
  have hservices := serviceViolations_eq c.services 0
  simp only [List.length_nil, Nat.zero_add, List.nil_append] at hplugins hservices
  rw [violations, toldOf, consoleViolations_eq, hplugins, hservices]

/-! ## Accepted configurations -/

theorem flatten_mapIdx_eq_nil {α β : Type} {f : Nat → α → List β} {items : List α} :
    (items.mapIdx f).flatten = [] ↔ ∀ i (h : i < items.length), f i items[i] = [] := by
  rw [List.flatten_eq_nil_iff]
  simp only [List.mem_mapIdx, forall_exists_index]
  constructor
  · exact fun h i hi => h _ i hi rfl
  · rintro h _ i hi rfl
    exact h i hi

theorem distinct_iff {plugins : List PluginSpec} :
    (plugins.map (·.label)).Nodup ↔
      ∀ i (h : i < plugins.length), ∀ p ∈ plugins.take i, p.label ≠ plugins[i].label := by
  unfold List.Nodup
  rw [List.pairwise_map, List.pairwise_iff_getElem]
  simp only [List.mem_take_iff_getElem, lt_inf_iff]
  constructor
  · rintro h i hi p ⟨j, ⟨hji, hj⟩, rfl⟩
    exact h j i hj hi hji
  · exact fun h j i hj hi hji => h i hi _ ⟨j, ⟨hji, hj⟩, rfl⟩

theorem acceptable_iff {c : Config} : toldOf c = [] ↔ Acceptable c := by
  have hplugin (earlier : List PluginSpec) (i : Nat) (p : PluginSpec) :
      toldOfPlugin earlier i p = [] ↔ (¬ Blank p.factory ∧ ¬ Blank p.label) ∧
        ∀ q ∈ earlier, q.label ≠ p.label := by
    simp only [toldOfPlugin, List.append_eq_nil_iff, told_eq_nil]
    refine and_congr_right fun hnamed => ?_
    simp [Repeats, hnamed.2]
  simp only [toldOf, toldOfConsole, toldOfService, List.append_eq_nil_iff, told_eq_nil, not_not,
    flatten_mapIdx_eq_nil, hplugin]
  constructor
  · rintro ⟨⟨⟨⟨⟨hlevel, hcategory⟩, hlocale⟩, hlabel⟩, hplugins⟩, hservices⟩
    refine ⟨hlevel, hcategory, hlocale, fun label hmem hblank => hlabel ⟨label, hmem, hblank⟩,
      ?_, distinct_iff.mpr fun i hi => (hplugins i hi).2, ?_⟩
    · exact List.forall_mem_iff_forall_getElem.mpr fun i hi => (hplugins i hi).1
    · exact List.forall_mem_iff_forall_getElem.mpr hservices
  · intro h
    have hdistinct := distinct_iff.mp h.distinct
    refine ⟨⟨⟨⟨⟨h.logLevel, h.defaultCategory⟩, h.locale⟩, ?_⟩, fun i hi => ?_⟩, fun i hi => ?_⟩
    · exact fun ⟨label, hmem, hblank⟩ => h.defaultLabel label hmem hblank
    · exact ⟨h.plugins _ (List.getElem_mem hi), hdistinct i hi⟩
    · exact h.services _ (List.getElem_mem hi)

/-! ## How many duplicates -/

theorem card_namedLabels_snoc (earlier : List PluginSpec) (p : PluginSpec) :
    (namedLabels (earlier ++ [p])).toFinset.card + (if Repeats earlier p.label then 1 else 0) =
      (namedLabels earlier).toFinset.card + (namedLabels [p]).length := by
  have hmem : p.label ∈ (namedLabels earlier).toFinset ↔ Repeats earlier p.label := by
    unfold namedLabels Repeats
    simp [and_comm]
  have hsnoc : namedLabels (earlier ++ [p]) = namedLabels earlier ++ namedLabels [p] := by
    simp [namedLabels]
  by_cases hblank : Blank p.label
  · have hno : ¬ Repeats earlier p.label := fun h => h.1 hblank
    have hnone : namedLabels [p] = [] := by simp [namedLabels, hblank]
    simp [hsnoc, hnone, hno]
  · have hone : namedLabels [p] = [p.label] := by simp [namedLabels, hblank]
    rw [hsnoc, hone, List.toFinset_append, List.toFinset_cons, List.toFinset_nil, Finset.union_comm,
      LawfulSingleton.insert_empty_eq, Finset.singleton_union]
    split
    · rename_i hrepeats
      rw [Finset.insert_eq_of_mem (hmem.mpr hrepeats)]
      rfl
    · rename_i hnew
      exact Finset.card_insert_of_notMem (mt hmem.mp hnew)

theorem countP_told (broken : Prop) [Decidable broken] (v : Violation) :
    (told broken v).countP Violation.isDuplicate = if broken ∧ v.isDuplicate then 1 else 0 := by
  unfold told
  split <;> simp [*]

theorem countP_consoleViolations (c : ConsoleSection) :
    (consoleViolations c).countP Violation.isDuplicate = 0 := by
  rw [consoleViolations_eq]
  simp [toldOfConsole, countP_told, Violation.isDuplicate]

theorem countP_serviceViolations (services : List ServiceSpec) (index : Nat) :
    (serviceViolations index services).countP Violation.isDuplicate = 0 := by
  induction services generalizing index with
  | nil => rfl
  | cons s rest ih =>
    rw [serviceViolations, violates_eq_told isBlankText_iff, violates_eq_told isBlankText_iff,
      List.countP_append, List.countP_append, ih]
    simp [countP_told, Violation.isDuplicate]

theorem countP_toldOfPlugin (earlier : List PluginSpec) (index : Nat) (p : PluginSpec) :
    (toldOfPlugin earlier index p).countP Violation.isDuplicate =
      if Repeats earlier p.label then 1 else 0 := by
  simp [toldOfPlugin, countP_told, Violation.isDuplicate]

theorem countP_pluginViolations (h : Remembers seen earlier) (index : Nat)
    (plugins : List PluginSpec) :
    (pluginViolations seen index plugins).countP Violation.isDuplicate +
        (namedLabels (earlier ++ plugins)).toFinset.card =
      (namedLabels earlier).toFinset.card + (namedLabels plugins).length := by
  induction plugins generalizing seen earlier index with
  | nil => simp [pluginViolations, namedLabels]
  | cons p rest ih =>
    obtain ⟨seen', h', hstep⟩ := pluginViolations_cons h index p rest
    have hrest := ih h' (index + 1)
    have hone := card_namedLabels_snoc earlier p
    have hlength : (namedLabels (p :: rest)).length =
        (namedLabels [p]).length + (namedLabels rest).length := by
      rw [← List.length_append, namedLabels, namedLabels, namedLabels, ← List.filter_append,
        ← List.map_append, List.singleton_append]
    rw [List.append_assoc, List.singleton_append] at hrest
    rw [hstep, List.countP_append, countP_toldOfPlugin, hlength]
    omega

/-- A configuration is accepted if it breaks no rule; otherwise the broken rules are told, each
once for each item that breaks it. -/
theorem violations_told (c : Config) :
    (violations c = [] ↔ Acceptable c) ∧ violations c = toldOf c ∧
      (violations c).countP Violation.isDuplicate +
          (namedLabels c.console.plugins).toFinset.card =
        (namedLabels c.console.plugins).length := by
  refine ⟨?_, violations_eq c, ?_⟩
  · rw [violations_eq]
    exact acceptable_iff
  -- The duplicates are found in the walk over the plugins alone.
  have hwalk := countP_pluginViolations remembers_nil 0 c.console.plugins
  rw [violations, List.countP_append, List.countP_append, countP_consoleViolations,
    countP_serviceViolations]
  simpa [namedLabels] using hwalk

end PluginConsole.Config
