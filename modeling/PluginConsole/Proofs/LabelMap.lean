import Mathlib.Data.List.Induction
import PluginConsole.LabelMap
import PluginConsole.Proofs.Dict

/-!
# Labels in the flat group

A title that is filed stands in the flat group from then on, with one exception: a title filed
under the name of the flat group itself, in no group, takes the place of all that stood there.
-/

namespace PluginConsole

structure Filing where
  category : String
  label : String
  title : String

namespace Filing

/-- It is put where the flat group is. -/
def Sweeps (f : Filing) : Prop :=
  f.label = flatKey ∧ categoryPath f.category = []

instance (f : Filing) : Decidable f.Sweeps :=
  inferInstanceAs (Decidable (_ ∧ _))

def entry (f : Filing) : String × String :=
  (f.label, f.title)

/-- The filings from the last one on that is put where the flat group is. -/
def sinceSweep : List Filing → List Filing
  | [] => []
  | f :: rest => if ∃ g ∈ rest, g.Sweeps then sinceSweep rest else f :: rest

theorem sinceSweep_suffix (filings : List Filing) : sinceSweep filings <:+ filings := by
  induction filings with
  | nil => exact List.suffix_rfl
  | cons f rest ih =>
    unfold sinceSweep
    split
    · exact ih.trans (List.suffix_cons f rest)
    · exact List.suffix_rfl

theorem sinceSweep_of_not_sweeps {filings : List Filing} (h : ∀ f ∈ filings, ¬ f.Sweeps) :
    sinceSweep filings = filings := by
  cases filings with
  | nil => rfl
  | cons f rest =>
    unfold sinceSweep
    rw [if_neg]
    rintro ⟨g, hg, hsweeps⟩
    exact h g (List.mem_cons_of_mem f hg) hsweeps

end Filing

namespace LabelNode

def titles (g : Group) : Dict String :=
  g.filterMap fun (label, node) => node.asTitle.map fun title => (label, title)

theorem mem_titles_insert (label title other : String) (g : Group) :
    other ∈ Dict.keys (titles (Dict.insert label (.title title) g)) ↔
      other = label ∨ other ∈ Dict.keys (titles g) := by
  induction g with
  | nil => simp [Dict.insert, titles, Dict.keys, asTitle]
  | cons entry rest ih =>
    obtain ⟨k, node⟩ := entry
    unfold titles Dict.keys at ih ⊢
    unfold Dict.insert
    split
    · simp [asTitle]
    · split
      · rename_i _ heq
        subst heq
        cases node <;> simp [asTitle]
      · cases node with
        | title s =>
          simp only [List.filterMap_cons, asTitle, Option.map_some, List.map_cons,
            List.mem_cons] at ih ⊢
          rw [ih]
          exact or_left_comm
        | group members =>
          simpa only [List.filterMap_cons, asTitle, Option.map_none] using ih

theorem titles_mapValues (d : Dict String) : titles (Dict.mapValues .title d) = d := by
  induction d with
  | nil => rfl
  | cons entry rest ih =>
    unfold titles Dict.mapValues at ih ⊢
    rw [List.map_cons, List.filterMap_cons, ih]
    rfl

end LabelNode

theorem categoryMark_append_ne (segment : String) : categoryMark ++ segment ≠ flatKey := by
  intro heq
  have hlists := congrArg String.toList heq
  simp [categoryMark, flatKey] at hlists

theorem flatKey_notMem_categoryPath (category : String) : flatKey ∉ categoryPath category := by
  intro hmem
  obtain ⟨segment, -, heq⟩ := List.mem_map.mp hmem
  exact categoryMark_append_ne segment heq

namespace LabelMap

open LabelNode

theorem flat_eq_titles (m : LabelMap) : m.flat = titles (members (m.get? flatKey)) := rfl

theorem members_filed (category label title : String) (g : Group) :
    members ((insertAt (categoryPath category) label (.title title) g).lookup flatKey) =
      if label = flatKey ∧ categoryPath category = [] then [] else members (g.lookup flatKey) := by
  cases hpath : categoryPath category with
  | nil =>
    unfold insertAt
    rw [Dict.lookup_insert]
    by_cases hlabel : label = flatKey
    · rw [if_pos hlabel.symm, if_pos ⟨hlabel, rfl⟩]
      rfl
    · rw [if_neg (Ne.symm hlabel), if_neg fun h => hlabel h.1]
  | cons step rest =>
    have hstep : flatKey ≠ step := by
      rintro rfl
      exact flatKey_notMem_categoryPath category (hpath ▸ List.mem_cons_self)
    unfold insertAt
    rw [Dict.lookup_insert_of_ne hstep, if_neg (by simp)]

theorem members_insert (category label title : String) (m : LabelMap) :
    members ((m.insert category label title).get? flatKey) = Dict.insert label (.title title)
      (if label = flatKey ∧ categoryPath category = [] then [] else members (m.get? flatKey)) := by
  unfold insert get?
  rw [← members_filed category label title m.root]
  generalize insertAt (categoryPath category) label (.title title) m.root = filed
  unfold insertAt
  rw [Dict.lookup_insert_self]
  rfl

theorem mem_flat_insert (category label title other : String) (m : LabelMap) :
    other ∈ Dict.keys (m.insert category label title).flat ↔
      other = label ∨ (other ∈ Dict.keys m.flat ∧ ¬ (label = flatKey ∧ categoryPath category = [])) := by
  rw [flat_eq_titles, members_insert, mem_titles_insert]
  by_cases hsweeps : label = flatKey ∧ categoryPath category = []
  · rw [if_pos hsweeps]
    simp [hsweeps, titles, Dict.keys]
  · rw [if_neg hsweeps]
    simp [hsweeps, flat_eq_titles, get?]

def insertAll (filings : List Filing) (m : LabelMap) : LabelMap :=
  filings.foldl (fun m f => m.insert f.category f.label f.title) m

theorem mem_flat_insertAll {filings : List Filing}
    (hsorted : filings.Pairwise fun a b => a.label < b.label) (label : String) :
    label ∈ Dict.keys (insertAll filings {}).flat ↔
      (∃ f ∈ filings, f.label = label) ∧ ¬ (label < flatKey ∧ ∃ f ∈ filings, f.Sweeps) := by
  induction filings using List.reverseRecOn with
  | nil => simp [insertAll, flat_eq_titles, get?, members, titles, Dict.keys]
  | append_singleton filings f ih =>
    obtain ⟨hfirst, -, hlast⟩ := List.pairwise_append.mp hsorted
    have hlast (g : Filing) (hg : g ∈ filings) : g.label < f.label :=
      hlast g hg f (List.mem_singleton_self f)
    have hstep : insertAll (filings ++ [f]) {} =
        (insertAll filings {}).insert f.category f.label f.title := by
      unfold insertAll
      rw [List.foldl_concat]
    have hsome (P : Filing → Prop) :
        (∃ g ∈ filings ++ [f], P g) ↔ (∃ g ∈ filings, P g) ∨ P f := by
      simp [or_and_right, exists_or]
    rw [hstep, mem_flat_insert, ih hfirst, hsome, hsome]
    constructor
    · rintro (rfl | ⟨⟨⟨g, hg, rfl⟩, hstays⟩, hkept⟩)
      · refine ⟨Or.inr rfl, ?_⟩
        rintro ⟨hlt, ⟨g, hg, hsweeps⟩ | hsweeps⟩
        · exact lt_asymm hlt (hsweeps.1 ▸ hlast g hg)
        · exact absurd hsweeps.1 (ne_of_lt hlt)
      · refine ⟨Or.inl ⟨g, hg, rfl⟩, ?_⟩
        rintro ⟨hlt, hsome | hsweeps⟩
        · exact hstays ⟨hlt, hsome⟩
        · exact hkept hsweeps
    · rintro ⟨⟨g, hg, rfl⟩ | rfl, hstays⟩
      · refine Or.inr ⟨⟨⟨g, hg, rfl⟩, fun h => hstays ⟨h.1, Or.inl h.2⟩⟩, fun hsweeps => ?_⟩
        exact hstays ⟨hsweeps.1 ▸ hlast g hg, Or.inr hsweeps⟩
      · exact Or.inl rfl

/-! ## The whole flat view

The flat group of a map that insertions made holds titles and nothing else, so that what is filed
there is filed in the flat view. -/

theorem flat_of_members {m : LabelMap} {d : Dict String}
    (h : members (m.get? flatKey) = Dict.mapValues .title d) : m.flat = d := by
  rw [flat_eq_titles, h, titles_mapValues]

theorem members_insertAll (filings : List Filing) {m : LabelMap} {d : Dict String}
    (h : members (m.get? flatKey) = Dict.mapValues .title d) :
    members ((insertAll filings m).get? flatKey) = Dict.mapValues .title
      (Dict.overlay (if ∃ f ∈ filings, f.Sweeps then [] else d)
        ((Filing.sinceSweep filings).map Filing.entry)) := by
  induction filings generalizing m d with
  | nil => simpa [insertAll, Filing.sinceSweep, Dict.overlay] using h
  | cons f rest ih =>
    have hstep : members ((m.insert f.category f.label f.title).get? flatKey) =
        Dict.mapValues .title (Dict.insert f.label f.title (if f.Sweeps then [] else d)) := by
      rw [members_insert, h, Dict.mapValues_insert, apply_ite (Dict.mapValues LabelNode.title)]
      rfl
    have hrest := ih hstep
    unfold Filing.sinceSweep
    by_cases hlater : ∃ g ∈ rest, g.Sweeps
    · have hsome : ∃ g ∈ f :: rest, g.Sweeps :=
        hlater.imp fun g hg => ⟨List.mem_cons_of_mem f hg.1, hg.2⟩
      rw [if_pos hlater] at hrest ⊢
      rw [if_pos hsome]
      exact hrest
    · have hself : (∃ g ∈ f :: rest, g.Sweeps) ↔ f.Sweeps := by
        rw [List.exists_mem_cons_iff]
        exact or_iff_left hlater
      have hnone : ∀ g ∈ rest, ¬ g.Sweeps := fun g hg hsweeps => hlater ⟨g, hg, hsweeps⟩
      rw [if_neg hlater, Filing.sinceSweep_of_not_sweeps hnone] at hrest
      rw [if_neg hlater, if_congr hself rfl rfl]
      exact hrest

theorem flat_insertAll (filings : List Filing) :
    (insertAll filings {}).flat = Dict.ofList ((Filing.sinceSweep filings).map Filing.entry) := by
  refine flat_of_members ((members_insertAll filings (d := []) rfl).trans ?_)
  rw [ite_self]
  rfl

/-- The flat view has each label that was filed since the flat group was last swept away, with
the last title of it. These are all labels, just if those before were filed again. -/
theorem flat_insertAll_complete (filings : List Filing) :
    (insertAll filings {}).flat = Dict.ofList ((Filing.sinceSweep filings).map Filing.entry) ∧
      ((insertAll filings {}).flat = Dict.ofList (filings.map Filing.entry) ↔
        ∀ f ∈ filings, ∃ g ∈ Filing.sinceSweep filings, g.label = f.label) := by
  refine ⟨flat_insertAll filings, ?_⟩
  obtain ⟨swept, hswept⟩ := Filing.sinceSweep_suffix filings
  have hfilings : filings.map Filing.entry =
      swept.map Filing.entry ++ (Filing.sinceSweep filings).map Filing.entry := by
    rw [← List.map_append, hswept]
  have hkeys (fs : List Filing) (label : String) :
      label ∈ Dict.keys (fs.map Filing.entry) ↔ ∃ f ∈ fs, f.label = label := by
    simp [Dict.keys, Filing.entry]
  rw [flat_insertAll, hfilings, eq_comm, Dict.ofList_append_eq_right]
  constructor
  · intro hagain f hf
    rcases List.mem_append.mp (hswept ▸ hf) with hf | hf
    · exact (hkeys _ _).mp (hagain f.label ((hkeys _ _).mpr ⟨f, hf, rfl⟩))
    · exact ⟨f, hf, rfl⟩
  · intro hagain label hlabel
    obtain ⟨f, hf, rfl⟩ := (hkeys _ _).mp hlabel
    exact (hkeys _ _).mpr (hagain f (hswept ▸ List.mem_append_left _ hf))

/-- A title under the name of the flat group, in a category of slashes only, sweeps away what
was filed before. -/
theorem flat_incomplete_after_sweep :
    (insertAll [⟨"misc", "a", "A"⟩, ⟨"/", flatKey, "Map"⟩] {}).flat ≠
      Dict.ofList [("a", "A"), (flatKey, "Map")] := by
  decide

end LabelMap

end PluginConsole
