import PluginConsole.Config.Load
import PluginConsole.Proofs.Toml.Tidy

/-!
# Layers in order

Every layer has the members of its tables in the order of their keys, the environment too, and so
has what comes of laying one over the other.
-/

namespace PluginConsole.Config

/-- All tables are in order, however deep they lie. -/
inductive Tree.Tidy : Tree → Prop where
  | leaf (l : Layer) (v : Leaf) : Tidy (.leaf l v)
  | list (l : Layer) {items : List Tree} (h : ∀ t ∈ items, Tidy t) : Tidy (.list l items)
  | table (l : Layer) {members : List (String × Tree)} (hsorted : Dict.Sorted members)
    (h : ∀ e ∈ members, Tidy e.2) : Tidy (.table l members)

namespace Tree

variable {key : String} {t : Tree} {below members : List (String × Tree)}

theorem Tidy.of_lookup (h : ∀ e ∈ members, e.2.Tidy) (hlookup : members.lookup key = some t) :
    t.Tidy :=
  h (key, t) (Dict.mem_of_lookup hlookup)

theorem tidy_insert (hsorted : Dict.Sorted below) (hbelow : ∀ e ∈ below, e.2.Tidy) (key : String)
    (ht : t.Tidy) :
    Dict.Sorted (Dict.insert key t below) ∧ ∀ e ∈ Dict.insert key t below, e.2.Tidy := by
  refine ⟨Dict.sorted_insert key t hsorted, fun e he => ?_⟩
  rcases Dict.mem_of_mem_insert he with rfl | he
  · exact ht
  · exact hbelow e he

/-! ## From text -/

theorem itemsOfToml_eq (l : Layer) (items : List Toml) :
    itemsOfToml l items = items.map (ofToml l) := by
  induction items with
  | nil => rfl
  | cons v rest ih => rw [itemsOfToml, ih, List.map_cons]

theorem membersOfToml_eq (l : Layer) (members : List (String × Toml)) :
    membersOfToml l members = Dict.mapValues (ofToml l) members := by
  induction members with
  | nil => rfl
  | cons e rest ih =>
    obtain ⟨k, v⟩ := e
    rw [membersOfToml, ih]
    rfl

theorem tidy_ofToml {v : Toml} (l : Layer) (h : v.Tidy) : (ofToml l v).Tidy := by
  induction h with
  | bool | int | float | text =>
    rw [ofToml]
    exact .leaf l _
  | date s =>
    rw [ofToml]
    exact .table l (List.pairwise_singleton _ _) (List.forall_mem_singleton.mpr (.leaf l _))
  | list h ih =>
    rw [ofToml, itemsOfToml_eq]
    exact .list l (List.forall_mem_map.mpr ih)
  | table hsorted h ih =>
    rw [ofToml, membersOfToml_eq]
    exact .table l (Dict.sorted_mapValues _ hsorted) (List.forall_mem_map.mpr ih)

/-! ## One layer over another -/

mutual

theorem Tidy.merge {lower upper : Tree} (hlower : lower.Tidy) (hupper : upper.Tidy) :
    (merge lower upper).Tidy := by
  match upper with
  | .leaf l v =>
    rw [Tree.merge]
    · exact hupper
    · exact nofun
  | .list l items =>
    rw [Tree.merge]
    · exact hupper
    · exact nofun
  | .table l members =>
    cases hupper with
    | table _ hsorted hmembers =>
      cases hlower with
      | leaf | list =>
        rw [Tree.merge]
        · exact .table l hsorted hmembers
        · exact nofun
      | table _ hbelow hvalues =>
        rw [Tree.merge]
        have hmerged := tidy_mergeMembers hbelow hvalues hmembers
        exact .table l hmerged.1 hmerged.2
termination_by sizeOf upper

theorem tidy_mergeMembers {below members : List (String × Tree)} (hsorted : Dict.Sorted below)
    (hbelow : ∀ e ∈ below, e.2.Tidy)
    (hmembers : ∀ e ∈ members, e.2.Tidy) :
    Dict.Sorted (mergeMembers below members) ∧ ∀ e ∈ mergeMembers below members, e.2.Tidy := by
  match members with
  | [] =>
    rw [mergeMembers]
    exact ⟨hsorted, hbelow⟩
  | (k, v) :: rest =>
    obtain ⟨hv, hrest⟩ := List.forall_mem_cons.mp hmembers
    rw [mergeMembers]
    split
    · rename_i old hold
      have hold := Tidy.of_lookup hbelow hold
      have hinsert := tidy_insert hsorted hbelow k (hold.merge hv)
      exact tidy_mergeMembers hinsert.1 hinsert.2 hrest
    · have hinsert := tidy_insert hsorted hbelow k hv
      exact tidy_mergeMembers hinsert.1 hinsert.2 hrest
termination_by sizeOf members

end

theorem tidy_ofList {entries : List (String × Tree)} (h : ∀ e ∈ entries, e.2.Tidy) (l : Layer) :
    (table l (Dict.ofList entries)).Tidy :=
  .table l (Dict.sorted_overlay entries Dict.sorted_nil)
    fun _ he => h _ ((Dict.mem_of_mem_overlay he).resolve_left List.not_mem_nil)

end Tree

/-! ## The environment -/

namespace EnvValue

structure Tidies (fuel : Nat) : Prop where
  value {cs rest : List Char} {t : Tree} : value fuel cs = some (t, rest) → t.Tidy
  items {cs rest : List Char} {ts : List Tree} : items fuel cs = some (ts, rest) → ∀ t ∈ ts, t.Tidy
  members {cs rest : List Char} {ms : List (String × Tree)} :
    members fuel cs = some (ms, rest) → ∀ e ∈ ms, e.2.Tidy

variable {fuel : Nat} {cs rest : List Char}

theorem tidy_value (h : Tidies fuel) {t : Tree} (hvalue : value (fuel + 1) cs = some (t, rest)) :
    t.Tidy := by
  rw [value.eq_def] at hvalue
  dsimp only at hvalue
  split at hvalue
  · cases hvalue
    exact .leaf _ _
  · cases hvalue
    exact .leaf _ _
  split at hvalue
  all_goals
    obtain ⟨⟨t', _⟩, hread, heq⟩ := Option.bind_eq_some_iff.mp hvalue
    cases heq
  · obtain ⟨⟨ms, _⟩, hmembers, heq⟩ := Option.map_eq_some_iff.mp hread
    cases heq
    exact Tree.tidy_ofList (h.members hmembers) _
  · obtain ⟨⟨ts, _⟩, hitems, heq⟩ := Option.map_eq_some_iff.mp hread
    cases heq
    exact .list _ (h.items hitems)
  · obtain ⟨⟨s, _⟩, -, heq⟩ := Option.map_eq_some_iff.mp hread
    cases heq
    exact .leaf _ _
  · cases hread
    exact .leaf _ _
  · cases hread
  · cases hread
    exact .leaf _ _

theorem tidy_items (h : Tidies fuel) {ts : List Tree}
    (hitems : items (fuel + 1) cs = some (ts, rest)) : ∀ t ∈ ts, t.Tidy := by
  rw [items.eq_def] at hitems
  dsimp only at hitems
  split at hitems
  · cases hitems
    exact nofun
  · obtain ⟨⟨t, _⟩, hvalue, hitems⟩ := Option.bind_eq_some_iff.mp hitems
    split at hitems
    · cases hitems
      exact List.forall_mem_singleton.mpr (h.value hvalue)
    · obtain ⟨⟨ts, _⟩, hrest, heq⟩ := Option.bind_eq_some_iff.mp hitems
      cases heq
      exact List.forall_mem_cons.mpr ⟨h.value hvalue, h.items hrest⟩
    · cases hitems

theorem tidy_members (h : Tidies fuel) {ms : List (String × Tree)}
    (hmembers : members (fuel + 1) cs = some (ms, rest)) : ∀ e ∈ ms, e.2.Tidy := by
  rw [members.eq_def] at hmembers
  dsimp only at hmembers
  split at hmembers
  · cases hmembers
    exact nofun
  · obtain ⟨⟨k, _⟩, -, hmembers⟩ := Option.bind_eq_some_iff.mp hmembers
    split at hmembers
    · obtain ⟨⟨t, _⟩, hvalue, hmembers⟩ := Option.bind_eq_some_iff.mp hmembers
      split at hmembers
      · cases hmembers
        exact List.forall_mem_singleton.mpr (h.value hvalue)
      · obtain ⟨⟨ms, _⟩, hrest, heq⟩ := Option.bind_eq_some_iff.mp hmembers
        cases heq
        exact List.forall_mem_cons.mpr ⟨h.value hvalue, h.members hrest⟩
      · cases hmembers
    · cases hmembers

theorem tidies (fuel : Nat) : Tidies fuel := by
  induction fuel with
  | zero =>
    refine ⟨fun h => ?_, fun h => ?_, fun h => ?_⟩
    · cases h
    · cases h
    · cases h
  | succ fuel ih => exact ⟨tidy_value ih, tidy_items ih, tidy_members ih⟩

theorem tidy_parse (s : String) : (parse s).Tidy := by
  unfold parse
  dsimp only
  split
  · rename_i hvalue
    exact (tidies _).value hvalue
  · exact .leaf _ _

end EnvValue

theorem tidy_nest {t : Tree} (path : List String) (h : t.Tidy) : (nest path t).Tidy := by
  unfold nest
  induction path with
  | nil => exact h
  | cons key rest ih =>
    exact .table _ (List.pairwise_singleton _ _) (List.forall_mem_singleton.mpr ih)

theorem tidy_environmentTree (env : List Variable) : (environmentTree env).Tidy := by
  unfold environmentTree
  refine List.foldlRecOn env _ (.table _ Dict.sorted_nil nofun) fun t ht setting _ => ?_
  dsimp only
  split
  · rename_i path _
    exact ht.merge (tidy_nest path (EnvValue.tidy_parse _))
  · exact ht

/-! ## All layers -/

theorem TomlText.tidy {text : TomlText} {t : Tree} (h : text.tree? = some t) : t.Tidy := by
  obtain ⟨members, hread, rfl⟩ := Option.map_eq_some_iff.mp h
  exact Tree.tidy_ofToml _ (Toml.tidy_read hread)

theorem tidy_defaultTree : defaultTree.Tidy := by
  have hleaf (v : Leaf) : (Tree.leaf .defaults v).Tidy := .leaf .defaults v
  have hplugin (p : PluginSpec) : (Tree.table .defaults
      [("factory", .leaf .defaults (.text p.factory)),
        ("label", .leaf .defaults (.text p.label))]).Tidy := by
    have hkeys : ["factory", "label"].Pairwise (· < ·) := by decide
    exact .table _ (Dict.sorted_iff_keys.mpr hkeys) (by simp [hleaf])
  have hkeys : ["console", "directory", "i18n"].Pairwise (· < ·) := by decide
  refine .table _ (Dict.sorted_iff_keys.mpr hkeys) ?_
  simp only [List.forall_mem_cons]
  refine ⟨?_, .table _ (List.pairwise_singleton _ _) ?_, .table _ Dict.sorted_nil nofun, nofun⟩
  · have hkeys : ["default_category", "default_label", "disabled_plugins", "locale", "log_level",
        "plugins"].Pairwise (· < ·) := by decide
    refine .table _ (Dict.sorted_iff_keys.mpr hkeys) ?_
    simp only [List.forall_mem_cons]
    refine ⟨hleaf _, hleaf _, .list _ nofun, hleaf _, hleaf _, .list _ ?_, nofun⟩
    exact List.forall_mem_map.mpr fun p _ => hplugin p
  · exact List.forall_mem_singleton.mpr (.list _ nofun)

theorem tidy_merged {trees : List Tree} (h : ∀ t ∈ trees, t.Tidy) : (merged trees).Tidy := by
  unfold merged
  exact List.foldlRecOn trees _ tidy_defaultTree fun below hbelow t ht => hbelow.merge (h t ht)

end PluginConsole.Config
