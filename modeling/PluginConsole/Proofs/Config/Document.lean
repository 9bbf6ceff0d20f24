import PluginConsole.Console.Commands
import PluginConsole.Proofs.Config.Reading
import PluginConsole.Proofs.Toml.Sections

/-!
# Configurations as documents

The document of a configuration that is sound has the shape that can be read again, and the order
in which its keys come back is told here.
-/

namespace PluginConsole

open Toml

/-! ## Shapes -/

theorem shape_tables {α : Type} {members : α → List (String × Toml)} {as : List α}
    (h : ∀ a ∈ as, Flat (members a)) :
    Simple (.list (as.map fun a => .table (members a))) ∨
      Headed (.list (as.map fun a => .table (members a))) := by
  by_cases hempty : as = []
  · rw [hempty]
    exact Or.inl (.texts [])
  · have hheaded := Headed.tables (List.map_eq_nil_iff.not.mpr hempty) (List.forall_mem_map.mpr h)
    rw [List.map_map] at hheaded
    exact Or.inr hheaded

namespace ServiceSpec

variable {α : Type} {name : String} {f : α → Toml} {value : Option α}

theorem keys_optional (name : String) (f : α → Toml) (value : Option α) :
    (Dict.keys (optional name f value)).Sublist [name] := by
  cases value with
  | none => exact List.nil_sublist _
  | some a => exact List.Sublist.refl _

theorem simple_optional (h : ∀ a ∈ value, Simple (f a)) :
    ∀ e ∈ optional name f value, Simple e.2 := by
  cases value with
  | none => exact nofun
  | some a => exact List.forall_mem_singleton.mpr (h a rfl)

theorem simple_texts (value : Option String) : ∀ e ∈ optional name .text value, Simple e.2 :=
  simple_optional fun s _ => .text s

end ServiceSpec

namespace PluginSpec

def members (p : PluginSpec) : List (String × Toml) :=
  [("factory", .text p.factory), ("label", .text p.label)]

theorem flat_members (p : PluginSpec) : Flat p.members where
  nodup := by
    show ["factory", "label"].Nodup
    decide
  simple := by simp [members, Simple.text]

end PluginSpec

namespace ServiceSpec

def members (s : ServiceSpec) : List (String × Toml) :=
  [("label", .text s.label), ("handler", .text s.handler)] ++
    optional "title" .text s.title ++ optional "category" .text s.category ++
    optional "ranking" .int s.ranking ++ optional "provider" .text s.provider ++
    [("origin", .text s.origin)]

theorem nodup_members (s : ServiceSpec) : (Dict.keys s.members).Nodup := by
  have hkeys :
      ["label", "handler", "title", "category", "ranking", "provider", "origin"].Nodup := by
    decide
  refine hkeys.sublist ?_
  simp only [members, Dict.keys, List.map_append]
  exact (((((List.Sublist.refl ["label", "handler"]).append (keys_optional ..)).append
    (keys_optional ..)).append (keys_optional ..)).append (keys_optional ..)).append
      (.refl ["origin"])

theorem flat_members {s : ServiceSpec} (h : Config.Ranked s) : Flat s.members where
  nodup := s.nodup_members
  simple := by
    have hranking : ∀ e ∈ optional "ranking" .int s.ranking, Simple e.2 := by
      refine simple_optional fun n hn => .int ?_
      have hbounds := h n hn
      simp only [Decimal.isInt32, Decimal.isInt64, Bool.and_eq_true, decide_eq_true_eq] at hbounds ⊢
      omega
    simp only [members, List.forall_mem_append]
    refine ⟨⟨⟨⟨⟨?_, simple_texts _⟩, simple_texts _⟩, hranking⟩, simple_texts _⟩, ?_⟩
    · simp [Simple.text]
    · simp [Simple.text]

end ServiceSpec

namespace ConsoleSection

def members (c : ConsoleSection) : List (String × Toml) :=
  ServiceSpec.optional "default_label" .text c.defaultLabel ++ [
    ("default_category", .text c.defaultCategory),
    ("locale", .text c.locale),
    ("log_level", .text c.logLevel),
    ("disabled_plugins", .list (c.disabledPlugins.map .text)),
    ("plugins", .list (c.plugins.map (·.toToml)))]

theorem shallow_members (c : ConsoleSection) : Shallow c.members where
  nodup := by
    have hkeys : ["default_label", "default_category", "locale", "log_level", "disabled_plugins",
        "plugins"].Nodup := by decide
    refine hkeys.sublist ?_
    simp only [members, Dict.keys, List.map_append]
    exact (ServiceSpec.keys_optional "default_label" _ _).append (.refl _)
  shape := by
    have hplugins := shape_tables fun p (_ : p ∈ c.plugins) => p.flat_members
    have hlabel : ∀ e ∈ ServiceSpec.optional "default_label" .text c.defaultLabel, Simple e.2 :=
      ServiceSpec.simple_texts c.defaultLabel
    simp only [members, List.forall_mem_append, List.forall_mem_cons]
    refine ⟨fun e he => Or.inl (hlabel e he), Or.inl (.text _), Or.inl (.text _), Or.inl (.text _),
      Or.inl (.texts _), hplugins, fun _ hmem => absurd hmem List.not_mem_nil⟩

end ConsoleSection

namespace Config

theorem flat_texts {table : Dict String} (h : Dict.Sorted table) :
    Flat (table.mapValues .text) where
  nodup := by
    rw [Dict.keys_mapValues]
    exact Dict.nodup_keys h
  simple := List.forall_mem_map.mpr fun e _ => .text e.2

theorem shallow_messages {c : Config} (h : Sound c) :
    Shallow (c.messages.mapValues fun table => .table (table.mapValues .text)) where
  nodup := by
    rw [Dict.keys_mapValues]
    exact Dict.nodup_keys h.sorted
  shape := List.forall_mem_map.mpr fun e he => Or.inr (.table (flat_texts (h.tables e he)))

theorem regular_toToml {c : Config} (h : Sound c) : Regular c.toToml where
  nodup := by
    show ["console", "directory", "i18n"].Nodup
    decide
  shape := by
    have hservices := shape_tables fun s hs => ServiceSpec.flat_members (h.ranked s hs)
    simp only [toToml, List.forall_mem_cons]
    refine ⟨⟨_, rfl, c.console.shallow_members⟩, ⟨_, rfl, ?_⟩, ⟨_, rfl, shallow_messages h⟩, nofun⟩
    exact ⟨List.pairwise_singleton _ _, List.forall_mem_singleton.mpr hservices⟩

end Config

/-! ## The keys in order -/

namespace ServiceSpec

def inOrder (s : ServiceSpec) : Dict Toml :=
  optional "category" .text s.category ++
    [("handler", .text s.handler), ("label", .text s.label), ("origin", .text s.origin)] ++
    optional "provider" .text s.provider ++ optional "ranking" .int s.ranking ++
    optional "title" .text s.title

theorem ordered_toToml (s : ServiceSpec) : ordered s.toToml = .table s.inOrder := by
  obtain ⟨label, handler, title, category, ranking, provider, origin⟩ := s
  cases title <;> cases category <;> cases ranking <;> cases provider <;> rfl

end ServiceSpec

namespace ConsoleSection

def inOrder (c : ConsoleSection) : Dict Toml :=
  [("default_category", .text c.defaultCategory)] ++
    ServiceSpec.optional "default_label" .text c.defaultLabel ++ [
    ("disabled_plugins", .list (c.disabledPlugins.map .text)),
    ("locale", .text c.locale),
    ("log_level", .text c.logLevel),
    ("plugins", .list (c.plugins.map (·.toToml)))]

theorem ordered_toToml (c : ConsoleSection) : ordered c.toToml = .table c.inOrder := by
  have hmembers (disabled plugins : Toml) : ordered (.table
        (ServiceSpec.optional "default_label" .text c.defaultLabel ++ [
          ("default_category", .text c.defaultCategory), ("locale", .text c.locale),
          ("log_level", .text c.logLevel), ("disabled_plugins", disabled), ("plugins", plugins)])) =
      .table ([("default_category", .text c.defaultCategory)] ++
        ServiceSpec.optional "default_label" .text c.defaultLabel ++ [
          ("disabled_plugins", ordered disabled), ("locale", .text c.locale),
          ("log_level", .text c.logLevel), ("plugins", ordered plugins)]) := by
    cases c.defaultLabel <;> rfl
  have htexts :
      ordered (.list (c.disabledPlugins.map .text)) = .list (c.disabledPlugins.map .text) :=
    (Simple.texts c.disabledPlugins).ordered
  have hplugins :
      ordered (.list (c.plugins.map (·.toToml))) = .list (c.plugins.map (·.toToml)) := by
    rw [ordered, orderedItems_eq, List.map_map]
    rfl
  rw [toToml, hmembers, htexts, hplugins, inOrder]

end ConsoleSection

namespace Config

def inOrder (c : Config) : Dict Toml := [
  ("console", .table c.console.inOrder),
  ("directory", .table [("services", .list (c.services.map fun s => .table s.inOrder))]),
  ("i18n", .table (c.messages.mapValues fun table => .table (table.mapValues .text)))]

theorem ordered_mapValues {α : Type} {f : α → Toml} {d : Dict α} (hsorted : Dict.Sorted d)
    (h : ∀ e ∈ d, ordered (f e.2) = f e.2) :
    ordered (.table (d.mapValues f)) = .table (d.mapValues f) := by
  rw [ordered, orderedMembers_of_sorted (Dict.sorted_mapValues f hsorted)]
  unfold Dict.mapValues
  rw [List.map_map]
  exact congrArg Toml.table (List.map_congr_left fun e he => congrArg (Prod.mk e.1) (h e he))

theorem orderedMembers_toToml {c : Config} (h : Sound c) : orderedMembers c.toToml = c.inOrder := by
  have hmembers (console services messages : Toml) :
      orderedMembers [("console", console), ("directory", .table [("services", services)]),
        ("i18n", messages)] =
      [("console", ordered console), ("directory", .table [("services", ordered services)]),
        ("i18n", ordered messages)] := rfl
  have hservices : ordered (.list (c.services.map (·.toToml))) =
      .list (c.services.map fun s => .table s.inOrder) := by
    rw [ordered, orderedItems_eq, List.map_map]
    exact congrArg Toml.list (List.map_congr_left fun s _ => s.ordered_toToml)
  have hmessages :
      ordered (.table (c.messages.mapValues fun table => .table (table.mapValues .text))) =
        .table (c.messages.mapValues fun table => .table (table.mapValues .text)) :=
    ordered_mapValues h.sorted fun e he => ordered_mapValues (h.tables e he) fun _ _ => rfl
  rw [toToml, hmembers, c.console.ordered_toToml, hservices, hmessages, inOrder]

/-- The document of a configuration is read as its members, in the order of their keys. -/
theorem read_document {c : Config} (h : Sound c) : Toml.read c.document = some c.inOrder := by
  rw [document, read_pretty (regular_toToml h), orderedMembers_toToml h]

end Config

end PluginConsole
