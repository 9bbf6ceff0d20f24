import PluginConsole.Console.Messages
import PluginConsole.Proofs.Dict
import PluginConsole.Proofs.Text

/-!
# Which messages are shown

Of several spellings of one locale only the last is kept, with its messages alone. Below them are
the built-in titles, for the module of the built-in plugins.
-/

namespace PluginConsole.Catalog

open Text

/-! ## The configured locales -/

variable {messages : Dict (Dict String)} {locale : String} {table : Dict String}

/-- The messages of the last spelling of a locale. -/
def Prevails (messages : Dict (Dict String)) (locale : String) (table : Dict String) : Prop :=
  ∃ before spelling after, messages = before ++ (spelling, table) :: after ∧
    SpelledAlike spelling locale ∧ ∀ e ∈ after, ¬ SpelledAlike e.1 locale

theorem lookup_ofConfigured : (ofConfigured messages).lookup (lowerAscii locale) = some table ↔
    Prevails messages locale table := by
  unfold ofConfigured Prevails
  rw [Dict.lookup_ofList, ← List.map_reverse, List.lookup_eq_some_iff]
  simp only [bne_iff_ne, ne_eq]
  constructor
  · rintro ⟨_, _, hsplit, hafter⟩
    obtain ⟨after, rest, hmessages, rfl, hrest⟩ := List.map_eq_append_iff.mp hsplit
    obtain ⟨e, before, rfl, he, -⟩ := List.map_eq_cons_iff.mp hrest
    obtain ⟨hspelling, htable⟩ := Prod.mk.inj he
    refine ⟨before.reverse, e.1, after.reverse, ?_, lowerAscii_eq_iff.mp hspelling, ?_⟩
    · rw [← htable, ← List.reverse_inj, hmessages]
      simp
    · intro other hother halike
      refine hafter _ (List.mem_map_of_mem (List.mem_reverse.mp hother)) ?_
      exact (lowerAscii_eq_iff.mpr halike).symm
  · rintro ⟨before, spelling, after, rfl, halike, hafter⟩
    refine ⟨_, _, by rw [List.reverse_append, List.reverse_cons, List.append_assoc,
      List.singleton_append, List.map_append, List.map_cons, lowerAscii_eq_iff.mpr halike], ?_⟩
    intro p hp heq
    obtain ⟨other, hother, rfl⟩ := List.mem_map.mp hp
    exact hafter other (List.mem_reverse.mp hother) (lowerAscii_eq_iff.mp heq.symm)

theorem lookup_ofConfigured_eq_none : (ofConfigured messages).lookup (lowerAscii locale) = none ↔
    ∀ e ∈ messages, ¬ SpelledAlike e.1 locale := by
  unfold ofConfigured
  rw [Dict.lookup_ofList, List.lookup_eq_none_iff]
  simp only [List.mem_reverse, List.forall_mem_map, bne_iff_ne, ne_eq, ← lowerAscii_eq_iff]
  exact forall₂_congr fun _ _ => not_congr eq_comm

/-! ## The language of a locale -/

/-- What stands before the first dash or underscore. -/
def IsLanguage (p l : String) : Prop :=
  ∃ rest, l = p ++ rest ∧ (∀ c ∈ p.toList, c ≠ '-' ∧ c ≠ '_') ∧
    ∀ c ∈ rest.toList.head?, c = '-' ∨ c = '_'

theorem isLanguage_language (l : String) : IsLanguage (language l) l := by
  refine ⟨String.ofList (l.toList.dropWhile fun c => c != '-' && c != '_'), ?_, ?_, ?_⟩
  · rw [language, ← String.ofList_append, List.takeWhile_append_dropWhile, String.ofList_toList]
  · intro c hc
    rw [language, String.toList_ofList] at hc
    simpa using List.mem_takeWhile_imp hc
  · intro c hc
    have hstop := List.head?_dropWhile_not (fun c : Char => c != '-' && c != '_') l.toList
    rw [String.toList_ofList] at hc
    rw [hc] at hstop
    simpa [imp_iff_not_or, or_comm] using hstop

theorem IsLanguage.eq {p l : String} (h : IsLanguage p l) : p = language l := by
  obtain ⟨rest, rfl, hp, hrest⟩ := h
  rw [language, String.toList_append, List.takeWhile_append_of_pos (by simpa using hp)]
  cases hcs : rest.toList with
  | nil => simp
  | cons c cs =>
    rw [hcs] at hrest
    rw [List.takeWhile_cons_of_neg (by simpa [imp_iff_not_or, or_comm] using hrest c rfl)]
    simp

theorem language_lowerAscii (l : String) : language (lowerAscii l) = lowerAscii (language l) := by
  have hseparator (c : Char) :
      (c.toLower != '-' && c.toLower != '_') = (c != '-' && c != '_') := by
    have hdash : c.toLower = '-' ↔ c = '-' := toLower_eq_iff_of_not_isAlpha rfl
    have hunderscore : c.toLower = '_' ↔ c = '_' := toLower_eq_iff_of_not_isAlpha rfl
    rw [Bool.eq_iff_iff]
    simp [hdash, hunderscore]
  unfold language lowerAscii
  rw [← String.toList_inj, String.toList_ofList, String.toList_map, String.toList_map,
    String.toList_ofList, List.takeWhile_map]
  congr 2
  exact funext hseparator

theorem language_language (l : String) : language (language l) = language l := by
  have hself : ∀ c ∈ (language l).toList, (c != '-' && c != '_') = true := by
    intro c hc
    rw [language, String.toList_ofList] at hc
    exact List.mem_takeWhile_imp (p := fun c => c != '-' && c != '_') hc
  conv_lhs => rw [language, List.takeWhile_eq_self_iff.mpr hself, String.ofList_toList]

/-! ## What a catalog finds -/

variable {c : Catalog} {l l' p : String}

theorem find?_eq (c : Catalog) (l : String) :
    c.find? l = (c.lookup (lowerAscii l)).or (c.lookup (lowerAscii (language l))) := by
  rw [← language_lowerAscii]
  rfl

theorem find?_congr (h : SpelledAlike l l') (c : Catalog) : c.find? l = c.find? l' := by
  unfold find?
  rw [lowerAscii_eq_iff.mpr h]

theorem find?_language (h : c.lookup (lowerAscii l) = none) :
    c.find? l = c.find? (language l) := by
  rw [find?_eq, find?_eq, language_language, h, Option.none_or, Option.or_self]

theorem lookup_builtin : builtin.lookup (lowerAscii l) = some table ↔
    SpelledAlike l "en" ∧ table = english := by
  have hen : lowerAscii "en" = "en" := by decide +kernel
  rw [← lowerAscii_eq_iff, hen, builtin, List.lookup_cons]
  by_cases h : lowerAscii l = "en"
  · simp [h, eq_comm]
  · simp [h, beq_false_of_ne h]

theorem builtin_find?_language (l : String) : builtin.find? l = builtin.find? (language l) := by
  cases h : builtin.lookup (lowerAscii l) with
  | none => exact find?_language h
  | some table =>
    -- English is its own language.
    have hen := lowerAscii_eq_iff.mpr (lookup_builtin.mp h).1
    refine find?_congr (lowerAscii_eq_iff.mp ?_) builtin
    rw [← language_lowerAscii, hen, language_lowerAscii]
    rfl

theorem builtin_find? : builtin.find? l = some table ↔
    (SpelledAlike l "en" ∨ SpelledAlike (language l) "en") ∧ table = english := by
  rw [find?_eq]
  cases h : builtin.lookup (lowerAscii l) with
  | some below =>
    obtain ⟨hen, rfl⟩ := lookup_builtin.mp h
    simp [hen, eq_comm]
  | none =>
    have hother : ¬ SpelledAlike l "en" := fun hen => by
      rw [lookup_builtin.mpr ⟨hen, rfl⟩] at h
      cases h
    simp [hother, lookup_builtin]

/-! ## What is shown -/

/-- A title of a built-in plugin, shown for their module alone. -/
def BuiltinTitle (origin locale key value : String) : Prop :=
  origin = builtinOrigin ∧ (SpelledAlike locale "en" ∨ SpelledAlike (language locale) "en") ∧
    english.lookup key = some value

theorem builtinFor_lookup {origin key value : String} :
    (∃ below, builtinFor origin l = some below ∧ below.lookup key = some value) ↔
      BuiltinTitle origin l key value := by
  unfold builtinFor BuiltinTitle
  split
  · rename_i horigin
    simp only [builtin_find?, horigin, true_and]
    constructor
    · rintro ⟨_, ⟨hen, rfl⟩, hvalue⟩
      exact ⟨hen, hvalue⟩
    · exact fun ⟨hen, hvalue⟩ => ⟨english, ⟨hen, rfl⟩, hvalue⟩
  · rename_i horigin
    simp [horigin]

theorem messages_congr {origin : String} (hbuiltin : builtinFor origin l = builtinFor origin l')
    (hfound : c.find? l = c.find? l') :
    (c.messages origin l).toOption = (c.messages origin l').toOption := by
  unfold messages
  rw [hbuiltin, hfound]
  cases builtinFor origin l' <;> cases c.find? l' <;> rfl

theorem messages_elsewhere {origin : String} (h : origin ≠ builtinOrigin) (c : Catalog)
    (l : String) : (c.messages origin l).toOption = c.find? l := by
  unfold messages builtinFor
  rw [if_neg h]
  cases c.find? l <;> rfl

theorem messages_eq_error {origin : String} {f : Fault} (h : c.messages origin l = .error f) :
    f = .localization origin l "no message table" := by
  unfold messages at h
  split at h
  · cases h
  · cases h
  · cases h
  · exact (Except.error.inj h).symm

/-- What is configured is shown, and below it the titles of the built-in plugins. -/
theorem messages_configured (h : c.find? l = some table) (hsorted : Dict.Sorted table)
    (origin : String) :
    ∃ shown, c.messages origin l = .ok shown ∧ ∀ key value, shown.lookup key = some value ↔
      table.lookup key = some value ∨
        table.lookup key = none ∧ BuiltinTitle origin l key value := by
  unfold messages
  simp only [← builtinFor_lookup, h]
  cases builtinFor origin l with
  | none => exact ⟨table, rfl, by simp⟩
  | some below =>
    refine ⟨_, rfl, fun key value => ?_⟩
    rw [Dict.lookup_overlay_of_sorted hsorted, Option.or_eq_some_iff]
    simp

/-! ## The theorems -/

theorem Prevails.mem (h : Prevails messages l table) : ∃ spelling, (spelling, table) ∈ messages := by
  obtain ⟨before, spelling, after, rfl, -⟩ := h
  exact ⟨spelling, by simp⟩

theorem find?_mem (h : (ofConfigured messages).find? l = some table) :
    ∃ spelling, (spelling, table) ∈ messages := by
  rw [find?_eq, Option.or_eq_some_iff] at h
  rcases h with h | ⟨-, h⟩
  · exact (lookup_ofConfigured.mp h).mem
  · exact (lookup_ofConfigured.mp h).mem

/-- In a locale that is configured, the messages of its last spelling are shown, and those of an
earlier one only as far as they agree with these. -/
theorem messages_effective (htables : ∀ e ∈ messages, Dict.Sorted e.2)
    (hlocale : (locale, table) ∈ messages) (origin : String) :
    ∃ last shown, Prevails messages locale last ∧
      (ofConfigured messages).messages origin locale = .ok shown ∧
      (∀ key value, shown.lookup key = some value ↔ last.lookup key = some value ∨
        last.lookup key = none ∧ BuiltinTitle origin locale key value) ∧
      (Prevails messages locale table →
        ∀ key value, (key, value) ∈ table → shown.lookup key = some value) := by
  obtain ⟨last, hlast⟩ : ∃ last, (ofConfigured messages).lookup (lowerAscii locale) = some last := by
    refine Option.ne_none_iff_exists'.mp fun hnone => ?_
    refine lookup_ofConfigured_eq_none.mp hnone _ hlocale ?_
    exact lowerAscii_eq_iff.mp rfl
  have hfound : (ofConfigured messages).find? locale = some last := by
    rw [find?_eq, hlast, Option.some_or]
  obtain ⟨spelling, hmem⟩ := find?_mem hfound
  have hsorted := htables _ hmem
  obtain ⟨shown, hshown, hlookup⟩ := messages_configured hfound hsorted origin
  refine ⟨last, shown, lookup_ofConfigured.mp hlast, hshown, hlookup, ?_⟩
  intro hprevails key value hvalue
  rw [lookup_ofConfigured.mpr hprevails] at hlast
  cases hlast
  exact (hlookup key value).mpr (Or.inl ((Dict.mem_iff_lookup hsorted).mp hvalue))

/-- English is spelled in two ways, the later one without a greeting. -/
def respelled : Dict (Dict String) :=
  [("EN", [("greeting", "Hello")]), ("de", [("greeting", "Hallo")]), ("en", [("farewell", "Bye")])]

theorem respelled_sorted : Dict.Sorted respelled ∧ ∀ e ∈ respelled, Dict.Sorted e.2 := by
  decide +kernel

theorem once_spelled_effective :
    (∀ e ∈ respelled, Dict.Sorted e.2) ∧ ("de", [("greeting", "Hallo")]) ∈ respelled ∧
      Prevails respelled "de" [("greeting", "Hallo")] ∧
      ∃ shown, (ofConfigured respelled).messages "app" "de" = .ok shown ∧
        shown.lookup "greeting" = some "Hallo" := by
  have hmem : ("de", [("greeting", "Hallo")]) ∈ respelled := by simp [respelled]
  have hprevails : Prevails respelled "de" [("greeting", "Hallo")] :=
    ⟨respelled.take 1, "de", respelled.drop 2, rfl, by decide +kernel, by decide +kernel⟩
  obtain ⟨last, shown, -, hshown, -, heffective⟩ :=
    messages_effective respelled_sorted.2 hmem "app"
  exact ⟨respelled_sorted.2, hmem, hprevails, shown, hshown, heffective hprevails _ _ (by simp)⟩

/-- The greeting of the earlier spelling is not shown, in that spelling itself. -/
theorem respelled_not_effective :
    Dict.Sorted respelled ∧ (∀ e ∈ respelled, Dict.Sorted e.2) ∧
      ("EN", [("greeting", "Hello")]) ∈ respelled ∧
      ¬ ∃ shown, (ofConfigured respelled).messages "app" "EN" = .ok shown ∧
        shown.lookup "greeting" = some "Hello" := by
  refine ⟨respelled_sorted.1, respelled_sorted.2, by simp [respelled], ?_⟩
  rintro ⟨shown, hshown, hgreeting⟩
  have hlast : Prevails respelled "EN" [("farewell", "Bye")] :=
    ⟨respelled.take 2, "en", [], rfl, by decide +kernel, by simp⟩
  have hactual : ((ofConfigured respelled).messages "app" "EN").toOption =
      some [("farewell", "Bye")] := by
    rw [messages_elsewhere (by decide), find?_eq, lookup_ofConfigured.mpr hlast, Option.some_or]
  rw [hshown] at hactual
  obtain rfl := Option.some.inj hactual
  cases hgreeting

structure Coherent (messages : Dict (Dict String)) (c : Catalog) : Prop where
  spelling (origin l l' : String) (h : SpelledAlike l l') :
    (c.messages origin l).toOption = (c.messages origin l').toOption
  language (origin l p : String) (hlanguage : IsLanguage p l)
    (h : ∀ e ∈ messages, ¬ SpelledAlike e.1 l) :
    (c.messages origin l).toOption = (c.messages origin p).toOption
  elsewhere (origin other l : String) (h : origin ≠ builtinOrigin) (h' : other ≠ builtinOrigin) :
    (c.messages origin l).toOption = (c.messages other l).toOption
  /-- The module of the built-in plugins has what the others have, and titles below it. -/
  builtin (origin l : String) (table : Dict String) (h : origin ≠ builtinOrigin)
    (htable : c.messages origin l = .ok table) :
    ∃ full, c.messages builtinOrigin l = .ok full ∧
      (∀ key ∈ Dict.keys table, full.lookup key = table.lookup key) ∧
      ∀ key value, key ∉ Dict.keys table → full.lookup key = some value →
        english.lookup key = some value ∧
          ∃ p, IsLanguage p l ∧ (SpelledAlike l "en" ∨ SpelledAlike p "en")
  /-- A failure names what was asked for. -/
  failure (origin l : String) (f : Fault) (h : c.messages origin l = .error f) :
    f = .localization origin l "no message table"

theorem messages_coherent (htables : ∀ e ∈ messages, Dict.Sorted e.2) :
    Coherent messages (ofConfigured messages) where
  spelling origin l l' halike := by
    refine messages_congr ?_ (find?_congr halike _)
    unfold builtinFor
    rw [find?_congr halike]
  language origin l p hlanguage hnone := by
    obtain rfl := hlanguage.eq
    refine messages_congr ?_ (find?_language (lookup_ofConfigured_eq_none.mpr hnone))
    unfold builtinFor
    rw [builtin_find?_language]
  elsewhere origin other l horigin hother := by
    rw [messages_elsewhere horigin, messages_elsewhere hother]
  builtin origin l table horigin htable := by
    have hfound : (ofConfigured messages).find? l = some table := by
      rw [← messages_elsewhere horigin, htable]
      rfl
    obtain ⟨spelling, hmem⟩ := find?_mem hfound
    obtain ⟨full, hfull, hlookup⟩ :=
      messages_configured hfound (htables _ hmem) builtinOrigin
    refine ⟨full, hfull, fun key hkey => ?_, fun key value hkey hvalue => ?_⟩
    · cases hvalue : table.lookup key with
      | some value => exact (hlookup key value).mpr (Or.inl hvalue)
      | none => exact absurd hkey (Dict.lookup_eq_none.mp hvalue)
    · rw [hlookup, Dict.lookup_eq_none.mpr hkey] at hvalue
      rcases hvalue with hvalue | ⟨-, -, hen, hvalue⟩
      · cases hvalue
      · exact ⟨hvalue, Catalog.language l, isLanguage_language l, hen⟩
  failure _ _ _ := messages_eq_error

theorem respelled_coherent :
    (∀ e ∈ respelled, Dict.Sorted e.2) ∧ Coherent respelled (ofConfigured respelled) :=
  ⟨respelled_sorted.2, messages_coherent respelled_sorted.2⟩

end PluginConsole.Catalog
