import PluginConsole.Proofs.Config.Document

/-!
# Loading what was written

The document of a configuration that was loaded, laid over the defaults and read again, gives the
same configuration: nothing of the defaults comes back in place of what was left out or emptied.
-/

namespace PluginConsole.Config

open Reader Config.Tree

/-! ## Over the defaults -/

namespace Tree

variable {below rest : List (String × Tree)} {k : String} {old v v' : Tree} {l : Layer}

theorem merge_leaf (old : Tree) (l : Layer) (v : Leaf) : merge old (.leaf l v) = .leaf l v := by
  rw [merge]
  rintro _ _ ⟨⟩

theorem merge_list (old : Tree) (l : Layer) (items : List Tree) :
    merge old (.list l items) = .list l items := by
  rw [merge]
  rintro _ _ ⟨⟩

theorem mergeMembers_over (hlookup : below.lookup k = some old) (hmerge : merge old v = v') :
    mergeMembers below ((k, v) :: rest) = mergeMembers (Dict.insert k v' below) rest := by
  rw [mergeMembers, hlookup]
  exact congrArg (fun t => mergeMembers (Dict.insert k t below) rest) hmerge

theorem mergeMembers_nil (below : List (String × Tree)) : mergeMembers below [] = below := by
  rw [mergeMembers]

theorem mergeMembers_append {members : List (String × Tree)} (h : Dict.Sorted (below ++ members)) :
    mergeMembers below members = below ++ members := by
  induction members generalizing below with
  | nil => rw [mergeMembers_nil, List.append_nil]
  | cons e rest ih =>
    obtain ⟨k, v⟩ := e
    have hbelow : ∀ e ∈ below, e.1 < k := fun e he =>
      (List.pairwise_append.mp h).2.2 e he (k, v) List.mem_cons_self
    have hfresh : below.lookup k = none := by
      rw [Dict.lookup_eq_none]
      intro hk
      obtain ⟨e, he, heq⟩ := List.mem_map.mp hk
      exact ne_of_lt (hbelow e he) heq
    rw [List.append_cons] at h ⊢
    rw [mergeMembers, hfresh, Dict.insert_last hbelow, ih h]

end Tree

theorem itemsOfToml_map {α : Type} (l : Layer) (f : α → Toml) (as : List α) :
    itemsOfToml l (as.map f) = as.map fun a => ofToml l (f a) := by
  rw [itemsOfToml_eq, List.map_map]
  rfl

theorem membersOfToml_mapValues {α : Type} (l : Layer) (f : α → Toml) (d : Dict α) :
    membersOfToml l (d.mapValues f) = d.mapValues fun a => ofToml l (f a) := by
  rw [membersOfToml_eq, Dict.mapValues, Dict.mapValues, List.map_map]
  rfl

theorem membersOfToml_append (l : Layer) (members rest : List (String × Toml)) :
    membersOfToml l (members ++ rest) = membersOfToml l members ++ membersOfToml l rest := by
  simp only [membersOfToml_eq, Dict.mapValues, List.map_append]

/-! ## Readers -/

namespace Reader

variable {α β σ : Type} {read : Reader α} {fields : List (Field σ)} {name : String} {a : α}
  {t : Tree} {put : α → σ → σ} {before rest : List (String × Tree)} {s s' : σ}

theorem list_map {f : α → Tree} {as : List α} (h : ∀ a ∈ as, read (f a) = .ok a) (l : Layer) :
    list read (.list l (as.map f)) = .ok as := by
  have hitems (i : Nat) : itemsFrom read i (as.map f) = .ok as := by
    induction as generalizing i with
    | nil => rfl
    | cons a as ih =>
      obtain ⟨ha, has⟩ := List.forall_mem_cons.mp h
      simp only [List.map_cons, itemsFrom, keyed_ok.mpr ha, ih has]
      rfl
  exact hitems 0

theorem dict_mapValues {f : α → Tree} {d : Dict α} (h : ∀ e ∈ d, read (f e.2) = .ok e.2)
    (l : Layer) : dict read (.table l (d.mapValues f)) = .ok d := by
  show members read (d.mapValues f) = .ok d
  induction d with
  | nil => rfl
  | cons e d ih =>
    obtain ⟨he, hd⟩ := List.forall_mem_cons.mp h
    have hrest := ih hd
    unfold Dict.mapValues at hrest ⊢
    simp only [List.map_cons, members, keyed_ok.mpr he, hrest]
    rfl

theorem int32_leaf {n : Int} (h : Decimal.isInt32 n = true) (l : Layer) :
    int32 (.leaf l (.int n true)) = .ok n :=
  if_pos h

theorem byName_field {f : Field σ} (hfind : fields.find? (·.name == name) = some f)
    (hread : f.read t s = .ok s') :
    byName fields ((name, t) :: rest) s = byName fields rest s' := by
  have hfield : keyed name (f.read · s) t = .ok s' := keyed_ok.mpr hread
  rw [byName, hfind]
  show Except.bind _ _ = _
  rw [hfield]
  rfl

theorem byName_required (hfind : fields.find? (·.name == name) = some (required name read put))
    (hread : read t = .ok a) :
    byName fields ((name, t) :: rest) s = byName fields rest (put a s) :=
  byName_field hfind (congrArg (Except.map (put · s)) hread)

theorem byName_defaulted (hfind : fields.find? (·.name == name) = some (defaulted name read put))
    (hread : read t = .ok a) :
    byName fields ((name, t) :: rest) s = byName fields rest (put a s) :=
  byName_field hfind (congrArg (Except.map (put · s)) hread)

theorem byName_optional {read : Reader (Option α)} {put : Option α → σ → σ} {value : Option α}
    {f : α → Toml} {l : Layer}
    (hfind : fields.find? (·.name == name) = some (defaulted name read put))
    (hread : ∀ a ∈ value, read (ofToml l (f a)) = .ok (some a)) (hput : put none s = s) :
    byName fields (membersOfToml l (ServiceSpec.optional name f value) ++ rest) s =
      byName fields rest (put value s) := by
  cases value with
  | none =>
    rw [hput]
    rfl
  | some a => exact byName_defaulted hfind (hread a rfl)

theorem record_table {strict : Bool} {title : String} {l : Layer}
    (hread : byName fields rest s = .ok s')
    (hcomplete : fields.find? (fun f => f.required && !Dict.has f.name rest) = none) :
    record strict title fields s (.table l rest) = .ok s' := by
  unfold record
  simp only [hread, hcomplete]
  rfl

end Reader

/-! ## Sections -/

theorem text_ofToml (l : Layer) (s : String) : text (ofToml l (.text s)) = .ok s :=
  rfl

theorem optional_text (l : Layer) (s : String) :
    optional text (ofToml l (.text s)) = .ok (some s) :=
  rfl

theorem pluginSpec_ofToml (strict : Bool) (l : Layer) (p : PluginSpec) :
    pluginSpec strict (ofToml l p.toToml) = .ok p :=
  rfl

theorem serviceSpec_ofToml (strict : Bool) (l : Layer) {s : ServiceSpec} (h : Ranked s) :
    serviceSpec strict (ofToml l (.table s.inOrder)) = .ok s := by
  have hranking : ∀ n ∈ s.ranking, optional int32 (ofToml l (.int n)) = .ok (some n) :=
    fun n hn => congrArg (Except.map some) (int32_leaf (h n hn) l)
  unfold serviceSpec
  rw [ofToml]
  refine record_table ?_ ?_
  · simp only [ServiceSpec.inOrder, membersOfToml_append, List.append_assoc]
    refine (byName_optional rfl (fun c _ => optional_text l c) rfl).trans ?_
    refine (byName_required rfl (text_ofToml l s.handler)).trans ?_
    refine (byName_required rfl (text_ofToml l s.label)).trans ?_
    refine (byName_defaulted rfl (text_ofToml l s.origin)).trans ?_
    refine (byName_optional rfl (fun p _ => optional_text l p) rfl).trans ?_
    refine (byName_optional rfl hranking rfl).trans ?_
    rw [← List.append_nil (membersOfToml l _)]
    exact (byName_optional rfl (fun t _ => optional_text l t) rfl).trans rfl
  · unfold ServiceSpec.inOrder
    cases s.category <;> rfl

def consoleDefaults : Dict Tree :=
  let text (s : String) : Tree := .leaf .defaults (.text s)
  let c : ConsoleSection := {}
  [
    ("default_category", text c.defaultCategory),
    ("default_label", .leaf .defaults .null),
    ("disabled_plugins", .list .defaults []),
    ("locale", text c.locale),
    ("log_level", text c.logLevel),
    ("plugins", .list .defaults (c.plugins.map fun p =>
      .table .defaults [("factory", text p.factory), ("label", text p.label)]))]

/-- The members of a console section that were merged with the defaults. -/
def overDefaults (l : Layer) (c : ConsoleSection) : Dict Tree := [
  ("default_category", ofToml l (.text c.defaultCategory)),
  ("default_label", (c.defaultLabel.map fun s => ofToml l (.text s)).getD (.leaf .defaults .null)),
  ("disabled_plugins", ofToml l (.list (c.disabledPlugins.map .text))),
  ("locale", ofToml l (.text c.locale)),
  ("log_level", ofToml l (.text c.logLevel)),
  ("plugins", ofToml l (.list (c.plugins.map (·.toToml))))]

theorem consoleSection_overDefaults (strict : Bool) (l l' : Layer) (c : ConsoleSection) :
    consoleSection strict (.table l' (overDefaults l c)) = .ok c := by
  have hlabel : optional text
      ((c.defaultLabel.map fun s => ofToml l (.text s)).getD (.leaf .defaults .null)) =
        .ok c.defaultLabel := by
    cases c.defaultLabel <;> rfl
  have hdisabled : list text (ofToml l (.list (c.disabledPlugins.map .text))) =
      .ok c.disabledPlugins := by
    rw [ofToml, itemsOfToml_map]
    exact list_map (fun s _ => text_ofToml l s) l
  have hplugins : list (pluginSpec strict) (ofToml l (.list (c.plugins.map (·.toToml)))) =
      .ok c.plugins := by
    rw [ofToml, itemsOfToml_map]
    exact list_map (fun p _ => pluginSpec_ofToml strict l p) l
  refine record_table ?_ rfl
  refine (byName_defaulted rfl (text_ofToml l c.defaultCategory)).trans ?_
  refine (byName_defaulted rfl hlabel).trans ?_
  refine (byName_defaulted rfl hdisabled).trans ?_
  refine (byName_defaulted rfl (text_ofToml l c.locale)).trans ?_
  refine (byName_defaulted rfl (text_ofToml l c.logLevel)).trans ?_
  exact (byName_defaulted rfl hplugins).trans rfl

theorem directorySection_ofToml (strict : Bool) (l l' : Layer) {services : List ServiceSpec}
    (h : ∀ s ∈ services, Ranked s) :
    directorySection strict (.table l' [("services",
      ofToml l (.list (services.map fun s => .table s.inOrder)))]) = .ok services := by
  have hservices : list (serviceSpec strict)
      (ofToml l (.list (services.map fun s => .table s.inOrder))) = .ok services := by
    rw [ofToml, itemsOfToml_map]
    exact list_map (fun s hs => serviceSpec_ofToml strict l (h s hs)) l
  exact record_table ((byName_defaulted rfl hservices).trans rfl) rfl

theorem messages_ofToml (l : Layer) (messages : Dict (Dict String)) :
    dict (dict text)
        (ofToml l (.table (messages.mapValues fun table => .table (table.mapValues .text)))) =
      .ok messages := by
  rw [ofToml, membersOfToml_mapValues]
  refine dict_mapValues (fun e _ => ?_) l
  rw [ofToml, membersOfToml_mapValues]
  exact dict_mapValues (fun m _ => text_ofToml l m.2) l

/-! ## The whole configuration -/

theorem merge_items (old : Tree) (l : Layer) (items : List Toml) :
    merge old (ofToml l (.list items)) = ofToml l (.list items) := by
  rw [ofToml, merge_list]

/-- The defaults of the console section give way to all members but a missing default label. -/
theorem mergeMembers_console (c : ConsoleSection) (l : Layer) :
    mergeMembers consoleDefaults (membersOfToml l c.inOrder) = overDefaults l c := by
  have hleaf (old : Tree) (s : String) : merge old (ofToml l (.text s)) = ofToml l (.text s) :=
    merge_leaf old l (.text s)
  unfold ConsoleSection.inOrder overDefaults
  cases c.defaultLabel with
  | none =>
    refine (mergeMembers_over rfl (hleaf _ _)).trans ?_
    refine (mergeMembers_over rfl (merge_items _ l _)).trans ?_
    refine (mergeMembers_over rfl (hleaf _ _)).trans ?_
    refine (mergeMembers_over rfl (hleaf _ _)).trans ?_
    exact (mergeMembers_over rfl (merge_items _ l _)).trans (mergeMembers_nil _)
  | some s =>
    refine (mergeMembers_over rfl (hleaf _ _)).trans ?_
    refine (mergeMembers_over rfl (hleaf _ _)).trans ?_
    refine (mergeMembers_over rfl (merge_items _ l _)).trans ?_
    refine (mergeMembers_over rfl (hleaf _ _)).trans ?_
    refine (mergeMembers_over rfl (hleaf _ _)).trans ?_
    exact (mergeMembers_over rfl (merge_items _ l _)).trans (mergeMembers_nil _)

theorem mergeMembers_directory (services : List Toml) (l : Layer) :
    mergeMembers [("services", .list .defaults [])] [("services", ofToml l (.list services))] =
      [("services", ofToml l (.list services))] := by
  refine (mergeMembers_over rfl (merge_items _ l services)).trans ?_
  exact mergeMembers_nil _

theorem mergeMembers_messages {messages : Dict Toml} (h : Dict.Sorted messages) (l : Layer) :
    mergeMembers [] (membersOfToml l messages) = membersOfToml l messages := by
  have hsorted : Dict.Sorted (membersOfToml l messages) := by
    rw [membersOfToml_eq]
    exact Dict.sorted_mapValues _ h
  exact mergeMembers_append hsorted

def allOverDefaults (l : Layer) (c : Config) : Dict Tree := [
  ("console", .table l (overDefaults l c.console)),
  ("directory", .table l
    [("services", ofToml l (.list (c.services.map fun s => .table s.inOrder)))]),
  ("i18n", ofToml l
    (.table (c.messages.mapValues fun table => .table (table.mapValues .text))))]

theorem merge_defaultTree {c : Config} (h : Sound c) (l : Layer) :
    merge defaultTree (ofToml l (.table c.inOrder)) = .table l (allOverDefaults l c) := by
  have htables {l' : Layer} {below members merged : List (String × Tree)}
      (hmembers : mergeMembers below members = merged) :
      merge (.table l' below) (.table l members) = .table l merged := by
    rw [merge, hmembers]
  have hmessages := mergeMembers_messages (Dict.sorted_mapValues
    (fun table => .table (table.mapValues .text)) h.sorted) l
  refine htables ?_
  refine (mergeMembers_over rfl (htables (mergeMembers_console c.console l))).trans ?_
  refine (mergeMembers_over rfl (htables (mergeMembers_directory _ l))).trans ?_
  refine (mergeMembers_over rfl (htables hmessages)).trans ?_
  exact mergeMembers_nil _

theorem ofTree_overDefaults {c : Config} (h : Sound c) (strict : Bool) (l l' : Layer) :
    ofTree strict (.table l' (allOverDefaults l c)) = .ok c := by
  refine record_table ?_ rfl
  refine (byName_defaulted rfl (consoleSection_overDefaults strict l l c.console)).trans ?_
  refine (byName_defaulted rfl (directorySection_ofToml strict l l h.ranked)).trans ?_
  exact (byName_defaulted rfl (messages_ofToml l c.messages)).trans rfl

/-- What was loaded, from whatever layers, is written in a form that loads to the same. -/
theorem loadText_document {texts : List TomlText} {env : List Variable} {files : List SourceFile}
    {c : Config} (h : load texts env files = .ok c) : loadText c.document = .ok c := by
  obtain ⟨hsound, hviolations⟩ := load_ok h
  have htree : TomlText.tree? ⟨.inline, c.document⟩ = some (ofToml .inline (.table c.inOrder)) := by
    rw [TomlText.tree?, read_document hsound, Option.map_some]
  have hmerged : merged [ofToml .inline (.table c.inOrder), environmentTree []] =
      .table .environment (allOverDefaults .inline c) := by
    have henvironment : environmentTree [] = .table .environment [] := rfl
    rw [merged, List.foldl_cons, merge_defaultTree hsound, List.foldl_cons, henvironment, merge,
      mergeMembers_nil, List.foldl_nil]
  have hloaded : loadText c.document =
      extract [] (merged [ofToml .inline (.table c.inOrder), environmentTree []]) := by
    unfold loadText load
    simp [htree]
  rw [hloaded, hmerged]
  exact extract_ok.mpr ⟨ofTree_overDefaults hsound false .inline .environment, hviolations⟩

/-- A file that empties the list of plugins, with a locale from the environment. -/
def deck : SourceFile :=
  ⟨"deck.toml", "console.plugins = []\n[[directory.services]]\nlabel = \"a\"\n" ++
    "handler = \"echo\"\nranking = -1\n[i18n.de]\n\"%t\" = \"Ä\"\n"⟩

def deckConfig : Config where
  console := { locale := "de", plugins := [] }
  services := [{ label := "a", handler := "echo", ranking := some (-1) }]
  messages := [("de", [("%t", "Ä")])]

theorem deck_document :
    loadFile (some deck) [("WEBDECK_CONSOLE_LOCALE", "de")] = .ok deckConfig ∧
      loadText deckConfig.document = .ok deckConfig := by
  have hfound : (loadFile (some deck) [("WEBDECK_CONSOLE_LOCALE", "de")]).toOption =
      some deckConfig := by
    decide +kernel
  have hload : loadFile (some deck) [("WEBDECK_CONSOLE_LOCALE", "de")] = .ok deckConfig := by
    cases hresult : loadFile (some deck) [("WEBDECK_CONSOLE_LOCALE", "de")] with
    | error e =>
      rw [hresult] at hfound
      cases hfound
    | ok c =>
      rw [hresult] at hfound
      cases hfound
      rfl
  exact ⟨hload, loadText_document hload⟩

end PluginConsole.Config
