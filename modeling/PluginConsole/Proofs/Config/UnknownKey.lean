import PluginConsole.Config.Load
import PluginConsole.Proofs.Config.KeyPosition

/-!
# Where an unknown key is pointed at

The way to an unknown key ends with the key, and a key is looked for in the section that its way
begins with. So one at the top is looked for in a section of its own name.
-/

namespace PluginConsole.Config

open KeyPosition

/-- The way to an unknown key ends with the key. -/
def Problem.Named (p : Problem) : Prop :=
  ∀ key valid, p.cause = .unknownKey key valid → p.path.getLast? = some key

theorem Problem.Named.under {p : Problem} (h : p.Named) (key : String) : (p.under key).Named := by
  intro unknown valid hcause
  exact List.mem_getLast?_cons (h unknown valid hcause)

namespace Reader

variable {α β σ : Type} {p : Problem} {t : Tree}

theorem bind_error {x : Except Problem α} {f : α → Except Problem β} (h : x.bind f = .error p) :
    x = .error p ∨ ∃ a, x = .ok a ∧ f a = .error p := by
  cases x with
  | error q => exact Or.inl (congrArg Except.error (Except.error.inj h))
  | ok a => exact Or.inr ⟨a, rfl, h⟩

theorem map_error {x : Except Problem α} {f : α → β} : x.map f = .error p ↔ x = .error p := by
  cases x <;> simp [Except.map]

theorem keyed_error {key : String} {read : Reader α} (h : keyed key read t = .error p) :
    ∃ q, read t = .error q ∧ p = q.under key := by
  unfold keyed at h
  cases hread : read t with
  | error q =>
    rw [hread] at h
    exact ⟨q, rfl, (Except.error.inj h).symm⟩
  | ok a =>
    rw [hread] at h
    cases h

/-! ## Every problem names its key -/

def Names (read : Reader α) : Prop :=
  ∀ ⦃t : Tree⦄ ⦃p : Problem⦄, read t = .error p → p.Named

variable {read : Reader α}

theorem named_wrongType {expected : String} (h : wrongType (α := α) t expected = .error p) :
    p.Named := by
  cases h
  exact nofun

theorem names_text : Names text := by
  intro t p h
  unfold text at h
  split at h
  · cases h
  · exact named_wrongType h

theorem names_int32 : Names int32 := by
  intro t p h
  unfold int32 at h
  split at h
  · split at h
    · cases h
    · cases h
      exact nofun
  · exact named_wrongType h

theorem names_optional (h : Names read) : Names (optional read) := by
  intro t p hread
  unfold optional at hread
  split at hread
  · cases hread
  · exact h (map_error.mp hread)

theorem named_keyed (h : Names read) {key : String} (hread : keyed key read t = .error p) :
    p.Named := by
  obtain ⟨q, hq, rfl⟩ := keyed_error hread
  exact (h hq).under key

theorem named_itemsFrom (h : Names read) {i : Nat} {ts : List Tree}
    (hread : itemsFrom read i ts = .error p) : p.Named := by
  induction ts generalizing i with
  | nil => cases hread
  | cons t rest ih =>
    rcases bind_error hread with hfirst | ⟨a, -, hread⟩
    · exact named_keyed h hfirst
    · rcases bind_error hread with hrest | ⟨as, -, hread⟩
      · exact ih hrest
      · cases hread

theorem names_list (h : Names read) : Names (list read) := by
  intro t p hread
  unfold list at hread
  split at hread
  · exact named_itemsFrom h hread
  · exact named_wrongType hread

theorem named_members (h : Names read) {entries : List (String × Tree)}
    (hread : members read entries = .error p) : p.Named := by
  induction entries with
  | nil => cases hread
  | cons e rest ih =>
    rcases bind_error hread with hfirst | ⟨a, -, hread⟩
    · exact named_keyed h hfirst
    · rcases bind_error hread with hrest | ⟨d, -, hread⟩
      · exact ih hrest
      · cases hread

theorem names_dict (h : Names read) : Names (dict read) := by
  intro t p hread
  unfold dict at hread
  split at hread
  · exact named_members h hread
  · exact named_wrongType hread

/-! ## Records -/

def FieldNames (f : Field σ) : Prop :=
  ∀ ⦃t : Tree⦄ ⦃s : σ⦄ ⦃p : Problem⦄, f.read t s = .error p → p.Named

variable {name : String} {put : α → σ → σ} {fields : List (Field σ)} {title : String} {start : σ}
  {strict : Bool}

theorem fieldNames_defaulted (h : Names read) : FieldNames (defaulted name read put) :=
  fun _ _ _ hread => h (map_error.mp hread)

theorem fieldNames_required (h : Names read) : FieldNames (required name read put) :=
  fun _ _ _ hread => h (map_error.mp hread)

/-- What a record complains of: a key that is none of its fields, something in one of its fields,
or something other than a key. -/
inductive Complaint (fields : List (Field σ)) (p : Problem) : Prop where
  | unknown (key : String) : fields.find? (·.name == key) = none →
      p.cause = .unknownKey key (fields.map (·.name)) → p.path = [key] → Complaint fields p
  | inside (f : Field σ) (key : String) (q : Problem) : f ∈ fields →
      (∃ t s, f.read t s = .error q) → p = q.under key → Complaint fields p
  | other : (∀ key valid, p.cause ≠ .unknownKey key valid) → Complaint fields p

theorem complaint_byName {entries : List (String × Tree)} {s : σ}
    (h : byName fields entries s = .error p) : Complaint fields p := by
  induction entries generalizing s with
  | nil => cases h
  | cons e rest ih =>
    unfold byName at h
    split at h
    · rename_i hfind
      cases h
      exact .unknown e.1 hfind rfl rfl
    · rename_i f hfind
      rcases bind_error h with hfield | ⟨s', -, hrest⟩
      · obtain ⟨q, hq, rfl⟩ := keyed_error hfield
        exact .inside f e.1 q (List.mem_of_find?_eq_some hfind) ⟨_, _, hq⟩ rfl
      · exact ih hrest

theorem complaint_byPosition {all : List (Field σ)} {whole : Tree} {tooShort : String} {i : Nat}
    {ts : List Tree} {s : σ} (hall : fields ⊆ all)
    (h : byPosition whole tooShort i fields ts s = .error p) : Complaint all p := by
  induction fields generalizing i ts s with
  | nil => cases h
  | cons f fields ih =>
    obtain ⟨hf, hfields⟩ := List.cons_subset.mp hall
    cases ts with
    | nil =>
      unfold byPosition at h
      split at h
      · cases h
        exact .other nofun
      · exact ih hfields h
    | cons t ts =>
      rcases bind_error h with hfield | ⟨s', -, hrest⟩
      · obtain ⟨q, hq, rfl⟩ := keyed_error hfield
        exact .inside f _ q hf ⟨_, _, hq⟩ rfl
      · exact ih hfields hrest

theorem complaint_record (h : record strict title fields start t = .error p) :
    Complaint fields p := by
  unfold record at h
  split at h
  · rcases bind_error h with hnames | ⟨s, -, h⟩
    · exact complaint_byName hnames
    · split at h
      · cases h
        exact .other nofun
      · cases h
  · rcases bind_error h with hplaces | ⟨⟨s, rest⟩, -, h⟩
    · exact complaint_byPosition (List.Subset.refl _) hplaces
    · dsimp only at h
      split at h
      · cases h
        exact .other nofun
      · cases h
  · cases h
    exact .other nofun

theorem Complaint.named (h : Complaint fields p) (hfields : ∀ f ∈ fields, FieldNames f) :
    p.Named := by
  cases h with
  | unknown key _ hcause hpath =>
    intro unknown valid heq
    rw [hcause] at heq
    cases heq
    rw [hpath]
    rfl
  | inside f key q hf hread hq =>
    obtain ⟨t, s, hread⟩ := hread
    rw [hq]
    exact (hfields f hf hread).under key
  | other hcause => exact fun key valid heq => absurd heq (hcause key valid)

theorem names_record (hfields : ∀ f ∈ fields, FieldNames f) :
    Names (record strict title fields start) :=
  fun _ _ h => (complaint_record h).named hfields

theorem Complaint.top (h : Complaint fields p) (hfields : ∀ f ∈ fields, FieldNames f)
    {key : String} {valid : List String} (hcause : p.cause = .unknownKey key valid)
    (htop : p.path.length = 1) :
    p.path = [key] ∧ valid = fields.map (·.name) ∧ key ∉ fields.map (·.name) := by
  cases h with
  | unknown key' hfind hcause' hpath =>
    rw [hcause'] at hcause
    cases hcause
    refine ⟨hpath, rfl, fun hmem => ?_⟩
    obtain ⟨f, hf, hname⟩ := List.mem_map.mp hmem
    exact List.find?_eq_none.mp hfind f hf (beq_iff_eq.mpr hname)
  | inside f key' q hf hread hq =>
    obtain ⟨t, s, hread⟩ := hread
    subst hq
    -- The way inside the field is empty, but it would have to end with the key.
    have hlast := hfields f hf hread key valid hcause
    rw [List.eq_nil_of_length_eq_zero (Nat.succ.inj htop)] at hlast
    cases hlast
  | other hother => exact absurd hcause (hother key valid)

end Reader

/-! ## The sections of a configuration -/

open Reader

variable {strict : Bool} {p : Problem} {t : Tree} {key : String} {valid : List String}

theorem names_pluginSpec : Names (pluginSpec strict) :=
  names_record <| by
    simp only [List.forall_mem_cons]
    exact ⟨fieldNames_required names_text, fieldNames_required names_text, nofun⟩

theorem names_serviceSpec : Names (serviceSpec strict) := by
  refine names_record ?_
  simp only [List.forall_mem_cons]
  refine ⟨?_, ?_, ?_, ?_, ?_, ?_, ?_, nofun⟩
  · exact fieldNames_required names_text
  · exact fieldNames_required names_text
  · exact fieldNames_defaulted (names_optional names_text)
  · exact fieldNames_defaulted (names_optional names_text)
  · exact fieldNames_defaulted (names_optional names_int32)
  · exact fieldNames_defaulted (names_optional names_text)
  · exact fieldNames_defaulted names_text

theorem names_consoleSection : Names (consoleSection strict) := by
  refine names_record ?_
  simp only [List.forall_mem_cons]
  refine ⟨?_, ?_, ?_, ?_, ?_, ?_, nofun⟩
  · exact fieldNames_defaulted (names_optional names_text)
  · exact fieldNames_defaulted names_text
  · exact fieldNames_defaulted names_text
  · exact fieldNames_defaulted names_text
  · exact fieldNames_defaulted (names_list names_text)
  · exact fieldNames_defaulted (names_list names_pluginSpec)

theorem names_directorySection : Names (directorySection strict) :=
  names_record (List.forall_mem_singleton.mpr (fieldNames_defaulted (names_list names_serviceSpec)))

def sections : List String :=
  ["console", "directory", "i18n"]

/-- An unknown key at the top is all the way to itself, and is no section. -/
theorem ofTree_top (h : ofTree strict t = .error p) (hcause : p.cause = .unknownKey key valid)
    (htop : p.path.length = 1) : p.path = [key] ∧ valid = sections ∧ key ∉ sections := by
  refine (complaint_record h).top ?_ hcause htop
  simp only [List.forall_mem_cons]
  refine ⟨?_, ?_, ?_, nofun⟩
  · exact fieldNames_defaulted names_consoleSection
  · exact fieldNames_defaulted names_directorySection
  · exact fieldNames_defaulted (names_dict (names_dict names_text))

/-! ## Loading a file -/

variable {f : SourceFile} {env : List Variable}

/-- The first problem of a file under an environment, if the file can be read as TOML. -/
def firstProblem (f : SourceFile) (env : List Variable) : Option Problem :=
  f.text.tree?.bind fun t => match ofTree false (merged [t, environmentTree env]) with
    | .error p => some p
    | .ok _ => none

theorem firstProblem_eq_some : firstProblem f env = some p ↔
    ∃ t, f.text.tree? = some t ∧ ofTree false (merged [t, environmentTree env]) = .error p := by
  unfold firstProblem
  rw [Option.bind_eq_some_iff]
  refine exists_congr fun t => and_congr_right fun _ => ?_
  split <;> simp_all

theorem loadFile_firstProblem (h : firstProblem f env = some p) :
    loadFile (some f) env = .error [p.toError [f]] := by
  obtain ⟨t, htree, hread⟩ := firstProblem_eq_some.mp h
  have htrees : [f.text].filterMap (·.tree?) = [t] := by simp [htree]
  have hbad : ([f.text].filter fun text => text.tree?.isNone) = [] := by simp [htree]
  show load [f.text] env [f] = _
  unfold load extract
  rw [hbad, htrees, List.singleton_append, hread]
  rfl

theorem locate_eq_some {s : KeySpan} : locate [f] p key = some s ↔
    p.layer = .file f.path ∧ ∃ o, find f.content p.path key = some o ∧
      s = ⟨o, key.utf8ByteSize, f.path⟩ := by
  unfold locate
  split
  · rename_i path hlayer
    rw [hlayer, List.find?_singleton, Layer.file.injEq]
    by_cases hpath : f.path = path
    · subst hpath
      simp [Option.bind_eq_some_iff, eq_comm (b := s)]
    · simp [hpath, Ne.symm hpath]
  · rename_i hother
    simp only [reduceCtorEq, false_iff, not_and]
    exact fun hlayer => absurd hlayer (hother f.path)

theorem Problem.toError_unknownKey {files : List SourceFile}
    (h : p.cause = .unknownKey key valid) :
    p.toError files = .unknownKey key (suggestKey key valid) valid (locate files p key) := by
  unfold Problem.toError
  rw [h]

/-- An unknown key at the top of a file is told, and pointed at in a section of its own name: in
the first line there that sets it. Whatever is pointed at lies behind the lines before the first
header, and behind the line of that header. -/
theorem loadFile_unknown_key {lines : List (List Char)} (hfirst : firstProblem f env = some p)
    (hcause : p.cause = .unknownKey key valid) (htop : p.path.length = 1)
    (hlines : Lines f.content.toList lines) :
    p.path = [key] ∧ key ∉ sections ∧
      ∃ span, loadFile (some f) env =
          .error [.unknownKey key (suggestKey key sections) sections span] ∧
        (∀ s, span = some s ↔ p.layer = .file f.path ∧ ∃ before indent,
          SetsFirst [key] key lines before indent ∧
            s = ⟨bytes (before.flatten ++ indent), key.utf8ByteSize, f.path⟩) ∧
        ∀ before line after, lines = before ++ line :: after → (∀ l ∈ before, ¬ Header l) →
          ∀ s ∈ span, bytes (before.flatten ++ line) ≤ s.offset := by
  obtain ⟨t, -, hread⟩ := firstProblem_eq_some.mp hfirst
  obtain ⟨hpath, rfl, hkey⟩ := ofTree_top hread hcause htop
  have hspan (s : KeySpan) : locate [f] p key = some s ↔ p.layer = .file f.path ∧
      ∃ before indent, SetsFirst [key] key lines before indent ∧
        s = ⟨bytes (before.flatten ++ indent), key.utf8ByteSize, f.path⟩ := by
    rw [locate_eq_some, hpath]
    simp only [find_eq_some hlines]
    refine and_congr_right fun _ => ?_
    constructor
    · rintro ⟨_, ⟨before, indent, hsets, rfl⟩, rfl⟩
      exact ⟨before, indent, hsets, rfl⟩
    · rintro ⟨before, indent, hsets, rfl⟩
      exact ⟨_, ⟨before, indent, hsets, rfl⟩, rfl⟩
  refine ⟨hpath, hkey, locate [f] p key, ?_, hspan, ?_⟩
  · rw [loadFile_firstProblem hfirst, Problem.toError_unknownKey hcause]
  · rintro before line after rfl hnone s hs
    obtain ⟨-, before', indent, hsets, rfl⟩ := (hspan s).mp hs
    exact hsets.sets.behind hnone

def Problem.outline (p : Problem) : List String × Layer × Option (String × List String) :=
  (p.path, p.layer, match p.cause with
    | .unknownKey key valid => some (key, valid)
    | _ => none)

theorem Problem.of_outline {path : List String} {layer : Layer}
    (h : p.outline = (path, layer, some (key, valid))) :
    p.path = path ∧ p.layer = layer ∧ p.cause = .unknownKey key valid := by
  obtain ⟨_, _, cause⟩ := p
  cases cause <;> simp_all [outline]

/-- The only header is within a text, but it is a line that begins with a bracket. -/
def headerInText : SourceFile :=
  ⟨"deck.toml", "i18n.en.a = \"\"\"\n[x]\n\"\"\"\nx = 1\n"⟩

theorem headerInText_unknown_key :
    ∃ p lines, firstProblem headerInText [] = some p ∧ p.cause = .unknownKey "x" sections ∧
      p.path.length = 1 ∧ Lines headerInText.content.toList lines ∧
      loadFile (some headerInText) [] = .error
        [.unknownKey "x" (suggestKey "x" sections) sections (some ⟨24, 1, "deck.toml"⟩)] := by
  have hlines := lines_splitLines List.not_mem_nil headerInText.content.toList
  have hproblem : (firstProblem headerInText []).map Problem.outline =
      some (["x"], .file "deck.toml", some ("x", sections)) := by decide +kernel
  obtain ⟨p, hfirst, houtline⟩ := Option.map_eq_some_iff.mp hproblem
  obtain ⟨hpath, hlayer, hcause⟩ := Problem.of_outline houtline
  have hfound : find headerInText.content ["x"] "x" = some 24 := by decide +kernel
  obtain ⟨before, indent, hsets, hoffset⟩ := (find_eq_some hlines).mp hfound
  have htop : p.path.length = 1 := congrArg List.length hpath
  obtain ⟨-, -, span, hload, hspan, -⟩ := loadFile_unknown_key hfirst hcause htop hlines
  have hplace : span = some ⟨24, 1, "deck.toml"⟩ :=
    (hspan _).mpr ⟨hlayer, before, indent, hsets, by rw [← hoffset]; rfl⟩
  rw [hplace] at hload
  exact ⟨p, _, hfirst, hcause, htop, hlines, hload⟩

def misspelled : SourceFile :=
  ⟨"deck.toml", "i18x = 1\n"⟩

theorem misspelled_not_pointed_at :
    (∃ p, firstProblem misspelled [] = some p ∧ p.path = ["i18x"] ∧
      p.layer = .file misspelled.path ∧ p.cause = .unknownKey "i18x" sections) ∧
    Lines misspelled.content.toList ["i18x = 1\n".toList] ∧
    KeyLine "i18x" [] "i18x = 1\n".toList ∧ ¬ Header "i18x = 1\n".toList ∧
    (∃ suggestion, loadFile (some misspelled) [] =
      .error [.unknownKey "i18x" suggestion sections none]) ∧
    ¬ ∃ suggestion valid, loadFile (some misspelled) [] =
      .error [.unknownKey "i18x" suggestion valid (some ⟨0, 4, misspelled.path⟩)] := by
  have hproblem : (firstProblem misspelled []).map Problem.outline =
      some (["i18x"], .file "deck.toml", some ("i18x", sections)) := by decide +kernel
  obtain ⟨p, hfirst, houtline⟩ := Option.map_eq_some_iff.mp hproblem
  obtain ⟨hpath, hlayer, hcause⟩ := Problem.of_outline houtline
  have hnowhere : find misspelled.content ["i18x"] "i18x" = none := by decide +kernel
  have hplace : locate [misspelled] p "i18x" = none := by
    refine Option.eq_none_iff_forall_ne_some.mpr fun s hs => ?_
    obtain ⟨-, o, ho, -⟩ := locate_eq_some.mp hs
    rw [hpath, hnowhere] at ho
    cases ho
  have hload : loadFile (some misspelled) [] =
      .error [.unknownKey "i18x" (suggestKey "i18x" sections) sections none] := by
    rw [loadFile_firstProblem hfirst, Problem.toError_unknownKey hcause, hplace]
  refine ⟨⟨p, hfirst, hpath, hlayer, hcause⟩, ?_, ?_, ?_, ⟨_, hload⟩, ?_⟩
  · have hsplit : splitLines [] misspelled.content.toList = ["i18x = 1\n".toList] := by
      decide +kernel
    exact hsplit ▸ lines_splitLines List.not_mem_nil misspelled.content.toList
  · exact keyLine_iff.mpr (by decide +kernel)
  · exact mt header_iff.mp (by decide +kernel)
  · rintro ⟨suggestion, valid, hpointed⟩
    have herror := List.singleton_inj.mp (Except.error.inj (hload.symm.trans hpointed))
    exact Option.some_ne_none _ (ConfigError.unknownKey.inj herror).2.2.2.symm

end PluginConsole.Config
