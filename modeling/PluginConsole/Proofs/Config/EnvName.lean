import PluginConsole.Config.EnvName
import PluginConsole.Proofs.Text

/-!
# Which underscores become dots

The name of a section and the underscore behind it are replaced where they stand first in a name,
not only at its beginning.
-/

namespace PluginConsole.Config.EnvName

open Text

/-! ## The first place of a word -/

variable {word replacement cs rest : List Char}

theorem replaceFirst_append_self (word replacement rest : List Char) (h : word ≠ []) :
    replaceFirst word replacement (word ++ rest) = replacement ++ rest := by
  cases word with
  | nil => exact absurd rfl h
  | cons c word =>
    have hprefix : (c :: word).isPrefixOf (c :: (word ++ rest)) = true :=
      List.isPrefixOf_iff_prefix.mpr (List.prefix_append (c :: word) rest)
    rw [List.cons_append, replaceFirst, if_pos hprefix, ← List.cons_append, List.drop_left]

theorem replaceFirst_of_absent (h : ¬ word <:+: cs) : replaceFirst word replacement cs = cs := by
  induction cs with
  | nil => rfl
  | cons c cs ih =>
    have hprefix : word.isPrefixOf (c :: cs) = false :=
      Bool.eq_false_iff.mpr fun hp => h (List.isPrefixOf_iff_prefix.mp hp).isInfix
    rw [replaceFirst, hprefix, if_neg Bool.false_ne_true]
    exact congrArg (c :: ·) (ih fun hinfix => h (List.infix_cons hinfix))

theorem subset_replaceFirst (hword : word ≠ []) (h : word <:+: cs) :
    replacement ⊆ replaceFirst word replacement cs := by
  induction cs with
  | nil => exact absurd (List.infix_nil.mp h) hword
  | cons c cs ih =>
    rw [replaceFirst]
    split
    · exact List.subset_append_left _ _
    · rename_i hprefix
      rw [List.isPrefixOf_iff_prefix] at hprefix
      have hlater := (List.infix_cons_iff.mp h).resolve_left hprefix
      exact List.subset_cons_of_subset c (ih hlater)

/-! ## Paths -/

theorem splitDots_of_not_mem {done : List Char} (h : '.' ∉ cs) :
    splitDots done cs = [String.ofList (done.reverse ++ cs)] := by
  induction cs generalizing done with
  | nil => rw [splitDots, List.append_nil]
  | cons c cs ih =>
    obtain ⟨hc, hcs⟩ := not_or.mp (mt List.mem_cons.mpr h)
    rw [splitDots, if_neg (Ne.symm hc), ih hcs, List.reverse_cons, List.append_assoc,
      List.singleton_append]

theorem splitDots_append {done part : List Char} (h : '.' ∉ part) :
    splitDots done (part ++ '.' :: rest) =
      String.ofList (done.reverse ++ part) :: splitDots [] rest := by
  induction part generalizing done with
  | nil => rw [List.nil_append, splitDots, if_pos rfl, List.append_nil]
  | cons c part ih =>
    obtain ⟨hc, hpart⟩ := not_or.mp (mt List.mem_cons.mpr h)
    rw [List.cons_append, splitDots, if_neg (Ne.symm hc), ih hpart, List.reverse_cons,
      List.append_assoc, List.singleton_append]

theorem splitDots_ne_nil (done cs : List Char) : splitDots done cs ≠ [] := by
  fun_induction splitDots done cs <;> simp_all

theorem not_mem_of_splitDots {s : String} (h : splitDots [] cs = [s]) : '.' ∉ cs := by
  intro hdot
  obtain ⟨part, rest, rfl, hpart⟩ := List.eq_append_cons_of_mem hdot
  rw [splitDots_append hpart] at h
  exact splitDots_ne_nil _ _ (List.cons.inj h).2

/-! ## Words apart -/

/-- No end of the part is, or can go on to be, the word. -/
def Foreign (word part : List Char) : Prop :=
  ∀ t ∈ part.tails, t ≠ [] → ¬ t <+: word ∧ ¬ word <+: t

instance (word part : List Char) : Decidable (Foreign word part) :=
  inferInstanceAs (Decidable (∀ t ∈ part.tails, _))

theorem Foreign.not_begins {c : Char} {part : List Char} (h : Foreign word (c :: part))
    (rest : List Char) : ¬ word <+: c :: (part ++ rest) := by
  intro hprefix
  obtain ⟨hbefore, hafter⟩ := h (c :: part) (by simp) (List.cons_ne_nil _ _)
  rcases List.prefix_or_prefix_of_prefix hprefix (List.prefix_append (c :: part) rest) with hp | hp
  · exact hafter hp
  · exact hbefore hp

theorem Foreign.tail {c : Char} {part : List Char} (h : Foreign word (c :: part)) :
    Foreign word part :=
  fun t ht => h t (by simp [ht])

theorem Foreign.infix_append {part : List Char} (h : Foreign word part) (rest : List Char) :
    word <:+: part ++ rest ↔ word <:+: rest := by
  induction part with
  | nil => exact Iff.rfl
  | cons c part ih =>
    rw [List.cons_append, List.infix_cons_iff, ih h.tail]
    exact or_iff_right (h.not_begins rest)

theorem Foreign.replaceFirst_append {part : List Char} (h : Foreign word part)
    (rest : List Char) : replaceFirst word replacement (part ++ rest) =
      part ++ replaceFirst word replacement rest := by
  induction part with
  | nil => rfl
  | cons c part ih =>
    have hprefix : word.isPrefixOf (c :: (part ++ rest)) = false :=
      Bool.eq_false_iff.mpr fun hp => h.not_begins rest (List.isPrefixOf_iff_prefix.mp hp)
    rw [List.cons_append, replaceFirst, hprefix, if_neg Bool.false_ne_true, ih h.tail]
    rfl

/-! ## Sections in names -/

inductive Section where
  | console
  | directory
  deriving DecidableEq

namespace Section

def name : Section → String
  | console => "console"
  | directory => "directory"

def other : Section → Section
  | console => directory
  | directory => console

/-- How the names of variables for the section begin. -/
def start (s : Section) : List Char :=
  s.name.toList ++ ['_']

def dotted (s : Section) : List Char :=
  s.name.toList ++ ['.']

theorem eq_or_other (s s' : Section) : s' = s ∨ s' = s.other := by
  cases s <;> cases s' <;> decide

theorem start_apart (s : Section) : ¬ s.start <+: s.other.start ∧ ¬ s.other.start <+: s.start := by
  cases s <;> decide

end Section

def lower (cs : List Char) : List Char :=
  cs.map Char.toLower

variable {s : Section} {key : List Char} {name : String}

/-- In any letter case, the section's beginning and a key. -/
def Sectioned (s : Section) (rest key : List Char) : Prop :=
  ∃ start, rest = start ++ key ∧ List.Forall₂ SameLetter start s.start

/-- In any letter case, a section is spelled out only where the rest begins. -/
def SpeltOnce (rest : List Char) : Prop :=
  ∀ s : Section, s.start <:+: lower rest → s.start <+: lower rest

theorem lower_start (s : Section) : lower s.start = s.start := by
  cases s <;> decide

theorem Sectioned.lower_eq (h : Sectioned s rest key) : lower rest = s.start ++ lower key := by
  obtain ⟨start, rfl, hstart⟩ := h
  have hlower : lower start = s.start := (map_toLower_eq_iff.mpr hstart).trans (lower_start s)
  rw [← hlower]
  exact List.map_append

theorem exists_sectioned (h : s.start <+: lower rest) : ∃ key, Sectioned s rest key := by
  obtain ⟨tail, htail⟩ := h
  obtain ⟨start, key, rfl, hstart, -⟩ := List.map_eq_append_iff.mp htail.symm
  exact ⟨key, start, rfl, map_toLower_eq_iff.mp (hstart.trans (lower_start s).symm)⟩

theorem dottedKey_eq (rest : List Char) : dottedKey rest =
    replaceFirst Section.directory.start Section.directory.dotted
      (replaceFirst Section.console.start Section.console.dotted (lower rest)) := by
  have hdirectory : "directory_".toList = Section.directory.start := by decide
  have hconsole : "console_".toList = Section.console.start := by decide
  have hdirectory' : "directory.".toList = Section.directory.dotted := by decide
  have hconsole' : "console.".toList = Section.console.dotted := by decide
  rw [dottedKey, hdirectory, hconsole, hdirectory', hconsole']
  rfl

theorem Sectioned.dottedKey_eq (h : Sectioned s rest key) : dottedKey rest =
    s.dotted ++ replaceFirst s.other.start s.other.dotted (lower key) := by
  rw [EnvName.dottedKey_eq, h.lower_eq]
  cases s with
  | console =>
    have hforeign : Foreign Section.directory.start Section.console.dotted := by decide
    rw [replaceFirst_append_self _ _ _ (by decide), hforeign.replaceFirst_append]
    rfl
  | directory =>
    have hforeign : Foreign Section.console.start Section.directory.start := by decide
    rw [hforeign.replaceFirst_append, replaceFirst_append_self _ _ _ (by decide)]
    rfl

theorem Sectioned.speltOnce_iff (h : Sectioned s rest key) :
    SpeltOnce rest ↔ ¬ s.other.start <:+: lower key := by
  have hforeign : Foreign s.other.start s.start := by cases s <;> decide
  have hown : s.start <+: lower rest := by
    rw [h.lower_eq]
    exact List.prefix_append _ _
  have hother : ¬ s.other.start <+: lower rest := fun hprefix =>
    (List.prefix_or_prefix_of_prefix hown hprefix).elim s.start_apart.1 s.start_apart.2
  rw [← hforeign.infix_append, ← h.lower_eq]
  constructor
  · exact fun honce hinfix => hother (honce s.other hinfix)
  · intro hclear s' hinfix
    rcases s.eq_or_other s' with rfl | rfl
    · exact hown
    · exact absurd hinfix hclear

/-- Each section leaves a dot behind where it is replaced. -/
theorem dot_mem_replaceFirst (s : Section) (h : s.start <:+: cs) :
    '.' ∈ replaceFirst s.start s.dotted cs :=
  subset_replaceFirst (by cases s <;> decide) h (by cases s <;> decide)

theorem dottedKey_of_clear (h : ∀ s : Section, ¬ s.start <:+: lower rest) :
    dottedKey rest = lower rest := by
  rw [dottedKey_eq, replaceFirst_of_absent (h .console),
    replaceFirst_of_absent (h .directory)]

theorem dot_mem_dottedKey (h : s.start <:+: lower rest) : '.' ∈ dottedKey rest := by
  rw [dottedKey_eq]
  by_cases hconsole : Section.console.start <:+: lower rest
  · have hdot := dot_mem_replaceFirst .console hconsole
    by_cases hdirectory : Section.directory.start <:+:
        replaceFirst Section.console.start Section.console.dotted (lower rest)
    · exact dot_mem_replaceFirst .directory hdirectory
    · rwa [replaceFirst_of_absent hdirectory]
  · rw [replaceFirst_of_absent hconsole]
    cases s with
    | console => exact absurd h hconsole
    | directory => exact dot_mem_replaceFirst .directory h

/-! ## Whole names -/

theorem dot_mem_lower : '.' ∈ lower cs ↔ '.' ∈ cs := by
  unfold lower
  rw [List.mem_map]
  have hdot (c : Char) : c.toLower = '.' ↔ c = '.' := toLower_eq_iff_of_not_isAlpha rfl
  simp only [hdot, exists_eq_right]

/-- What is left of a name without the blanks around it and its beginning. -/
def Leaves (name : String) (rest : List Char) : Prop :=
  ∃ beginning, Stripped isBlank name.toList (beginning ++ rest) ∧
    List.Forall₂ SameLetter beginning start.toList

theorem Leaves.last (h : Leaves name rest) : ∀ c ∈ rest.getLast?, ¬ isBlank c := by
  obtain ⟨beginning, hstripped, -⟩ := h
  intro c hc
  refine hstripped.last c ?_
  rw [List.getLast?_append, hc]
  rfl

theorem Leaves.path?_eq (h : Leaves name rest) : path? name =
    if (splitDots [] (trimChars (dottedKey rest))).any (· == "") then none
    else some (splitDots [] (trimChars (dottedKey rest))) := by
  obtain ⟨beginning, hstripped, hbeginning⟩ := h
  have hlower : beginning.map Char.toLower = start.toList :=
    (map_toLower_eq_iff.mpr hbeginning).trans (by decide)
  have hlength : start.length = beginning.length := by
    rw [← String.length_toList, ← hbeginning.length_eq]
  have hprefix : start.toList.isPrefixOf ((beginning ++ rest).map Char.toLower) = true := by
    rw [List.isPrefixOf_iff_prefix, List.map_append, hlower]
    exact List.prefix_append _ _
  unfold path?
  rw [← hstripped.eq_trimChars]
  dsimp only
  rw [if_pos hprefix, hlength, List.drop_left]

theorem dot_notMem_name (s : Section) : '.' ∉ s.name.toList := by
  cases s <;> decide

theorem splitDots_dotted (s : Section) (cs : List Char) :
    splitDots [] (s.dotted ++ cs) = s.name :: splitDots [] cs := by
  rw [Section.dotted, List.append_assoc, List.singleton_append,
    splitDots_append (dot_notMem_name s), List.reverse_nil, List.nil_append, String.ofList_toList]

theorem solid_map_toLower {found : Option Char} (h : ∀ c ∈ found, ¬ isBlank c) :
    ∀ c ∈ found.map Char.toLower, ¬ isBlank c := by
  intro c hc
  obtain ⟨d, hd, rfl⟩ := Option.map_eq_some_iff.mp hc
  rw [isBlank_toLower]
  exact h d hd

theorem last_lower (h : ∀ c ∈ cs.getLast?, ¬ isBlank c) :
    ∀ c ∈ (lower cs).getLast?, ¬ isBlank c := by
  rw [lower, List.getLast?_map]
  exact solid_map_toLower h

theorem Sectioned.trimChars_eq (h : Sectioned s rest key) (hkey : key ≠ [])
    (hname : Leaves name rest) :
    trimChars (s.dotted ++ lower key) = s.dotted ++ lower key := by
  have hlower : lower key ≠ [] := fun hnil => hkey (List.map_eq_nil_iff.mp hnil)
  have hlast : ∀ c ∈ key.getLast?, ¬ isBlank c := by
    obtain ⟨beginning, hrest, -⟩ := h
    have hlast := hname.last
    rwa [hrest, List.getLast?_append_of_ne_nil _ hkey] at hlast
  have hdotted : s.dotted ≠ [] := by cases s <;> decide
  have hhead : s.dotted.head?.all (!isBlank ·) = true := by cases s <;> decide
  refine (Stripped.eq_trimChars ⟨⟨[], [], by simp⟩, ?_, ?_⟩).symm
  · rw [List.head?_append_of_ne_nil _ hdotted]
    intro c hc
    simpa using (Option.all_eq_true _ _).mp hhead c hc
  · rw [List.getLast?_append_of_ne_nil _ hlower]
    exact last_lower hlast

theorem trimChars_lower (hlast : ∀ c ∈ rest.getLast?, ¬ isBlank c) :
    trimChars (lower rest) = lower (trimStartChars rest) := by
  have hsplit := List.takeWhile_append_dropWhile (p := isBlank) (l := rest)
  refine (Stripped.eq_trimChars ⟨⟨lower (rest.takeWhile isBlank), [], ?_, ?_, nofun⟩, ?_, ?_⟩).symm
  · rw [List.append_nil, lower, lower, lower, trimStartChars, ← List.map_append, hsplit]
  · refine List.forall_mem_map.mpr fun c hc => ?_
    rw [isBlank_toLower]
    exact List.mem_takeWhile_imp hc
  · rw [lower, List.head?_map]
    exact solid_map_toLower (head_dropWhile isBlank rest)
  · refine last_lower fun c hc => hlast c ?_
    rw [← hsplit, List.getLast?_append, show (rest.dropWhile isBlank).getLast? = some c from hc]
    rfl

/-! ## The law -/

/-- The law for names: an underscore becomes a dot behind the section that a name begins with, and
nowhere else. -/
structure KeepsUnderscores (rest : List Char) : Prop where
  sectioned (s : Section) (key : List Char) : Sectioned s rest key → key ≠ [] →
    splitDots [] (dottedKey rest) = [s.name, String.ofList (lower key)] ∧
      ∀ name, Leaves name rest → path? name = some [s.name, String.ofList (lower key)]
  unsectioned : (∀ s key, ¬ Sectioned s rest key) →
    dottedKey rest = lower rest ∧ '.' ∉ dottedKey rest ∧
      ∀ name, Leaves name rest → rest ≠ [] →
        path? name = some [String.ofList (lower (trimStartChars rest))]

theorem ofList_ne_empty (h : cs ≠ []) : String.ofList cs ≠ "" := fun heq => h <| by
  rw [← String.toList_ofList (l := cs), heq]
  rfl

theorem Sectioned.keeps (h : Sectioned s rest key) (hkey : key ≠ []) (hdots : '.' ∉ rest)
    (honce : SpeltOnce rest) :
    splitDots [] (dottedKey rest) = [s.name, String.ofList (lower key)] ∧
      ∀ name, Leaves name rest → path? name = some [s.name, String.ofList (lower key)] := by
  have hlower : lower key ≠ [] := fun hnil => hkey (List.map_eq_nil_iff.mp hnil)
  have hdots' : '.' ∉ lower key := fun hdot => by
    obtain ⟨beginning, rfl, -⟩ := h
    exact hdots (List.mem_append_right _ (dot_mem_lower.mp hdot))
  have hdotted : dottedKey rest = s.dotted ++ lower key := by
    rw [h.dottedKey_eq, replaceFirst_of_absent (h.speltOnce_iff.mp honce)]
  have hpath : splitDots [] (s.dotted ++ lower key) = [s.name, String.ofList (lower key)] := by
    rw [splitDots_dotted, splitDots_of_not_mem hdots', List.reverse_nil, List.nil_append]
  refine ⟨hdotted ▸ hpath, fun name hname => ?_⟩
  have hparts : [s.name, String.ofList (lower key)].any (· == "") = false := by
    have hs : s.name ≠ "" := by cases s <;> decide
    simp [hs, ofList_ne_empty hlower]
  rw [hname.path?_eq, hdotted, h.trimChars_eq hkey hname, hpath, hparts]
  rfl

theorem path?_of_clear (hclear : ∀ s : Section, ¬ s.start <:+: lower rest) (hdots : '.' ∉ rest)
    (hrest : rest ≠ []) (hname : Leaves name rest) :
    path? name = some [String.ofList (lower (trimStartChars rest))] := by
  have hsolid : lower (trimStartChars rest) ≠ [] := fun hnil => by
    have hblank := List.dropWhile_eq_nil_iff.mp (List.map_eq_nil_iff.mp hnil)
    have hlast := List.getLast?_eq_getLast_of_ne_nil hrest
    exact hname.last _ hlast (hblank _ (List.getLast_mem hrest))
  have hdots' : '.' ∉ lower (trimStartChars rest) := fun hdot =>
    hdots ((List.dropWhile_sublist isBlank).mem (dot_mem_lower.mp hdot))
  rw [hname.path?_eq, dottedKey_of_clear hclear, trimChars_lower hname.last,
    splitDots_of_not_mem hdots']
  simp [ofList_ne_empty hsolid]

/-- Names follow the law just if no section is spelled out in them but the one they begin with. -/
theorem keepsUnderscores_iff (hdots : '.' ∉ rest) : KeepsUnderscores rest ↔ SpeltOnce rest := by
  constructor
  · intro hlaw
    by_cases hsectioned : ∃ s key, Sectioned s rest key
    · obtain ⟨s, key, h⟩ := hsectioned
      refine h.speltOnce_iff.mpr fun hinfix => ?_
      have hkey : key ≠ [] := fun hnil => by
        rw [hnil] at hinfix
        exact absurd (List.infix_nil.mp hinfix) (by cases s <;> decide)
      have hpath := (hlaw.sectioned s key h hkey).1
      rw [h.dottedKey_eq, splitDots_dotted] at hpath
      exact not_mem_of_splitDots (List.cons.inj hpath).2 (dot_mem_replaceFirst s.other hinfix)
    · have hnone : ∀ s key, ¬ Sectioned s rest key := fun s key h => hsectioned ⟨s, key, h⟩
      exact fun s hinfix => absurd (dot_mem_dottedKey hinfix) (hlaw.unsectioned hnone).2.1
  · intro honce
    refine ⟨fun s key h hkey => h.keeps hkey hdots honce, fun hnone => ?_⟩
    have hclear (s : Section) : ¬ s.start <:+: lower rest := fun hinfix => by
      obtain ⟨key, h⟩ := exists_sectioned (honce s hinfix)
      exact hnone s key h
    rw [dottedKey_of_clear hclear]
    exact ⟨rfl, mt dot_mem_lower.mp hdots, fun name hname hrest =>
      path?_of_clear hclear hdots hrest hname⟩

theorem twice_console_keeps :
    '.' ∉ "Console_Console_Log".toList ∧ KeepsUnderscores "Console_Console_Log".toList ∧
      path? "\tWebdeck_Console_Console_Log " = some ["console", "console_log"] := by
  have hdots : '.' ∉ "Console_Console_Log".toList := by decide +kernel
  have hsectioned : Sectioned .console "Console_Console_Log".toList "Console_Log".toList :=
    ⟨"Console_".toList, by decide +kernel, by decide +kernel⟩
  have honce : SpeltOnce "Console_Console_Log".toList :=
    hsectioned.speltOnce_iff.mpr (by decide +kernel)
  have hlaw := (keepsUnderscores_iff hdots).mpr honce
  have htrim : trimChars "\tWebdeck_Console_Console_Log ".toList =
      "Webdeck_".toList ++ "Console_Console_Log".toList := by decide +kernel
  have hname : Leaves "\tWebdeck_Console_Console_Log " "Console_Console_Log".toList :=
    ⟨"Webdeck_".toList, htrim ▸ stripped_trimChars _, by decide +kernel⟩
  refine ⟨hdots, hlaw, ?_⟩
  rw [(hlaw.sectioned _ _ hsectioned (by decide +kernel)).2 _ hname]
  decide +kernel

/-- The key of the console loses an underscore, and a key of no section becomes one of a section
of its own. -/
theorem spelled_out_not_kept :
    ('.' ∉ "CONSOLE_DIRECTORY_FOO".toList ∧
      Sectioned .console "CONSOLE_DIRECTORY_FOO".toList "DIRECTORY_FOO".toList ∧
      path? "WEBDECK_CONSOLE_DIRECTORY_FOO" = some ["console", "directory", "foo"] ∧
      ¬ KeepsUnderscores "CONSOLE_DIRECTORY_FOO".toList) ∧
    ('.' ∉ "MY_CONSOLE_X".toList ∧ (∀ s key, ¬ Sectioned s "MY_CONSOLE_X".toList key) ∧
      path? "WEBDECK_MY_CONSOLE_X" = some ["my_console", "x"] ∧
      ¬ KeepsUnderscores "MY_CONSOLE_X".toList) := by
  have hconsole : Sectioned .console "CONSOLE_DIRECTORY_FOO".toList "DIRECTORY_FOO".toList :=
    ⟨"CONSOLE_".toList, by decide +kernel, by decide +kernel⟩
  have hnone : ∀ s key, ¬ Sectioned s "MY_CONSOLE_X".toList key := fun s key h => by
    have hprefix : s.start <+: lower "MY_CONSOLE_X".toList := h.lower_eq ▸ List.prefix_append _ _
    exact absurd hprefix (by cases s <;> decide +kernel)
  refine ⟨⟨by decide +kernel, hconsole, by decide +kernel, fun hlaw => ?_⟩,
    by decide +kernel, hnone, by decide +kernel, fun hlaw => ?_⟩
  · exact absurd (hlaw.sectioned _ _ hconsole (by decide +kernel)).1 (by decide +kernel)
  · exact absurd (hlaw.unsectioned hnone).1 (by decide +kernel)

end PluginConsole.Config.EnvName
