import PluginConsole.Config.KeyPosition
import PluginConsole.Proofs.Text

/-!
# The first line that sets a key

The walk remembers how many bytes lie behind it and whether the last header there opens the section.
No line behind it sets the key in the section.
-/

namespace PluginConsole.Config.KeyPosition

open Text

/-! ## Lines -/

/-- The lines of a text, each with the line feed that ends it. -/
inductive Lines : List Char → List (List Char) → Prop where
  | nil : Lines [] []
  | last {line : List Char} : line ≠ [] → '\n' ∉ line → Lines line [line]
  | cons {line rest : List Char} {lines : List (List Char)} : '\n' ∉ line → Lines rest lines →
      Lines (line ++ '\n' :: rest) ((line ++ ['\n']) :: lines)

theorem Lines.flatten {cs : List Char} {lines : List (List Char)} (h : Lines cs lines) :
    lines.flatten = cs := by
  induction h with
  | nil => rfl
  | last => exact List.append_nil _
  | cons _ _ ih => rw [List.flatten_cons, ih, List.append_assoc, List.singleton_append]

theorem lines_splitLines {done : List Char} (hdone : '\n' ∉ done) (cs : List Char) :
    Lines (done.reverse ++ cs) (splitLines done cs) := by
  fun_induction splitLines done cs with
  | case1 done hempty =>
    rw [List.isEmpty_iff.mp hempty]
    exact .nil
  | case2 done hempty =>
    rw [List.append_nil]
    refine .last (fun hnil => hempty ?_) (mt List.mem_reverse.mp hdone)
    rw [List.reverse_eq_nil_iff.mp hnil]
    rfl
  | case3 done rest ih =>
    rw [List.reverse_cons]
    exact .cons (mt List.mem_reverse.mp hdone) (ih List.not_mem_nil)
  | case4 done c rest hother ih =>
    have hc : '\n' ∉ c :: done := fun hmem => by
      rcases List.mem_cons.mp hmem with rfl | hmem
      · exact hother rfl
      · exact hdone hmem
    rw [← List.singleton_append, ← List.append_assoc, ← List.reverse_cons]
    exact ih hc

theorem splitLines_append {line : List Char} (h : '\n' ∉ line) (done rest : List Char) :
    splitLines done (line ++ rest) = splitLines (line.reverse ++ done) rest := by
  induction line generalizing done with
  | nil => rfl
  | cons c line ih =>
    obtain ⟨hc, hline⟩ := not_or.mp (mt List.mem_cons.mpr h)
    rw [List.cons_append, splitLines.eq_def]
    split
    · rename_i heq
      cases heq
    · rename_i heq
      exact absurd (List.cons.inj heq).1.symm hc
    · rename_i heq
      obtain ⟨rfl, rfl⟩ := List.cons.inj heq
      rw [ih hline, List.reverse_cons, List.append_assoc, List.singleton_append]

/-- A text has its lines in one way. -/
theorem Lines.eq {cs : List Char} {lines : List (List Char)} (h : Lines cs lines) :
    lines = splitLines [] cs := by
  induction h with
  | nil => rfl
  | @last line hne hline =>
    have hsplit := splitLines_append hline [] []
    rw [List.append_nil, List.append_nil] at hsplit
    have hlast : splitLines line.reverse [] = [line.reverse.reverse] := by
      simp [splitLines, hne]
    rw [hsplit, hlast, List.reverse_reverse]
  | cons hline _ ih =>
    rw [splitLines_append hline, List.append_nil, ih, splitLines, List.reverse_cons,
      List.reverse_reverse]

/-! ## Headers and sections -/

variable {line name : List Char} {before : List (List Char)} {path : List String}

/-- A line that begins with a bracket, and the name inside the brackets around it. -/
def Titled (line name : List Char) : Prop :=
  ∃ trimmed inner, Stripped isBlank line trimmed ∧ trimmed.head? = some '[' ∧
    Stripped isBracket trimmed inner ∧ Stripped isBlank inner name

def Header (line : List Char) : Prop :=
  ∃ name, Titled line name

def Names (table : String) (name : List Char) : Prop :=
  name = table.toList ∨ table.toList ++ ['.'] <+: name

/-- The last header of some lines names the section that a path begins with. Without a path there
is none. -/
def InSection (path : List String) (before : List (List Char)) : Prop :=
  (∃ earlier header name later, before = earlier ++ header :: later ∧ Titled header name ∧
    (∀ line ∈ later, ¬ Header line) ∧ ∃ table ∈ path.head?, Names table name) ∨
  (path = [] ∧ ∀ line ∈ before, ¬ Header line)

theorem isHeader_iff : isHeader line = true ↔ (trimChars line).head? = some '[' := by
  unfold isHeader
  rw [List.isPrefixOf_iff_prefix]
  cases trimChars line with
  | nil => exact iff_of_false (by simp) (by simp)
  | cons c rest =>
    rw [List.cons_prefix_cons, List.head?_cons, Option.some.injEq, eq_comm]
    exact and_iff_left (List.nil_prefix)

theorem titled_iff :
    Titled line name ↔ isHeader line = true ∧ name = headerName (trimChars line) := by
  rw [isHeader_iff]
  constructor
  · rintro ⟨trimmed, inner, htrimmed, hhead, hinner, hname⟩
    rw [htrimmed.eq_trimChars] at hhead hinner
    rw [hinner.eq] at hname
    exact ⟨hhead, hname.eq_trimChars⟩
  · rintro ⟨hhead, rfl⟩
    exact ⟨_, _, stripped_trimChars line, hhead, stripped_dropWhile isBracket _,
      stripped_trimChars _⟩

theorem header_iff : Header line ↔ isHeader line = true := by
  unfold Header
  simp only [titled_iff, exists_and_left, exists_eq, and_true]

theorem Titled.unique {other : List Char} (h : Titled line name) (h' : Titled line other) :
    name = other :=
  (titled_iff.mp h).2.trans (titled_iff.mp h').2.symm

theorem opens_iff {table : String} : opens table name = true ↔ Names table name := by
  simp [opens, Names]

theorem inSection_nil : InSection path [] ↔ path = [] := by
  simp [InSection]

theorem concat_cases {header : List Char} {earlier later : List (List Char)}
    (h : before ++ [line] = earlier ++ header :: later) :
    (header = line ∧ later = []) ∨
      ∃ init, later = init ++ [line] ∧ before = earlier ++ header :: init := by
  rcases List.eq_nil_or_concat later with rfl | ⟨init, last, rfl⟩
  · obtain ⟨-, heq⟩ := List.append_inj' h rfl
    exact Or.inl ⟨(List.singleton_inj.mp heq).symm, rfl⟩
  · rw [List.concat_eq_append, ← List.cons_append, ← List.append_assoc] at h
    obtain ⟨rfl, heq⟩ := List.append_inj' h rfl
    obtain rfl := List.singleton_inj.mp heq
    exact Or.inr ⟨init, List.concat_eq_append, rfl⟩

/-- A header decides alone about the lines after it. -/
theorem inSection_header (h : Titled line name) :
    InSection path (before ++ [line]) ↔ ∃ table ∈ path.head?, Names table name := by
  constructor
  · rintro (⟨earlier, header, name', later, hsplit, hheader, hlater, hnames⟩ | ⟨-, hnone⟩)
    · rcases concat_cases hsplit with ⟨rfl, -⟩ | ⟨init, rfl, -⟩
      · rwa [h.unique hheader]
      · exact absurd ⟨name, h⟩ (hlater line (by simp))
    · exact absurd ⟨name, h⟩ (hnone line (by simp))
  · exact fun hnames => Or.inl ⟨before, line, name, [], rfl, h, by simp, hnames⟩

theorem inSection_other (h : ¬ Header line) :
    InSection path (before ++ [line]) ↔ InSection path before := by
  constructor
  · rintro (⟨earlier, header, name, later, hsplit, hheader, hlater, hnames⟩ | ⟨hpath, hnone⟩)
    · rcases concat_cases hsplit with ⟨rfl, -⟩ | ⟨init, rfl, rfl⟩
      · exact absurd ⟨name, hheader⟩ h
      · refine Or.inl ⟨earlier, header, name, init, rfl, hheader, ?_, hnames⟩
        exact fun line hline => hlater line (by simp [hline])
    · exact Or.inr ⟨hpath, fun line hline => hnone line (by simp [hline])⟩
  · rintro (⟨earlier, header, name, later, rfl, hheader, hlater, hnames⟩ | ⟨hpath, hnone⟩)
    · refine Or.inl ⟨earlier, header, name, later ++ [line], by simp, hheader, ?_, hnames⟩
      exact List.forall_mem_append.mpr ⟨hlater, List.forall_mem_singleton.mpr h⟩
    · exact Or.inr ⟨hpath, List.forall_mem_append.mpr ⟨hnone, List.forall_mem_singleton.mpr h⟩⟩

theorem InSection.header {table : String} (h : InSection (table :: path) before) :
    ∃ line ∈ before, Header line := by
  rcases h with ⟨earlier, header, name, later, rfl, htitled, -⟩ | ⟨hpath, -⟩
  · exact ⟨header, by simp, name, htitled⟩
  · cases hpath

/-! ## Lines that set a key -/

variable {key : String} {indent : List Char} {lines : List (List Char)}

/-- Blanks, the key, blanks and an equals sign. The key is where the first blanks end. -/
def KeyLine (key : String) (indent line : List Char) : Prop :=
  ∃ gap rest, line = indent ++ (key.toList ++ (gap ++ '=' :: rest)) ∧
    (∀ c ∈ indent, isBlank c) ∧ (∀ c ∈ gap, isBlank c) ∧
    ∀ c ∈ (key.toList ++ (gap ++ '=' :: rest)).head?, ¬ isBlank c

theorem keyLine_iff : KeyLine key indent line ↔
    isKeyLine key (trimStartChars line) = true ∧ indent = line.takeWhile isBlank := by
  unfold isKeyLine trimStartChars
  rw [Bool.and_eq_true, List.isPrefixOf_iff_prefix, List.isPrefixOf_iff_prefix]
  constructor
  · rintro ⟨gap, rest, rfl, hindent, hgap, hhead⟩
    have hsign : ∀ c ∈ ('=' :: rest).head?, ¬ isBlank c := fun c hc => by
      obtain rfl := Option.some.inj hc
      decide
    rw [List.dropWhile_append_of_pos hindent, dropWhile_eq_self hhead,
      List.takeWhile_append_of_pos hindent, takeWhile_eq_nil hhead, List.append_nil,
      ← String.length_toList, List.drop_left, List.dropWhile_append_of_pos hgap,
      dropWhile_eq_self hsign]
    exact ⟨⟨List.prefix_append _ _, ⟨rest, rfl⟩⟩, rfl⟩
  · rintro ⟨⟨⟨body, hbody⟩, ⟨rest, hrest⟩⟩, rfl⟩
    rw [← hbody, ← String.length_toList, List.drop_left] at hrest
    have hline : key.toList ++ (body.takeWhile isBlank ++ '=' :: rest) =
        line.dropWhile isBlank := by
      rw [← List.singleton_append, hrest, List.takeWhile_append_dropWhile, hbody]
    refine ⟨body.takeWhile isBlank, rest, ?_, ?_, ?_, ?_⟩
    · rw [hline, List.takeWhile_append_dropWhile]
    · exact fun c hc => List.mem_takeWhile_imp hc
    · exact fun c hc => List.mem_takeWhile_imp hc
    · rw [hline]
      exact head_dropWhile isBlank line

/-- A line of the section that sets the key, by the lines before it and its indentation. -/
def SetsKey (path : List String) (key : String) (lines before : List (List Char))
    (indent : List Char) : Prop :=
  ∃ line after, lines = before ++ line :: after ∧ InSection path before ∧ ¬ Header line ∧
    KeyLine key indent line

structure SetsFirst (path : List String) (key : String) (lines before : List (List Char))
    (indent : List Char) : Prop where
  sets : SetsKey path key lines before indent
  first (before' : List (List Char)) (indent' : List Char) :
    SetsKey path key lines before' indent' → before.length ≤ before'.length

theorem SetsKey.at {after before' : List (List Char)}
    (h : SetsKey path key (before ++ line :: after) before' indent)
    (hlength : before'.length = before.length) :
    before' = before ∧ InSection path before ∧ ¬ Header line ∧ KeyLine key indent line := by
  obtain ⟨line', after', hsplit, hsection, hheader, hline⟩ := h
  obtain ⟨rfl, hrest⟩ := List.append_inj hsplit hlength.symm
  obtain ⟨rfl, -⟩ := List.cons.inj hrest
  exact ⟨rfl, hsection, hheader, hline⟩

theorem SetsFirst.unique {before' : List (List Char)} {indent' : List Char}
    (h : SetsFirst path key lines before indent) (h' : SetsFirst path key lines before' indent') :
    before = before' ∧ indent = indent' := by
  obtain ⟨line, after, rfl, -, -, hline⟩ := h.sets
  have hlength := Nat.le_antisymm (h'.first _ _ h.sets) (h.first _ _ h'.sets)
  obtain ⟨rfl, -, -, hline'⟩ := h'.sets.at hlength
  exact ⟨rfl, (keyLine_iff.mp hline).2.trans (keyLine_iff.mp hline').2.symm⟩

/-! ## Bytes -/

def bytes (cs : List Char) : Nat :=
  (String.ofList cs).utf8ByteSize

theorem bytes_append (a b : List Char) : bytes (a ++ b) = bytes a + bytes b := by
  rw [bytes, String.ofList_append, String.utf8ByteSize_append]
  rfl

theorem byteSize_eq (cs : List Char) : byteSize cs = bytes cs := by
  have hsum (n : Nat) : cs.foldl (fun n c => n + c.utf8Size) n = n + bytes cs := by
    induction cs generalizing n with
    | nil => rfl
    | cons c cs ih =>
      have hc : bytes [c] = c.utf8Size := String.utf8ByteSize_singleton
      rw [List.foldl_cons, ih, ← List.singleton_append, bytes_append, hc, Nat.add_assoc]
  rw [byteSize, hsum, Nat.zero_add]

theorem bytes_behind {content : String} {before rest : List Char}
    (h : content.toList = before ++ (key.toList ++ rest)) :
    (String.Pos.Raw.mk (bytes before)).IsValid content ∧
      content.toByteArray.extract (bytes before) (bytes before + key.utf8ByteSize) =
        key.toByteArray := by
  have hcontent : content = String.ofList before ++ (key ++ String.ofList rest) := by
    rw [← String.toList_inj, h, String.toList_append, String.toList_append, String.toList_ofList,
      String.toList_ofList]
  rw [hcontent]
  constructor
  · exact String.Pos.Raw.isValid_rawEndPos.append_right _
  · rw [String.toByteArray_append, String.toByteArray_append]
    exact (ByteArray.extract_append_size_add (i := 0)).trans (ByteArray.extract_append_eq_left rfl)

theorem SetsKey.behind {table : String} {before' after : List (List Char)}
    (h : SetsKey (table :: path) key (before ++ line :: after) before' indent)
    (hnone : ∀ l ∈ before, ¬ Header l) :
    bytes (before.flatten ++ line) ≤ bytes (before'.flatten ++ indent) := by
  obtain ⟨line', after', hsplit, hsection, -⟩ := h
  obtain ⟨header, hmem, hheader⟩ := hsection.header
  have hlines : (before ++ [line]) ++ after = before' ++ line' :: after' := by
    rw [← hsplit, List.append_assoc, List.singleton_append]
  have hlonger : before.length < before'.length := by
    by_contra hle
    have hbefore : before' <+: before := by
      refine List.prefix_of_prefix_length_le ⟨_, hsplit.symm⟩ (List.prefix_append _ _) ?_
      omega
    exact hnone header (hbefore.mem hmem) hheader
  obtain ⟨between, rfl⟩ : before ++ [line] <+: before' := by
    refine List.prefix_of_prefix_length_le ⟨_, hlines⟩ (List.prefix_append _ _) ?_
    rw [List.length_append, List.length_singleton]
    omega
  simp only [List.flatten_append, List.flatten_singleton, bytes_append]
  omega

/-! ## The walk -/

def Finds (path : List String) (key : String) (lines : List (List Char)) : Option Nat → Prop
  | some o => ∃ before indent, SetsFirst path key lines before indent ∧
      o = bytes (before.flatten ++ indent)
  | none => ∀ before indent, ¬ SetsKey path key lines before indent

def NoneBehind (path : List String) (key : String) (lines before : List (List Char)) : Prop :=
  ∀ earlier indent, SetsKey path key lines earlier indent → before.length ≤ earlier.length

theorem NoneBehind.step {rest : List (List Char)}
    (h : NoneBehind path key (before ++ line :: rest) before)
    (hline : InSection path before → ¬ Header line → ∀ indent, ¬ KeyLine key indent line) :
    NoneBehind path key (before ++ line :: rest) (before ++ [line]) := by
  intro earlier indent hsets
  have hne : earlier.length ≠ before.length := fun hlength => by
    obtain ⟨-, hsection, hheader, hkey⟩ := hsets.at hlength
    exact hline hsection hheader indent hkey
  have hle := h earlier indent hsets
  rw [List.length_append, List.length_singleton]
  omega

theorem byteSize_sub (line : List Char) :
    byteSize line - byteSize (trimStartChars line) = bytes (line.takeWhile isBlank) := by
  have hline := bytes_append (line.takeWhile isBlank) (line.dropWhile isBlank)
  rw [List.takeWhile_append_dropWhile] at hline
  rw [byteSize_eq, byteSize_eq, trimStartChars, hline, Nat.add_sub_cancel]

/-- The walk finds the first line that sets the key, if it has passed none. -/
theorem finds_scan {inTable : Bool} {rest : List (List Char)}
    (hsection : inTable = true ↔ InSection path before)
    (hnone : NoneBehind path key (before ++ rest) before) :
    Finds path key (before ++ rest) (scan path key inTable (bytes before.flatten) rest) := by
  induction rest generalizing before inTable with
  | nil =>
    rintro earlier indent hsets
    obtain ⟨line, after, hsplit, -⟩ := id hsets
    have hlength := congrArg List.length hsplit
    have hle := hnone earlier indent hsets
    simp only [List.length_append, List.length_cons, List.length_nil] at hlength
    omega
  | cons line rest ih =>
    have hnext : bytes before.flatten + byteSize line = bytes (before ++ [line]).flatten := by
      rw [byteSize_eq, ← bytes_append, List.flatten_append, List.flatten_singleton]
    have hlines : before ++ line :: rest = (before ++ [line]) ++ rest := by simp
    unfold scan
    simp only [hnext]
    split
    · rename_i hheader
      have htitled : Titled line (headerName (trimChars line)) := titled_iff.mpr ⟨hheader, rfl⟩
      have hstep := hnone.step fun _ hother => absurd ⟨_, htitled⟩ hother
      rw [hlines] at hstep ⊢
      refine ih ?_ hstep
      rw [inSection_header htitled]
      cases path with
      | nil => simp
      | cons table tables => simp [opens_iff]
    · rename_i hheader
      replace hheader : ¬ Header line := mt header_iff.mp hheader
      split
      · rename_i hkey
        obtain ⟨hin, hkey⟩ := Bool.and_eq_true_iff.mp hkey
        refine ⟨before, line.takeWhile isBlank, ⟨?_, hnone⟩, ?_⟩
        · exact ⟨line, rest, rfl, hsection.mp hin, hheader, keyLine_iff.mpr ⟨hkey, rfl⟩⟩
        · rw [byteSize_sub, bytes_append]
      · rename_i hkey
        have hstep := hnone.step fun hin _ indent hline => hkey <|
          Bool.and_eq_true_iff.mpr ⟨hsection.mpr hin, (keyLine_iff.mp hline).1⟩
        rw [hlines] at hstep ⊢
        exact ih (hsection.trans (inSection_other hheader).symm) hstep

theorem finds_find {content : String} (h : Lines content.toList lines) (path : List String)
    (key : String) : Finds path key lines (find content path key) := by
  have hstart : path.isEmpty = true ↔ InSection path [] := by
    rw [inSection_nil, List.isEmpty_iff]
  have hnone : NoneBehind path key lines [] := fun _ _ _ => Nat.zero_le _
  rw [find, ← h.eq]
  exact finds_scan hstart hnone

theorem find_eq_some {content : String} (h : Lines content.toList lines) {o : Nat} :
    find content path key = some o ↔ ∃ before indent,
      SetsFirst path key lines before indent ∧ o = bytes (before.flatten ++ indent) := by
  have hfinds := finds_find h path key
  constructor
  · intro ho
    rwa [ho] at hfinds
  · rintro ⟨before, indent, hfirst, rfl⟩
    cases hfound : find content path key with
    | none =>
      rw [hfound] at hfinds
      exact absurd hfirst.sets (hfinds before indent)
    | some o =>
      rw [hfound] at hfinds
      obtain ⟨before', indent', hfirst', rfl⟩ := hfinds
      obtain ⟨rfl, rfl⟩ := hfirst.unique hfirst'
      rfl

theorem find_eq_none {content : String} (h : Lines content.toList lines) :
    find content path key = none ↔ ∀ before indent, ¬ SetsKey path key lines before indent := by
  have hfinds := finds_find h path key
  constructor
  · intro hnone
    rwa [hnone] at hfinds
  · intro hnone
    refine Option.eq_none_iff_forall_ne_some.mpr fun o ho => ?_
    obtain ⟨before, indent, hfirst, -⟩ := (find_eq_some h).mp ho
    exact hnone before indent hfirst.sets

theorem SetsKey.split {cs : List Char} (h : SetsKey path key lines before indent)
    (hlines : Lines cs lines) :
    ∃ rest, cs = (before.flatten ++ indent) ++ (key.toList ++ rest) := by
  obtain ⟨line, after, rfl, -, -, gap, rest, rfl, -⟩ := h
  refine ⟨gap ++ '=' :: rest ++ after.flatten, ?_⟩
  rw [← hlines.flatten]
  simp

/-! ## The theorem -/

/-- What is found is the place of the key in the first line of the section that sets it. -/
structure Locates (content : String) (path : List String) (key : String)
    (lines : List (List Char)) (found : Option Nat) : Prop where
  somewhere (o : Nat) : found = some o ↔ ∃ before indent,
    SetsFirst path key lines before indent ∧ o = bytes (before.flatten ++ indent)
  nowhere : found = none ↔ ∀ before indent, ¬ SetsKey path key lines before indent
  boundary (o : Nat) : found = some o → (String.Pos.Raw.mk o).IsValid content
  spelled (o : Nat) : found = some o →
    content.toByteArray.extract o (o + key.utf8ByteSize) = key.toByteArray

theorem find_locates {content : String} (hlines : Lines content.toList lines) (path : List String)
    (key : String) : Locates content path key lines (find content path key) := by
  have hplace (o : Nat) (ho : find content path key = some o) :
      (String.Pos.Raw.mk o).IsValid content ∧
        content.toByteArray.extract o (o + key.utf8ByteSize) = key.toByteArray := by
    obtain ⟨before, indent, hfirst, rfl⟩ := (find_eq_some hlines).mp ho
    obtain ⟨rest, hsplit⟩ := hfirst.sets.split hlines
    exact bytes_behind hsplit
  exact
    { somewhere := fun o => find_eq_some hlines
      nowhere := find_eq_none hlines
      boundary := fun o ho => (hplace o ho).1
      spelled := fun o ho => (hplace o ho).2 }

def indented : String :=
  "locale = 1\n[directory]\nlocale = 2\n [[ console.é ]]\n\u3000\u2003locale\u00a0= 3"

def indentedLines : List (List Char) :=
  ["locale = 1\n", "[directory]\n", "locale = 2\n", " [[ console.é ]]\n",
    "\u3000\u2003locale\u00a0= 3"].map String.toList

theorem indented_located :
    Lines indented.toList indentedLines ∧
      Locates indented ["console", "é"] "locale" indentedLines (some 58) := by
  have hsplit : splitLines [] indented.toList = indentedLines := by decide +kernel
  have hlines : Lines indented.toList indentedLines :=
    hsplit ▸ lines_splitLines List.not_mem_nil indented.toList
  have hfound : find indented ["console", "é"] "locale" = some 58 := by decide +kernel
  have hlocates := find_locates hlines ["console", "é"] "locale"
  rw [hfound] at hlocates
  exact ⟨hlines, hlocates⟩

end PluginConsole.Config.KeyPosition
