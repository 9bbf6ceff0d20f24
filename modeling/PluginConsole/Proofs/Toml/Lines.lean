import PluginConsole.Proofs.Toml.Value

/-!
# Lines of a document

A definition, a header and a blank line are read as they were written, and a text of several lines
is read line by line.
-/

namespace PluginConsole.Toml

open Grammar

variable {rest : List Char} {fuel : Nat}

/-! ## Keys and their paths -/

def KeyHead (c : Char) : Prop :=
  c = '"' ∨ c = '\'' ∨ isBare c = true

theorem KeyHead.ne {c mark : Char} (h : KeyHead c)
    (hmark : mark ≠ '"' ∧ mark ≠ '\'' ∧ isBare mark = false) : c ≠ mark := by
  rintro rfl
  rcases h with h | h | h
  · exact hmark.1 h
  · exact hmark.2.1 h
  · exact Bool.false_ne_true (hmark.2.2.symm.trans h)

theorem KeyHead.gap {c : Char} (h : KeyHead c) : isGap c = false := by
  have hblank : c ≠ ' ' := h.ne (by decide)
  have htab : c ≠ '\t' := h.ne (by decide)
  simp [isGap, hblank, htab]

theorem KeyHead.skipGap {c : Char} (h : KeyHead c) (tail : List Char) :
    skipGap (c :: tail) = c :: tail := by
  rw [Grammar.skipGap, List.dropWhile_cons_of_neg (by simp [h.gap])]

theorem keyForm_head (key : String) (rest : List Char) :
    ∃ c tail, (keyForm key).toList ++ rest = c :: tail ∧ KeyHead c := by
  unfold keyForm
  dsimp only
  split
  · rename_i h
    rw [Bool.and_eq_true, decide_eq_true_eq] at h
    cases hkey : key.toList with
    | nil => exact absurd (String.toList_eq_nil_iff.mp hkey) h.1
    | cons c cs =>
      rw [hkey, List.all_cons, Bool.and_eq_true] at h
      exact ⟨c, cs ++ rest, rfl, Or.inr (Or.inr h.2.1)⟩
  split
  · exact ⟨'"', _, toList_basicQuoted key rest, Or.inl rfl⟩
  split
  · exact ⟨'\'', _, toList_literalQuoted key rest, Or.inr (Or.inl rfl)⟩
  · exact ⟨'"', _, toList_basicQuoted key rest, Or.inl rfl⟩

theorem skipGap_keyForm (key : String) (rest : List Char) :
    skipGap ((keyForm key).toList ++ rest) = (keyForm key).toList ++ rest := by
  obtain ⟨c, tail, hform, hc⟩ := keyForm_head key rest
  rw [hform, hc.skipGap]

theorem pathForm_singleton (key : String) : pathForm [key] = keyForm key := rfl

theorem pathForm_cons (key next : String) (path : List String) :
    pathForm (key :: next :: path) = keyForm key ++ "." ++ pathForm (next :: path) := rfl

theorem pathForm_head {path : List String} (hne : path ≠ []) (rest : List Char) :
    ∃ c tail, (pathForm path).toList ++ rest = c :: tail ∧ KeyHead c := by
  match path, hne with
  | [key], _ => exact keyForm_head key rest
  | key :: next :: path, _ =>
    rw [pathForm_cons, String.toList_append, String.toList_append, List.append_assoc,
      List.append_assoc]
    exact keyForm_head key _

theorem dottedKey_pathForm {path : List String} (hne : path ≠ []) (hfuel : path.length ≤ fuel)
    (hbare : ∀ c, rest.head? = some c → isBare c = false) (hdot : (skipGap rest).head? ≠ some '.') :
    dottedKey fuel ((pathForm path).toList ++ rest) = some (path, skipGap rest) := by
  induction path generalizing fuel with
  | nil => exact absurd rfl hne
  | cons k path ih =>
    obtain ⟨fuel, rfl⟩ := Nat.exists_eq_add_one_of_ne_zero (Nat.ne_of_gt (Nat.zero_lt_of_lt hfuel))
    cases path with
    | nil =>
      show dottedKey (fuel + 1) ((keyForm k).toList ++ rest) = _
      rw [dottedKey, skipGap_keyForm, simpleKey_keyForm k hbare]
      simp only [Option.bind_eq_bind, Option.bind_some]
      split
      · rename_i h
        rw [h] at hdot
        exact absurd rfl hdot
      · rfl
    | cons next path =>
      have hform : (pathForm (k :: next :: path)).toList ++ rest =
          (keyForm k).toList ++ '.' :: ((pathForm (next :: path)).toList ++ rest) := by
        simp [pathForm_cons]
      have hstop : ∀ c, ('.' :: ((pathForm (next :: path)).toList ++ rest)).head? = some c →
          isBare c = false := by
        rintro c hc
        obtain rfl := Option.some.inj hc
        rfl
      rw [hform, dottedKey, skipGap_keyForm, simpleKey_keyForm k hstop]
      show (dottedKey fuel ((pathForm (next :: path)).toList ++ rest)).bind _ = _
      rw [ih (List.cons_ne_nil _ _) (Nat.le_of_succ_le_succ hfuel)]
      rfl

/-! ## Lines -/

theorem endOfLine_newline (rest : List Char) : endOfLine ('\n' :: rest) = some rest := rfl

def definitionLine (key : String) (v : Toml) : String :=
  keyForm key ++ " = " ++ valueForm v ++ "\n"

theorem line_definition {key : String} {v : Toml} {d d' : Document} (h : Simple v)
    (hdefine : d.define [] key v = some d') (rest : List Char) :
    line ((definitionLine key v).toList ++ rest) d = some (d', rest) := by
  have hform : (definitionLine key v).toList ++ rest =
      (keyForm key).toList ++ ' ' :: '=' :: ' ' :: ((valueForm v).toList ++ '\n' :: rest) := by
    simp [definitionLine]
  have hkey : Grammar.key ((keyForm key).toList ++ ' ' :: '=' :: ' ' ::
      ((valueForm v).toList ++ '\n' :: rest)) =
      some ([key], '=' :: ' ' :: ((valueForm v).toList ++ '\n' :: rest)) := by
    have hbare : ∀ c, (' ' :: '=' :: ' ' :: ((valueForm v).toList ++ '\n' :: rest)).head? = some c →
        isBare c = false := by
      intro c hc
      obtain rfl := Option.some.inj hc
      rfl
    have hdot : (skipGap (' ' :: '=' :: ' ' :: ((valueForm v).toList ++ '\n' :: rest))).head? ≠
        some '.' := fun hc => absurd (Option.some.inj hc) (by decide)
    have hlength : [key].length ≤ depthLimit - 1 := Nat.le_add_left 1 78
    rw [← pathForm_singleton]
    exact dottedKey_pathForm (List.cons_ne_nil key []) hlength hbare hdot
  have hgap : skipGap (' ' :: ((valueForm v).toList ++ '\n' :: rest)) =
      (valueForm v).toList ++ '\n' :: rest := skipGap_valueForm h _
  have hvalue : value ((' ' :: ((valueForm v).toList ++ '\n' :: rest)).length + 1) 0
      ((valueForm v).toList ++ '\n' :: rest) = some (v, '\n' :: rest) :=
    value_valueForm h ⟨'\n', rest, rfl, Or.inl rfl⟩ (by simp; omega)
  have hdefinition : definition ((keyForm key).toList ++ ' ' :: '=' :: ' ' ::
      ((valueForm v).toList ++ '\n' :: rest)) d = some (d', rest) := by
    rw [definition, hkey]
    show (value _ 0 (skipGap (' ' :: ((valueForm v).toList ++ '\n' :: rest)))).bind _ = _
    rw [hgap, hvalue]
    show (d.define [] key v).bind _ = _
    rw [hdefine]
    rfl
  obtain ⟨c, tail, hhead, hc⟩ := keyForm_head key
    (' ' :: '=' :: ' ' :: ((valueForm v).toList ++ '\n' :: rest))
  rw [hhead] at hdefinition
  rw [hform, hhead, line, hc.skipGap]
  have hbracket : c ≠ '[' := hc.ne (by decide)
  split
  · exact absurd (List.cons.inj (by assumption)).1 hbracket
  · exact absurd (List.cons.inj (by assumption)).1 hbracket
  · rename_i heq
    obtain ⟨rfl, rfl⟩ := List.cons.inj heq
    have hhash : c ≠ '#' := hc.ne (by decide)
    have hline : c ≠ '\n' := hc.ne (by decide)
    have hreturn : c ≠ '\r' := hc.ne (by decide)
    rw [if_neg (by simp [hhash, hline, hreturn])]
    exact hdefinition
  · exact absurd (by assumption) (List.cons_ne_nil _ _)

theorem header_pathForm {path : List String} (hne : path ≠ []) (hlength : path.length < depthLimit)
    (closing : List Char) (rest : List Char) :
    header (']' :: closing) ((pathForm path).toList ++ (']' :: closing ++ '\n' :: rest)) =
      some (path, rest) := by
  have hbare : ∀ c, (']' :: closing ++ '\n' :: rest).head? = some c → isBare c = false := by
    intro c hc
    obtain rfl := Option.some.inj hc
    rfl
  have hkey : Grammar.key ((pathForm path).toList ++ (']' :: closing ++ '\n' :: rest)) =
      some (path, ']' :: closing ++ '\n' :: rest) :=
    dottedKey_pathForm hne (Nat.le_sub_one_of_lt hlength) hbare
      fun hc => absurd (Option.some.inj hc) (by decide)
  have hclosing : (']' :: closing).isPrefixOf (']' :: closing ++ '\n' :: rest) = true :=
    List.isPrefixOf_iff_prefix.mpr (List.prefix_append _ _)
  rw [header, hkey]
  show (if (']' :: closing).isPrefixOf (']' :: closing ++ '\n' :: rest) then
    (endOfLine ((']' :: closing ++ '\n' :: rest).drop (']' :: closing).length)).bind fun rest =>
      some (path, rest) else none) = _
  rw [if_pos hclosing, List.drop_left, endOfLine_newline]
  rfl

section Headers

variable {path : List String} {d d' : Document}

theorem line_header (hne : path ≠ []) (hlength : path.length < depthLimit)
    (hopen : d.openTable path = some d') (rest : List Char) :
    line (("[" ++ pathForm path ++ "]\n").toList ++ rest) d = some (d', rest) := by
  have hform : ("[" ++ pathForm path ++ "]\n").toList ++ rest =
      '[' :: ((pathForm path).toList ++ ([']'] ++ '\n' :: rest)) := by
    simp
  have hheader := header_pathForm hne hlength [] rest
  obtain ⟨c, tail, hhead, hc⟩ := pathForm_head hne ([']'] ++ '\n' :: rest)
  rw [hhead] at hheader
  have hskip : skipGap ('[' :: c :: tail) = '[' :: c :: tail := rfl
  rw [hform, hhead, line, hskip]
  split
  · rename_i heq
    exact absurd (List.cons.inj (List.cons.inj heq).2).1 (hc.ne (by decide))
  · rename_i heq
    obtain rfl := (List.cons.inj heq).2
    rw [hheader]
    show (d.openTable path).bind _ = _
    rw [hopen]
    rfl
  · rename_i hother heq
    exact absurd (List.cons.inj heq).1.symm hother
  · exact absurd (by assumption) (List.cons_ne_nil _ _)

theorem line_repeated (hne : path ≠ []) (hlength : path.length < depthLimit)
    (hopen : d.openRepeated path = some d') (rest : List Char) :
    line (("[[" ++ pathForm path ++ "]]\n").toList ++ rest) d = some (d', rest) := by
  have hform : ("[[" ++ pathForm path ++ "]]\n").toList ++ rest =
      '[' :: '[' :: ((pathForm path).toList ++ ([']', ']'] ++ '\n' :: rest)) := by
    simp
  have hheader := header_pathForm hne hlength [']'] rest
  rw [hform]
  show (header [']', ']'] ((pathForm path).toList ++ ([']', ']'] ++ '\n' :: rest))).bind _ = _
  rw [hheader]
  show (d.openRepeated path).bind _ = _
  rw [hopen]
  rfl

end Headers

/-! ## Texts of several lines -/

/-- What is made of a document by the lines of a text, whatever follows them. -/
def Reads (text : List Char) (d d' : Document) : Prop :=
  ∀ fuel rest, (text ++ rest).length ≤ fuel →
    ∃ left, rest.length ≤ left ∧ lines fuel (text ++ rest) d = lines left rest d'

theorem Reads.nil (d : Document) : Reads [] d d :=
  fun fuel _ hfuel => ⟨fuel, hfuel, rfl⟩

theorem Reads.append {first second : List Char} {d d' d'' : Document} (h : Reads first d d')
    (h' : Reads second d' d'') : Reads (first ++ second) d d'' := by
  intro fuel rest hfuel
  rw [List.append_assoc] at hfuel ⊢
  obtain ⟨left, hleft, hlines⟩ := h fuel (second ++ rest) hfuel
  obtain ⟨left', hleft', hlines'⟩ := h' left rest hleft
  exact ⟨left', hleft', hlines.trans hlines'⟩

theorem Reads.line {text : List Char} {d d' : Document} (hne : text ≠ [])
    (h : ∀ rest, Grammar.line (text ++ rest) d = some (d', rest)) : Reads text d d' := by
  intro fuel rest hfuel
  have hlength := List.length_pos_of_ne_nil hne
  rw [List.length_append] at hfuel
  obtain ⟨fuel, rfl⟩ := Nat.exists_eq_add_one_of_ne_zero (n := fuel) (by omega)
  refine ⟨fuel, by omega, ?_⟩
  rw [lines, h]
  · rfl
  · exact fun h => hne (List.append_eq_nil_iff.mp h).1

theorem reads_blank (d : Document) : Reads ['\n'] d d :=
  .line (List.cons_ne_nil _ _) fun _ => rfl

theorem reads_definition {key : String} {v : Toml} {d d' : Document} (h : Simple v)
    (hdefine : d.define [] key v = some d') : Reads (definitionLine key v).toList d d' := by
  refine .line ?_ (line_definition h hdefine)
  simp [definitionLine]

theorem reads_header {path : List String} {d d' : Document} (hne : path ≠ [])
    (hlength : path.length < depthLimit) (hopen : d.openTable path = some d') :
    Reads ("[" ++ pathForm path ++ "]\n").toList d d' :=
  .line (by simp) (line_header hne hlength hopen)

theorem reads_repeated {path : List String} {d d' : Document} (hne : path ≠ [])
    (hlength : path.length < depthLimit) (hopen : d.openRepeated path = some d') :
    Reads ("[[" ++ pathForm path ++ "]]\n").toList d d' :=
  .line (by simp) (line_repeated hne hlength hopen)

theorem Reads.lines {text : List Char} {d d' : Document} (h : Reads text d d') (fuel : Nat)
    (hfuel : text.length ≤ fuel) : Grammar.lines fuel text d = some d' := by
  obtain ⟨left, -, hlines⟩ := h fuel [] (by simpa using hfuel)
  rw [List.append_nil] at hlines
  rw [hlines]
  cases left <;> rfl

end PluginConsole.Toml
