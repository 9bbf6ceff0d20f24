import PluginConsole.Proofs.Toml.Quoted

/-!
# Values behind their keys

Text, whole numbers and lists of text are read as they were written, up to the end of the line or to
the next item of a list.
-/

namespace PluginConsole.Toml

open Grammar

/-! ## Whole numbers -/

section Numbers

variable {cs : List Char} {c d : Char} {n : Nat}

theorem ne_of_isDigit (hc : c.isDigit = true) (hd : d.isDigit = false) : c ≠ d := by
  rintro rfl
  exact Bool.false_ne_true (hd.symm.trans hc)

theorem isDigit_toDigits (hc : c ∈ Nat.toDigits 10 n) : c.isDigit = true :=
  Nat.isDigit_of_mem_toDigits (by decide) (by decide) hc

theorem eq_zero_of_toDigits {tail : List Char} (h : Nat.toDigits 10 n = '0' :: tail) : n = 0 := by
  induction n using Nat.strongRecOn generalizing tail with
  | ind n ih =>
    by_cases hsmall : n < 10
    · rw [Nat.toDigits_of_lt_base hsmall] at h
      have hdigit := (List.cons.inj h).1
      revert hdigit
      exact (by decide : ∀ k < 10, k.digitChar = '0' → k = 0) n hsmall
    · rw [Nat.toDigits_of_base_le (by decide) (Nat.not_lt.mp hsmall)] at h
      cases hfront : Nat.toDigits 10 (n / 10) with
      | nil => exact absurd hfront Nat.toDigits_ne_nil
      | cons c rest =>
        rw [hfront, List.cons_append] at h
        have hzero := ih (n / 10) (by omega) (hfront.trans (by rw [(List.cons.inj h).1]))
        omega

theorem wholeDigits_toDigits (n : Nat) :
    Word.wholeDigits (Nat.toDigits 10 n) = Word.separated Char.isDigit (Nat.toDigits 10 n) := by
  unfold Word.wholeDigits
  split
  · rename_i h
    rw [eq_zero_of_toDigits h] at h
    exact absurd (List.cons.inj h).2 nofun
  · rfl

theorem separated_digits (hne : cs ≠ []) (h : ∀ c ∈ cs, c.isDigit = true) :
    Word.separated Char.isDigit cs = some cs := by
  induction cs with
  | nil => exact absurd rfl hne
  | cons c rest ih =>
    have hc := h c List.mem_cons_self
    have hmore := fun d hd => h d (List.mem_cons_of_mem c hd)
    cases rest with
    | nil => rw [Word.separated, if_pos hc]
    | cons d rest =>
      have hd := ne_of_isDigit (hmore d List.mem_cons_self) (d := '_') (by decide)
      rw [Word.separated, if_pos hc, ih (List.cons_ne_nil _ _) hmore, Option.map_some]
      · exact List.cons_ne_nil _ _
      · exact fun _ h => hd (List.cons.inj h).1

theorem valueIn_toDigits (n : Nat) : Word.valueIn 10 (Nat.toDigits 10 n) = n := by
  have hfold (start : Nat) :
      (Nat.toDigits 10 n).foldl (fun n c => n * 10 + Word.digitValue c) start =
        Nat.ofDigitChars 10 (Nat.toDigits 10 n) start := by
    rw [Nat.ofDigitChars]
    refine List.foldl_ext _ _ _ fun total c hc => ?_
    rw [Word.digitValue, if_pos (isDigit_toDigits hc), Nat.mul_comm]
  exact (hfold 0).trans (Nat.ofDigitChars_toDigits (by decide) (by decide))

/-- A number is its digits, and a sign if it is negative. -/
theorem number_cases (n : Int) :
    ∃ m : Nat, n = m ∧ (toString n).toList = Nat.toDigits 10 m ∨
      n = -m ∧ (toString n).toList = '-' :: Nat.toDigits 10 m := by
  have hdigits (m : Nat) : (toString m).toList = Nat.toDigits 10 m := by
    show m.repr.toList = _
    rw [Nat.repr_eq_ofList_toDigits, String.toList_ofList]
  cases n with
  | ofNat m => exact ⟨m, Or.inl ⟨rfl, hdigits m⟩⟩
  | negSucc m =>
    refine ⟨m + 1, Or.inr ⟨rfl, ?_⟩⟩
    show ("-" ++ toString (m + 1)).toList = _
    rw [String.toList_append, hdigits]
    rfl

theorem integer_number {n : Int} (h : Decimal.isInt64 n = true) :
    Word.integer (toString n).toList = some n := by
  have hrange : Word.inRange n = some n := if_pos h
  have hwhole (m : Nat) : Word.wholeDigits (Nat.toDigits 10 m) = some (Nat.toDigits 10 m) :=
    (wholeDigits_toDigits m).trans (separated_digits Nat.toDigits_ne_nil fun _ => isDigit_toDigits)
  obtain ⟨m, ⟨rfl, hm⟩ | ⟨rfl, hm⟩⟩ := number_cases n
  · have hmark (d : Char) (hd : d.isDigit = false) (before after : List Char) :
        Nat.toDigits 10 m ≠ before ++ d :: after := by
      intro heq
      have hdigit := isDigit_toDigits (n := m) (c := d) (by simp [heq])
      exact Bool.false_ne_true (hd.symm.trans hdigit)
    have hsign : Word.signOf (Nat.toDigits 10 m) = (false, Nat.toDigits 10 m) := by
      unfold Word.signOf
      split
      · exact absurd (by assumption) (hmark '-' (by decide) [] _)
      · exact absurd (by assumption) (hmark '+' (by decide) [] _)
      · rfl
    rw [hm, Word.integer]
    · rw [hsign]
      show (Word.wholeDigits (Nat.toDigits 10 m)).bind _ = _
      rw [hwhole]
      show Word.inRange (Word.valueIn 10 (Nat.toDigits 10 m) : Nat) = _
      rw [valueIn_toDigits, hrange]
    · exact hmark 'x' (by decide) ['0']
    · exact hmark 'o' (by decide) ['0']
    · exact hmark 'b' (by decide) ['0']
  · rw [hm, Word.integer]
    · show (Word.wholeDigits (Nat.toDigits 10 m)).bind _ = _
      rw [hwhole]
      show Word.inRange (-(Word.valueIn 10 (Nat.toDigits 10 m) : Nat)) = _
      rw [valueIn_toDigits, hrange]
    all_goals exact fun _ h => absurd (List.cons.inj h).1 (by decide)

theorem isDigit_drop {k : Nat} (hk : k ≠ 0) (n : Int) :
    ∀ c ∈ (toString n).toList.drop k, c.isDigit = true := by
  intro c hc
  obtain ⟨m, ⟨-, hm⟩ | ⟨-, hm⟩⟩ := number_cases n
  · rw [hm] at hc
    exact isDigit_toDigits (List.mem_of_mem_drop hc)
  · obtain ⟨k, rfl⟩ := Nat.exists_eq_add_one_of_ne_zero hk
    rw [hm, List.drop_succ_cons] at hc
    exact isDigit_toDigits (List.mem_of_mem_drop hc)

theorem expect_fixedDigits {count : Nat} {found : Nat × List Char} (hmark : d.isDigit = false)
    (h : ∀ c ∈ cs.drop count, c.isDigit = true) (hfound : Word.fixedDigits count cs = some found) :
    Word.expect d found.2 = none := by
  unfold Word.fixedDigits at hfound
  dsimp only at hfound
  split at hfound
  · obtain rfl := Option.some.inj hfound
    cases hrest : cs.drop count with
    | nil => rfl
    | cons c rest =>
      rw [hrest] at h
      exact if_neg (ne_of_isDigit (h c List.mem_cons_self) hmark)
  · cases hfound

theorem day_number (n : Int) : Word.day (toString n).toList = none := by
  unfold Word.day
  cases hyear : Word.fixedDigits 4 (toString n).toList with
  | none => rfl
  | some found =>
    have hmark := expect_fixedDigits (d := '-') (by decide) (isDigit_drop (by decide) n) hyear
    show (Word.expect '-' found.2).bind _ = none
    rw [hmark]
    rfl

theorem clock_number (n : Int) : Word.clock (toString n).toList = none := by
  unfold Word.clock
  cases hhour : Word.fixedDigits 2 (toString n).toList with
  | none => rfl
  | some found =>
    have hmark := expect_fixedDigits (d := ':') (by decide) (isDigit_drop (by decide) n) hhour
    show (Word.expect ':' found.2).bind _ = none
    rw [hmark]
    rfl

theorem word_number {n : Int} (h : Decimal.isInt64 n = true) :
    Word.value (toString n).toList = some (.int n) := by
  have hkeyword {keyword : String} (hkeyword : ∃ c ∈ keyword.toList.drop 1, c.isDigit = false) :
      ((toString n).toList == keyword.toList) = false := by
    obtain ⟨c, hc, hdigit⟩ := hkeyword
    rw [beq_eq_false_iff_ne]
    intro heq
    rw [← heq] at hc
    exact Bool.false_ne_true (hdigit.symm.trans (isDigit_drop (by decide) n c hc))
  unfold Word.value
  rw [hkeyword ⟨'e', by decide, by decide⟩, hkeyword ⟨'e', by decide, by decide⟩, day_number,
    clock_number, integer_number h]
  rfl

end Numbers

/-! ## Values -/

/-- What stands behind a value on its line. -/
def Closes (rest : List Char) : Prop :=
  ∃ c more, rest = c :: more ∧ (c = '\n' ∨ c = ',' ∨ c = ']')

inductive Simple : Toml → Prop where
  | text (s : String) : Simple (.text s)
  | int {n : Int} (h : Decimal.isInt64 n = true) : Simple (.int n)
  | texts (ss : List String) : Simple (.list (ss.map .text))

section Values

variable {rest : List Char} {fuel depth : Nat}

theorem Closes.head {c : Char} (h : Closes rest) (hc : c ≠ '\n' ∧ c ≠ ',' ∧ c ≠ ']') :
    rest.head? ≠ some c := by
  obtain ⟨d, more, rfl, hd⟩ := h
  intro heq
  obtain rfl := Option.some.inj heq
  rcases hd with rfl | rfl | rfl
  · exact hc.1 rfl
  · exact hc.2.1 rfl
  · exact hc.2.2 rfl

theorem textForm_head (s : String) (rest : List Char) :
    ∃ q tail, (textForm s).toList ++ rest = q :: tail ∧ (q = '"' ∨ q = '\'') := by
  unfold textForm
  dsimp only
  split
  · exact ⟨'"', _, toList_basicQuoted s rest, Or.inl rfl⟩
  split
  · exact ⟨'\'', _, toList_literalQuoted s rest, Or.inr rfl⟩
  split
  · exact ⟨'"', _, toList_longQuoted s rest, Or.inl rfl⟩
  split
  · exact ⟨'\'', _, toList_longLiteral s rest, Or.inr rfl⟩
  split
  · exact ⟨'"', _, toList_longQuoted s rest, Or.inl rfl⟩
  · exact ⟨'"', _, toList_basicQuoted s rest, Or.inl rfl⟩

theorem value_textForm (s : String) (hrest : Closes rest) :
    value (fuel + 1) depth ((textForm s).toList ++ rest) = some (.text s, rest) := by
  have htext := text_textForm s (hrest.head (c := '"') (by decide))
    (hrest.head (c := '\'') (by decide))
  obtain ⟨q, tail, hform, hq⟩ := textForm_head s rest
  rw [hform] at htext ⊢
  rcases hq with rfl | rfl
  all_goals
    show (Grammar.text _).map _ = _
    rw [htext]
    rfl

theorem mem_number {n : Int} {c : Char} (hc : c ∈ (toString n).toList) :
    c.isDigit = true ∨ c = '-' := by
  obtain ⟨m, ⟨-, hm⟩ | ⟨-, hm⟩⟩ := number_cases n
  · rw [hm] at hc
    exact Or.inl (isDigit_toDigits hc)
  · rw [hm, List.mem_cons] at hc
    exact hc.symm.imp_left isDigit_toDigits

theorem ne_of_mem_number {n : Int} {c mark : Char} (hc : c ∈ (toString n).toList)
    (hmark : mark.isDigit = false ∧ mark ≠ '-') : c ≠ mark :=
  (mem_number hc).elim (ne_of_isDigit · hmark.1) fun h => h ▸ hmark.2.symm

theorem number_head (n : Int) (rest : List Char) :
    ∃ c tail, (toString n).toList ++ rest = c :: tail ∧ c ∈ (toString n).toList := by
  cases hchars : (toString n).toList with
  | nil =>
    obtain ⟨m, ⟨-, hm⟩ | ⟨-, hm⟩⟩ := number_cases n
    · exact absurd (hm.symm.trans hchars) Nat.toDigits_ne_nil
    · exact absurd (hm.symm.trans hchars) (List.cons_ne_nil _ _)
  | cons c cs => exact ⟨c, cs ++ rest, rfl, List.mem_cons_self⟩

theorem value_number {n : Int} (h : Decimal.isInt64 n = true) (hrest : Closes rest) :
    value (fuel + 1) depth ((toString n).toList ++ rest) = some (.int n, rest) := by
  have hwords : ∀ c ∈ (toString n).toList, isWordChar c = true := by
    intro c hc
    rcases mem_number hc with hdigit | rfl
    · have hmark (mark : Char) (hmark : mark.isDigit = false) : c ≠ mark :=
        ne_of_isDigit hdigit hmark
      simp [isWordChar, isGap, hmark ' ', hmark '\t', hmark '\n', hmark '\r', hmark '#', hmark ',',
        hmark ']', hmark '\x7d']
    · decide
  have hstop : rest.takeWhile isWordChar = [] ∧ rest.dropWhile isWordChar = rest := by
    obtain ⟨c, more, rfl, rfl | rfl | rfl⟩ := hrest
    all_goals exact ⟨rfl, rfl⟩
  have htake : ((toString n).toList ++ rest).takeWhile isWordChar = (toString n).toList := by
    rw [List.takeWhile_append_of_pos hwords, hstop.1, List.append_nil]
  have hdrop : ((toString n).toList ++ rest).dropWhile isWordChar = rest := by
    rw [List.dropWhile_append_of_pos hwords, hstop.2]
  have hword : word ((toString n).toList ++ rest) = some (.int n, rest) := by
    unfold word Word.timeFollows
    simp only [htake, hdrop, day_number, word_number h]
    rfl
  have hhead {mark : Char} (hmark : mark.isDigit = false ∧ mark ≠ '-') (more : List Char) :
      (toString n).toList ++ rest ≠ mark :: more := by
    obtain ⟨c, tail, hchars, hc⟩ := number_head n rest
    rw [hchars]
    exact fun heq => ne_of_mem_number hc hmark (List.cons.inj heq).1
  rw [value]
  · exact hword
  · exact hhead (by decide)
  · exact hhead (by decide)
  · exact hhead (by decide)
  · exact hhead (by decide)

/-! ## Lists -/

theorem filler_newline (cs : List Char) : filler ('\n' :: cs) = filler cs := rfl

theorem filler_eq {cs tail : List Char} {c : Char} (h : skipGap cs = c :: tail)
    (hc : c ≠ '#' ∧ c ≠ '\n' ∧ c ≠ '\r') : filler cs = c :: tail := by
  cases cs with
  | nil => cases h
  | cons d more =>
    have hcomment : skipComment (c :: tail) = c :: tail := by
      unfold skipComment
      split
      · exact absurd (List.cons.inj (by assumption)).1 hc.1
      · rfl
    unfold filler
    rw [List.length_cons, skipFiller]
    simp only [h, hcomment, newline_eq_none hc.2.1 hc.2.2]

theorem filler_textForm (blanks : List Char) (hblanks : ∀ c ∈ blanks, isGap c = true) (s : String)
    (rest : List Char) :
    filler (blanks ++ ((textForm s).toList ++ rest)) = (textForm s).toList ++ rest := by
  obtain ⟨q, tail, hform, hq⟩ := textForm_head s rest
  rw [hform]
  refine filler_eq ?_ ?_
  · unfold skipGap
    rw [List.dropWhile_append_of_pos hblanks]
    rcases hq with rfl | rfl <;> rfl
  · rcases hq with rfl | rfl <;> decide

theorem items_comma {cs more : List Char} {s : String}
    (hitem : filler cs = (textForm s).toList ++ ',' :: more) :
    items (fuel + 2) depth cs =
      (items (fuel + 1) depth more).bind fun (vs, rest) => some (.text s :: vs, rest) := by
  have hcomma : filler (',' :: more) = ',' :: more := filler_eq rfl (by decide)
  have hvalue : value (fuel + 1) depth ((textForm s).toList ++ ',' :: more) =
      some (.text s, ',' :: more) := value_textForm s ⟨',', more, rfl, by decide⟩
  obtain ⟨q, tail, hform, hq⟩ := textForm_head s (',' :: more)
  rw [hform] at hitem hvalue
  rw [items, hitem]
  split
  · rename_i h
    obtain rfl := (List.cons.inj h).1
    exact absurd hq (by decide)
  · rw [hvalue]
    simp only [Option.bind_eq_bind, Option.bind_some, hcomma]

theorem items_bracket {cs more : List Char} {s : String}
    (hitem : filler cs = (textForm s).toList ++ ']' :: more) :
    items (fuel + 2) depth cs = some ([.text s], more) := by
  have hbracket : filler (']' :: more) = ']' :: more := filler_eq rfl (by decide)
  have hvalue : value (fuel + 1) depth ((textForm s).toList ++ ']' :: more) =
      some (.text s, ']' :: more) := value_textForm s ⟨']', more, rfl, by decide⟩
  obtain ⟨q, tail, hform, hq⟩ := textForm_head s (']' :: more)
  rw [hform] at hitem hvalue
  rw [items, hitem]
  split
  · rename_i h
    obtain rfl := (List.cons.inj h).1
    exact absurd hq (by decide)
  · rw [hvalue]
    simp only [Option.bind_eq_bind, Option.bind_some, hbracket]

theorem items_itemLines (ss : List String) (hfuel : ss.length < fuel) (rest : List Char) :
    items fuel depth ('\n' :: ((valueForm.itemLines (ss.map .text)).toList ++ ']' :: rest)) =
      some (ss.map .text, rest) := by
  induction ss generalizing fuel with
  | nil =>
    obtain ⟨fuel, rfl⟩ := Nat.exists_eq_add_one_of_ne_zero (Nat.ne_of_gt hfuel)
    rw [List.map_nil, valueForm.itemLines, String.toList_empty]
    rfl
  | cons s ss ih =>
    obtain ⟨fuel, rfl⟩ :=
      Nat.exists_eq_add_of_le' (Nat.le_trans (Nat.le_add_left 2 ss.length) hfuel)
    have hline : (valueForm.itemLines ((s :: ss).map .text)).toList ++ ']' :: rest =
        "    ".toList ++ ((textForm s).toList ++ ',' :: '\n' ::
          ((valueForm.itemLines (ss.map .text)).toList ++ ']' :: rest)) := by
      simp [valueForm.itemLines, valueForm]
    have hblanks : ∀ c ∈ "    ".toList, isGap c = true := List.all_eq_true.mp rfl
    have hitem := filler_textForm "    ".toList hblanks s
      (',' :: '\n' :: ((valueForm.itemLines (ss.map .text)).toList ++ ']' :: rest))
    rw [← filler_newline] at hitem
    rw [hline, items_comma hitem, ih (Nat.lt_of_succ_lt_succ hfuel)]
    rfl

theorem items_textForm (s : String) (rest : List Char) :
    items (fuel + 2) depth ((textForm s).toList ++ ']' :: rest) = some ([.text s], rest) :=
  items_bracket (filler_textForm [] (by simp) s _)

theorem length_itemLines (ss : List String) :
    ss.length ≤ (valueForm.itemLines (ss.map .text)).toList.length := by
  induction ss with
  | nil => exact Nat.zero_le _
  | cons s ss ih =>
    rw [List.map_cons, valueForm.itemLines]
    simp only [String.toList_append, List.length_append, List.length_cons]
    have hblanks : "    ".toList.length = 4 := rfl
    omega

theorem skipGap_valueForm {v : Toml} (h : Simple v) (rest : List Char) :
    skipGap ((valueForm v).toList ++ rest) = (valueForm v).toList ++ rest := by
  have hhead {c : Char} {form tail : List Char} (hform : form = c :: tail) (hc : isGap c = false) :
      skipGap form = form := by
    rw [hform, skipGap, List.dropWhile_cons_of_neg (by simp [hc])]
  cases h with
  | text s =>
    rw [valueForm]
    obtain ⟨q, tail, hform, rfl | rfl⟩ := textForm_head s rest
    · exact hhead hform rfl
    · exact hhead hform rfl
  | @int n h =>
    rw [valueForm]
    obtain ⟨c, tail, hform, hc⟩ := number_head n rest
    refine hhead hform ?_
    have hblank : c ≠ ' ' := ne_of_mem_number hc (by decide)
    have htab : c ≠ '\t' := ne_of_mem_number hc (by decide)
    simp [isGap, hblank, htab]
  | texts ss =>
    obtain ⟨tail, hform⟩ :
        ∃ tail, (valueForm (.list (ss.map .text))).toList ++ rest = '[' :: tail := by
      rw [valueForm]
      match ss with
      | [] => exact ⟨_, by simp [valueForm.listForm]; rfl⟩
      | [s] => exact ⟨_, by simp [valueForm.listForm]; rfl⟩
      | s :: t :: ss => exact ⟨_, by simp [valueForm.listForm]; rfl⟩
    exact hhead hform rfl

/-- A value is read as it was written. -/
theorem value_valueForm {v : Toml} (h : Simple v) (hrest : Closes rest)
    (hfuel : (valueForm v).toList.length < fuel) :
    value fuel 0 ((valueForm v).toList ++ rest) = some (v, rest) := by
  obtain ⟨fuel, rfl⟩ := Nat.exists_eq_add_one_of_ne_zero (Nat.ne_of_gt (Nat.zero_lt_of_lt hfuel))
  have hlist {form : List Char} {vs : List Toml} (hitems : items fuel 1 form = some (vs, rest)) :
      value (fuel + 1) 0 ('[' :: form) = some (.list vs, rest) := by
    rw [value, if_neg (by decide), hitems]
    rfl
  cases h with
  | text s =>
    rw [valueForm]
    exact value_textForm s hrest
  | int h =>
    rw [valueForm]
    exact value_number h hrest
  | texts ss =>
    rcases ss with _ | ⟨s, _ | ⟨t, ss⟩⟩
    · have hform : (valueForm (.list ([].map .text))).toList = ['[', ']'] := by
        simp [valueForm, valueForm.listForm]
      rw [hform] at hfuel ⊢
      obtain ⟨left, rfl⟩ : ∃ left, fuel = left + 2 :=
        Nat.exists_eq_add_of_le' (Nat.le_of_lt_succ hfuel)
      exact hlist rfl
    · have hform : (valueForm (.list ([s].map .text))).toList ++ rest =
          '[' :: ((textForm s).toList ++ ']' :: rest) := by
        simp [valueForm, valueForm.listForm]
      have hlength := congrArg List.length hform
      simp only [List.length_append, List.length_cons] at hlength
      obtain ⟨left, rfl⟩ : ∃ left, fuel = left + 2 := Nat.exists_eq_add_of_le' (by omega)
      rw [hform]
      exact hlist (items_textForm s rest)
    · have hform : (valueForm (.list ((s :: t :: ss).map .text))).toList ++ rest =
          '[' :: '\n' ::
            ((valueForm.itemLines ((s :: t :: ss).map .text)).toList ++ ']' :: rest) := by
        simp [valueForm, valueForm.listForm]
      have hlength := length_itemLines (s :: t :: ss)
      rw [hform]
      refine hlist (items_itemLines (s :: t :: ss) ?_ rest)
      have hmore := congrArg List.length hform
      simp only [List.length_append, List.length_cons] at hmore hlength ⊢
      omega

end Values

end PluginConsole.Toml
