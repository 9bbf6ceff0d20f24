import Mathlib.Data.List.Basic
import PluginConsole.Toml.Printer
import PluginConsole.Toml.Reader

/-!
# Text between quotes

A text that was written is read again as it was, in whichever quotes it stands. What follows it is
left alone, as long as that does not begin with one more quote.
-/

namespace PluginConsole.Toml

open Grammar

/-! ## Escapes -/

theorem hexNumber_hexUpper :
    ∀ n < 128, n < 32 ∨ n = 127 → Json.hexNumber 4 0 (hexUpper n).toList = some (n, []) := by
  decide +kernel

theorem hexNumber_append {count n m : Nat} {cs tail : List Char}
    (h : Json.hexNumber count n cs = some (m, tail)) (rest : List Char) :
    Json.hexNumber count n (cs ++ rest) = some (m, tail ++ rest) := by
  induction count generalizing n cs with
  | zero =>
    cases h
    rfl
  | succ count ih =>
    cases cs with
    | nil => cases h
    | cons c cs =>
      obtain ⟨x, hx, hrest⟩ := Option.bind_eq_some_iff.mp h
      show (Json.hexValue c).bind _ = _
      rw [hx]
      exact ih hrest

theorem codePoint_hexUpper {c : Char} (h : isControl c = true) (rest : List Char) :
    escape.codePoint 4 ((hexUpper c.toNat).toList ++ rest) = some (c, rest) := by
  simp only [isControl, Bool.or_eq_true, decide_eq_true_eq, beq_iff_eq] at h
  have hvalid : c.toNat.isValidChar := Or.inl (by omega)
  unfold escape.codePoint
  rw [hexNumber_append (hexNumber_hexUpper _ (by omega) h)]
  show (if c.toNat.isValidChar then some (Char.ofNat c.toNat, [] ++ rest) else none) = _
  rw [if_pos hvalid, Char.ofNat_toNat, List.nil_append]

/-- What the reader takes as it is, the writer does not have to escape. -/
theorem isPlain_iff {c : Char} : isPlain c = true ↔ isControl c = false ∨ c = '\t' := by
  simp only [isPlain, isControl, Bool.or_eq_true, Bool.or_eq_false_iff, Bool.and_eq_true,
    beq_iff_eq, bne_iff_ne, decide_eq_true_eq, decide_eq_false_iff_not, beq_eq_false_iff_ne,
    Nat.not_lt]
  exact or_comm

/-- How a character stands between double quotes. -/
inductive Piece (c : Char) : List Char → Prop where
  | escaped {e : Char} {tail : List Char} (hgap : isGap e = false) (hline : e ≠ '\n')
    (hreturn : e ≠ '\r') (h : ∀ rest, escape (e :: tail ++ rest) = some (c, rest)) :
    Piece c ('\\' :: e :: tail)
  | plain (h : isPlain c = true) (hquote : c ≠ '"') (hslash : c ≠ '\\') (hline : c ≠ '\n')
    (hreturn : c ≠ '\r') : Piece c [c]

theorem Piece.head {c : Char} {piece : List Char} (h : Piece c piece) :
    ∃ d tail, piece = d :: tail ∧ d ≠ '"' := by
  cases h with
  | @escaped e tail => exact ⟨'\\', e :: tail, rfl, by decide⟩
  | plain h hquote => exact ⟨c, [], rfl, hquote⟩

theorem piece_escapedPiece (c : Char) : Piece c (escapedPiece c).toList := by
  -- The letter of a short escape.
  have hshort {c e : Char} (hgap : isGap e = false) (hline : e ≠ '\n') (hreturn : e ≠ '\r')
      (h : ∀ rest, escape (e :: rest) = some (c, rest)) : Piece c ['\\', e] :=
    .escaped hgap hline hreturn h
  unfold escapedPiece
  split
  iterate 7 exact hshort rfl (by decide) (by decide) fun _ => rfl
  · rename_i hbell htab hline hfeed hreturn hquote hslash
    split
    · rename_i hcontrol
      rw [String.toList_append]
      exact .escaped rfl (by decide) (by decide) (codePoint_hexUpper hcontrol)
    · rename_i hcontrol
      rw [String.toList_singleton]
      exact .plain (isPlain_iff.mpr (Or.inl (Bool.eq_false_iff.mpr hcontrol))) hquote hslash hline
        hreturn

/-! ## Text on one line -/

theorem toList_foldl_append (f : Char → String) (start : String) (cs : List Char) :
    (cs.foldl (fun out c => out ++ f c) start).toList =
      start.toList ++ cs.flatMap fun c => (f c).toList := by
  induction cs generalizing start with
  | nil => simp
  | cons c rest ih => simp [ih]

def escapedChars (cs : List Char) : List Char :=
  cs.flatMap fun c => (escapedPiece c).toList

theorem toList_basicQuoted (s : String) (rest : List Char) :
    (basicQuoted s).toList ++ rest = '"' :: (escapedChars s.toList ++ '"' :: rest) := by
  unfold basicQuoted escapedChars
  rw [String.toList_append, String.toList_append, String.foldl_eq_foldl_toList, toList_foldl_append]
  simp

theorem toList_literalQuoted (s : String) (rest : List Char) :
    (literalQuoted s).toList ++ rest = '\'' :: (s.toList ++ '\'' :: rest) := by
  simp [literalQuoted]

theorem basicText_piece {c : Char} {piece : List Char} (h : Piece c piece) (fuel : Nat)
    (done rest : List Char) :
    basicText (fuel + 1) done (piece ++ rest) = basicText fuel (c :: done) rest := by
  cases h with
  | @escaped e tail _ _ _ h =>
    show (escape (e :: tail ++ rest)).bind _ = _
    rw [h]
    rfl
  | plain h hquote hslash =>
    rw [List.singleton_append, basicText]
    · rw [if_pos h]
    · exact hquote
    · exact hslash

theorem basicText_escapedChars {cs : List Char} {fuel : Nat} (hfuel : cs.length < fuel)
    (done rest : List Char) :
    basicText fuel done (escapedChars cs ++ '"' :: rest) =
      some (String.ofList (done.reverse ++ cs), rest) := by
  induction cs generalizing fuel done with
  | nil =>
    obtain ⟨fuel, rfl⟩ := Nat.exists_eq_add_one_of_ne_zero (Nat.ne_of_gt hfuel)
    rw [List.append_nil]
    rfl
  | cons c cs ih =>
    obtain ⟨fuel, rfl⟩ := Nat.exists_eq_add_one_of_ne_zero (Nat.ne_of_gt (Nat.zero_lt_of_lt hfuel))
    rw [escapedChars, List.flatMap_cons, List.append_assoc,
      basicText_piece (piece_escapedPiece c), ← escapedChars, ih (Nat.lt_of_succ_lt_succ hfuel)]
    simp

theorem length_escapedChars (cs : List Char) : cs.length ≤ (escapedChars cs).length := by
  induction cs with
  | nil => exact Nat.le_refl _
  | cons c cs ih =>
    obtain ⟨d, tail, hpiece, -⟩ := (piece_escapedPiece c).head
    rw [escapedChars, List.flatMap_cons, List.length_append, ← escapedChars, hpiece,
      List.length_cons, List.length_cons]
    omega

theorem basicText_basicQuoted (s : String) (rest : List Char) {fuel : Nat}
    (hfuel : (escapedChars s.toList).length < fuel) :
    basicText fuel [] (escapedChars s.toList ++ '"' :: rest) = some (s, rest) := by
  have hlength := length_escapedChars s.toList
  rw [basicText_escapedChars (by omega), List.reverse_nil, List.nil_append, String.ofList_toList]

theorem literalText_append {cs : List Char} (h : ∀ c ∈ cs, (isPlain c && c != '\'') = true)
    (rest : List Char) : literalText (cs ++ '\'' :: rest) = some (String.ofList cs, rest) := by
  unfold literalText
  rw [List.dropWhile_append_of_pos h, List.takeWhile_append_of_pos h]
  simp

/-! ## Text over several lines -/

section Long

variable {quote c : Char} {fuel n : Nat} {done rest cs : List Char}

theorem takeWhile_quotes (n : Nat) (hrest : rest.head? ≠ some quote) :
    (List.replicate n quote ++ rest).takeWhile (· == quote) = List.replicate n quote := by
  rw [List.takeWhile_append_of_pos (by simp)]
  cases rest with
  | nil => simp
  | cons c rest =>
    have hc : c ≠ quote := fun h => hrest (by rw [h]; rfl)
    simp [hc]

theorem longText_run (h : n ≠ 0) (hn : n ≤ 2) (hrest : rest.head? ≠ some quote) :
    longText quote (fuel + 1) done (List.replicate n quote ++ rest) =
      longText quote fuel (List.replicate n quote ++ done) rest := by
  obtain ⟨n, rfl⟩ := Nat.exists_eq_add_one_of_ne_zero h
  have hrun := takeWhile_quotes (n + 1) hrest
  rw [List.replicate_succ, List.cons_append] at hrun ⊢
  rw [longText, if_pos rfl, hrun, ← List.replicate_succ, ← List.cons_append, ← List.replicate_succ]
  simp only [List.length_replicate]
  rw [if_pos (by omega), List.drop_left' List.length_replicate]

theorem longText_quotes (hn : n ≤ 2) (hrest : rest.head? ≠ some quote) (done : List Char)
    (hfuel : n + rest.length < fuel) :
    ∃ left, rest.length < left ∧ longText quote fuel done (List.replicate n quote ++ rest) =
      longText quote left (List.replicate n quote ++ done) rest := by
  cases n with
  | zero => exact ⟨fuel, by omega, rfl⟩
  | succ n =>
    obtain ⟨fuel, rfl⟩ := Nat.exists_eq_add_one_of_ne_zero (Nat.ne_of_gt (Nat.zero_lt_of_lt hfuel))
    exact ⟨fuel, by omega, longText_run (Nat.succ_ne_zero n) hn hrest⟩

theorem longText_close (hn : n ≤ 2) (hrest : rest.head? ≠ some quote) :
    longText quote (fuel + 1) done (List.replicate (n + 3) quote ++ rest) =
      some (String.ofList (done.reverse ++ List.replicate n quote), rest) := by
  have hrun := takeWhile_quotes (n + 3) hrest
  rw [List.replicate_succ, List.cons_append] at hrun ⊢
  rw [longText, if_pos rfl, hrun, ← List.replicate_succ, ← List.cons_append, ← List.replicate_succ]
  simp only [List.length_replicate]
  have hextra : min (n + 2 + 1 - 3) 2 = n := by omega
  rw [if_neg (by omega), hextra, List.drop_left' List.length_replicate, List.reverse_append,
    List.reverse_replicate]

theorem newline_eq_none (hline : c ≠ '\n') (hreturn : c ≠ '\r') (rest : List Char) :
    newline (c :: rest) = none := by
  unfold newline
  split
  · exact absurd (List.cons.inj (by assumption)).1 hline
  · exact absurd (List.cons.inj (by assumption)).1 hreturn
  · rfl

theorem ne_return_of_isPlain (h : isPlain c = true) : c ≠ '\r' := by
  rintro rfl
  exact absurd h (by decide)

theorem longText_plain (hquote : c ≠ quote) (hslash : quote = '"' → c ≠ '\\') (hline : c ≠ '\n')
    (hreturn : c ≠ '\r') (h : isPlain c = true) :
    longText quote (fuel + 1) done (c :: rest) = longText quote fuel (c :: done) rest := by
  have hescape : (decide (c = '\\') && quote == '"') = false := by
    rw [Bool.and_eq_false_iff, decide_eq_false_iff_not, beq_eq_false_iff_ne]
    exact or_iff_not_imp_right.mpr fun h => hslash (not_not.mp h)
  rw [longText, if_neg hquote, hescape, newline_eq_none hline hreturn, h]
  rfl

theorem longText_newline (hquote : quote ≠ '\n') :
    longText quote (fuel + 1) done ('\n' :: rest) = longText quote fuel ('\n' :: done) rest := by
  rw [longText, if_neg hquote.symm]
  rfl

theorem longText_piece {piece : List Char} (h : Piece c piece) :
    longText '"' (fuel + 1) done (piece ++ rest) = longText '"' fuel (c :: done) rest := by
  cases h with
  | @escaped e tail hgap hline hreturn h =>
    have hskip : newline (skipGap (e :: tail ++ rest)) = none := by
      rw [List.cons_append, skipGap, List.dropWhile_cons_of_neg (by simp [hgap])]
      exact newline_eq_none hline hreturn _
    rw [List.cons_append, longText, if_neg (by decide), if_pos (by decide), hskip]
    show (escape (e :: tail ++ rest)).bind _ = _
    rw [h]
    rfl
  | plain h hquote hslash hline hreturn =>
    exact longText_plain hquote (fun _ => hslash) hline hreturn h

theorem longText_step {piece tail : List Char} {result : Option (String × List Char)} (hn : n ≤ 2)
    (hhead : ∃ d rest, piece = d :: rest ∧ d ≠ quote)
    (hpiece : ∀ fuel done rest,
      longText quote (fuel + 1) done (piece ++ rest) = longText quote fuel (c :: done) rest)
    (hfuel : n + (piece ++ tail).length < fuel)
    (htail : ∀ left, tail.length < left →
      longText quote left (c :: (List.replicate n quote ++ done)) tail = result) :
    longText quote fuel done (List.replicate n quote ++ (piece ++ tail)) = result := by
  obtain ⟨d, rest, rfl, hd⟩ := hhead
  have hhead : (d :: rest ++ tail).head? ≠ some quote := by simpa using hd
  obtain ⟨left, hleft, hquotes⟩ := longText_quotes hn hhead done hfuel
  obtain ⟨left, rfl⟩ := Nat.exists_eq_add_one_of_ne_zero (Nat.ne_of_gt (Nat.zero_lt_of_lt hleft))
  rw [hquotes, hpiece]
  refine htail left ?_
  rw [List.length_append, List.length_cons] at hleft
  omega

theorem longText_last (hn : n ≤ 2) (hrest : rest.head? ≠ some quote)
    (hfuel : n + (List.replicate 3 quote ++ rest).length < fuel) :
    longText quote fuel done (List.replicate n quote ++ (List.replicate 3 quote ++ rest)) =
      some (String.ofList (done.reverse ++ List.replicate n quote), rest) := by
  obtain ⟨fuel, rfl⟩ := Nat.exists_eq_add_one_of_ne_zero (Nat.ne_of_gt (Nat.zero_lt_of_lt hfuel))
  rw [← List.append_assoc, List.replicate_append_replicate]
  exact longText_close hn hrest

theorem quotes_cons (n : Nat) (quote : Char) (tail : List Char) :
    List.replicate n quote ++ quote :: tail = List.replicate (n + 1) quote ++ tail := by
  rw [List.replicate_succ', List.append_assoc, List.singleton_append]

theorem longText_longPieces (hn : n ≤ 2) (hrest : rest.head? ≠ some '"')
    (hfuel : n + ((longPieces n cs).toList ++ (List.replicate 3 '"' ++ rest)).length < fuel) :
    longText '"' fuel done
        (List.replicate n '"' ++ ((longPieces n cs).toList ++ (List.replicate 3 '"' ++ rest))) =
      some (String.ofList (done.reverse ++ List.replicate n '"' ++ cs), rest) := by
  induction cs generalizing n fuel done with
  | nil =>
    rw [longPieces, String.toList_empty, List.nil_append] at hfuel ⊢
    rw [longText_last hn hrest hfuel, List.append_nil]
  | cons c cs ih =>
    have hother {piece : List Char}
        (hpieces : (longPieces n (c :: cs)).toList = piece ++ (longPieces 0 cs).toList)
        (hhead : ∃ d tail, piece = d :: tail ∧ d ≠ '"')
        (hpiece : ∀ fuel done rest,
          longText '"' (fuel + 1) done (piece ++ rest) = longText '"' fuel (c :: done) rest) :
        longText '"' fuel done (List.replicate n '"' ++
            ((longPieces n (c :: cs)).toList ++ (List.replicate 3 '"' ++ rest))) =
          some (String.ofList (done.reverse ++ List.replicate n '"' ++ c :: cs), rest) := by
      rw [hpieces, List.append_assoc] at hfuel ⊢
      refine longText_step hn hhead hpiece hfuel fun left hleft => ?_
      have htail := @ih left 0 (c :: (List.replicate n '"' ++ done)) (Nat.zero_le _) (by omega)
      rw [List.replicate_zero, List.nil_append] at htail
      rw [htail]
      simp
    by_cases hquote : c = '"'
    · subst hquote
      by_cases hrun : n = 2
      · subst hrun
        have hpieces : (longPieces 2 ('"' :: cs)).toList =
            (escapedPiece '"').toList ++ (longPieces 0 cs).toList := String.toList_append
        exact hother hpieces (piece_escapedPiece '"').head fun _ _ _ =>
          longText_piece (piece_escapedPiece '"')
      · have hpieces : (longPieces n ('"' :: cs)).toList =
            '"' :: (longPieces (n + 1) cs).toList := by
          rw [longPieces, if_neg hrun, String.toList_append]
          rfl
        rw [hpieces, List.cons_append, List.length_cons] at hfuel
        rw [hpieces, List.cons_append, quotes_cons, ih (by omega) (by omega), List.append_assoc,
          List.append_assoc, quotes_cons]
    by_cases hline : c = '\n'
    · subst hline
      exact hother String.toList_append ⟨'\n', [], rfl, by decide⟩ fun _ _ _ =>
        longText_newline (by decide)
    · have hpieces : (longPieces n (c :: cs)).toList =
          (escapedPiece c).toList ++ (longPieces 0 cs).toList := by
        rw [longPieces, String.toList_append]
        · exact hquote
        · exact hline
      exact hother hpieces (piece_escapedPiece c).head fun _ _ _ =>
        longText_piece (piece_escapedPiece c)

/-- After `n` quotes there are never more than two in a row. -/
def ShortRuns (quote : Char) : Nat → List Char → Prop
  | n, [] => n ≤ 2
  | n, c :: rest =>
    if c = quote then ShortRuns quote (n + 1) rest else n ≤ 2 ∧ ShortRuns quote 0 rest

theorem shortRuns_of_longestRun {s : String} (h : longestRun quote s ≤ 2) :
    ShortRuns quote 0 s.toList := by
  have hfold (cs : List Char) (best run : Nat)
      (h : (fun p => max p.1 p.2) (cs.foldl (fun p d =>
        if d = quote then (p.1, p.2 + 1) else (max p.1 p.2, 0)) (best, run)) ≤ 2) :
      best ≤ 2 ∧ ShortRuns quote run cs := by
    induction cs generalizing best run with
    | nil => exact Nat.max_le.mp h
    | cons c rest ih =>
      rw [List.foldl_cons] at h
      unfold ShortRuns
      split
      · rename_i hc
        simp only [hc, if_true] at h
        exact ih _ _ h
      · rename_i hc
        simp only [hc, if_false] at h
        obtain ⟨hmax, hruns⟩ := ih _ _ h
        obtain ⟨hbest, hrun⟩ := Nat.max_le.mp hmax
        exact ⟨hbest, hrun, hruns⟩
  exact (hfold s.toList 0 0 h).2

theorem longText_literal (hruns : ShortRuns '\'' n cs)
    (hplain : ∀ c ∈ cs, c = '\n' ∨ isPlain c = true) (hrest : rest.head? ≠ some '\'')
    (hfuel : n + (cs ++ (List.replicate 3 '\'' ++ rest)).length < fuel) :
    longText '\'' fuel done (List.replicate n '\'' ++ (cs ++ (List.replicate 3 '\'' ++ rest))) =
      some (String.ofList (done.reverse ++ List.replicate n '\'' ++ cs), rest) := by
  induction cs generalizing n fuel done with
  | nil =>
    rw [List.nil_append] at hfuel ⊢
    rw [longText_last hruns hrest hfuel, List.append_nil]
  | cons c cs ih =>
    have hmore := fun d hd => hplain d (List.mem_cons_of_mem c hd)
    unfold ShortRuns at hruns
    split at hruns
    · rename_i hquote
      subst hquote
      rw [List.cons_append, List.length_cons] at hfuel
      rw [List.cons_append, quotes_cons, ih hruns hmore (by omega), List.append_assoc,
        List.append_assoc, quotes_cons]
    · rename_i hquote
      have hpiece (fuel : Nat) (done rest : List Char) :
          longText '\'' (fuel + 1) done ([c] ++ rest) = longText '\'' fuel (c :: done) rest := by
        rcases hplain c List.mem_cons_self with rfl | hc
        · exact longText_newline (by decide)
        · have hline : c ≠ '\n' := by
            rintro rfl
            exact absurd hc (by decide)
          exact longText_plain hquote (fun h => absurd h (by decide)) hline
            (ne_return_of_isPlain hc) hc
      have hsplit (tail : List Char) : c :: cs ++ tail = [c] ++ (cs ++ tail) := rfl
      rw [hsplit] at hfuel ⊢
      refine longText_step hruns.1 ⟨c, [], rfl, hquote⟩ hpiece hfuel fun left hleft => ?_
      have htail := @ih left 0 (c :: (List.replicate n '\'' ++ done)) hruns.2 hmore (by omega)
      rw [List.replicate_zero, List.nil_append] at htail
      rw [htail]
      simp

end Long

/-! ## Every form -/

section Forms

variable {s : String} {rest : List Char}

theorem dropFirstNewline_leading {body : List Char}
    (h : '\n' ∉ s.toList → newline body = none) :
    dropFirstNewline ((leadingNewline s).toList ++ body) = body := by
  unfold leadingNewline dropFirstNewline
  split
  · rfl
  · rename_i hline
    rw [String.toList_empty, List.nil_append, h (by simpa using hline), Option.getD_none]

theorem Piece.newline {c : Char} {piece : List Char} (h : Piece c piece) (rest : List Char) :
    newline (piece ++ rest) = none := by
  cases h with
  | escaped => exact newline_eq_none (by decide) (by decide) _
  | plain _ _ _ hline hreturn => exact newline_eq_none hline hreturn _

theorem newline_longPieces {cs tail : List Char} (h : '\n' ∉ cs) (htail : newline tail = none) :
    newline ((longPieces 0 cs).toList ++ tail) = none := by
  cases cs with
  | nil => exact htail
  | cons c cs =>
    rw [List.mem_cons, not_or] at h
    by_cases hquote : c = '"'
    · subst hquote
      rw [longPieces, if_neg (by decide), String.toList_append]
      exact newline_eq_none (by decide) (by decide) _
    · rw [longPieces, String.toList_append, List.append_assoc]
      · exact (piece_escapedPiece c).newline _
      · exact hquote
      · exact Ne.symm h.1

theorem toList_longQuoted (s : String) (rest : List Char) :
    (longQuoted s).toList ++ rest = '"' :: '"' :: '"' :: ((leadingNewline s).toList ++
      ((longPieces 0 s.toList).toList ++ (List.replicate 3 '"' ++ rest))) := by
  simp [longQuoted]

theorem toList_longLiteral (s : String) (rest : List Char) :
    (longLiteral s).toList ++ rest = '\'' :: '\'' :: '\'' :: ((leadingNewline s).toList ++
      (s.toList ++ (List.replicate 3 '\'' ++ rest))) := by
  simp [longLiteral]

theorem text_longQuoted (s : String) (hrest : rest.head? ≠ some '"') :
    Grammar.text ((longQuoted s).toList ++ rest) = some (s, rest) := by
  have hnewline (h : '\n' ∉ s.toList) :
      newline ((longPieces 0 s.toList).toList ++ (List.replicate 3 '"' ++ rest)) = none :=
    newline_longPieces h (newline_eq_none (by decide) (by decide) ('"' :: '"' :: rest))
  rw [toList_longQuoted, Grammar.text]
  show longText _ _ _ (dropFirstNewline ((leadingNewline s).toList ++
    ((longPieces 0 s.toList).toList ++ (List.replicate 3 '"' ++ rest)))) = _
  rw [dropFirstNewline_leading hnewline]
  refine (longText_longPieces (Nat.zero_le _) hrest ?_).trans (by simp)
  simp only [List.length_append]
  omega

theorem text_longLiteral (hruns : longestRun '\'' s ≤ 2)
    (hplain : ∀ c ∈ s.toList, c = '\n' ∨ isPlain c = true) (hrest : rest.head? ≠ some '\'') :
    Grammar.text ((longLiteral s).toList ++ rest) = some (s, rest) := by
  have hnewline (h : '\n' ∉ s.toList) :
      newline (s.toList ++ (List.replicate 3 '\'' ++ rest)) = none := by
    cases hs : s.toList with
    | nil => exact newline_eq_none (by decide) (by decide) _
    | cons c cs =>
      rw [hs] at h hplain
      have hline : c ≠ '\n' := fun hc => h (by rw [hc]; exact List.mem_cons_self)
      have hc := (hplain c List.mem_cons_self).resolve_left hline
      exact newline_eq_none hline (ne_return_of_isPlain hc) _
  rw [toList_longLiteral, Grammar.text]
  show longText _ _ _ (dropFirstNewline ((leadingNewline s).toList ++
    (s.toList ++ (List.replicate 3 '\'' ++ rest)))) = _
  rw [dropFirstNewline_leading hnewline]
  refine (longText_literal (shortRuns_of_longestRun hruns) hplain hrest ?_).trans (by simp)
  simp only [List.length_append]
  omega

theorem text_basicQuoted (s : String) (hrest : rest.head? ≠ some '"') :
    Grammar.text ((basicQuoted s).toList ++ rest) = some (s, rest) := by
  have hthree (more : List Char) : escapedChars s.toList ++ '"' :: rest ≠ '"' :: '"' :: more := by
    intro h
    cases hs : s.toList with
    | nil =>
      rw [hs] at h
      exact hrest (by rw [(List.cons.inj h).2]; rfl)
    | cons c cs =>
      obtain ⟨d, tail, hpiece, hd⟩ := (piece_escapedPiece c).head
      rw [hs, escapedChars, List.flatMap_cons, hpiece] at h
      exact hd (List.cons.inj h).1
  rw [toList_basicQuoted, Grammar.text]
  · refine basicText_basicQuoted s rest ?_
    simp only [List.length_append, List.length_cons]
    omega
  · exact hthree

theorem text_literalQuoted (h : ∀ c ∈ s.toList, (isPlain c && c != '\'') = true)
    (hrest : rest.head? ≠ some '\'') :
    Grammar.text ((literalQuoted s).toList ++ rest) = some (s, rest) := by
  have hthree (more : List Char) : s.toList ++ '\'' :: rest ≠ '\'' :: '\'' :: more := by
    intro heq
    cases hs : s.toList with
    | nil =>
      rw [hs] at heq
      exact hrest (by rw [(List.cons.inj heq).2]; rfl)
    | cons c cs =>
      rw [hs] at heq h
      have hc := h c List.mem_cons_self
      rw [(List.cons.inj heq).1] at hc
      exact absurd hc (by decide)
  rw [toList_literalQuoted, Grammar.text]
  · rw [literalText_append h, String.ofList_toList]
  · exact hthree

theorem plain_of_needsEscape (h : needsEscape s = false) :
    ∀ c ∈ s.toList, c = '\n' ∨ isPlain c = true := by
  intro c hc
  have hsafe := List.any_eq_false.mp h c hc
  simp only [Bool.and_eq_true, bne_iff_ne, not_and_or, not_not, Bool.not_eq_true] at hsafe
  rw [isPlain_iff]
  rcases hsafe with (hcontrol | htab) | hline
  · exact Or.inr (Or.inl hcontrol)
  · exact Or.inr (Or.inr htab)
  · exact Or.inl hline

/-- A text is read as it was written, whatever quotes suit it. -/
theorem text_textForm (s : String) (hdouble : rest.head? ≠ some '"')
    (hsingle : rest.head? ≠ some '\'') :
    Grammar.text ((textForm s).toList ++ rest) = some (s, rest) := by
  unfold textForm
  dsimp only
  split
  · exact text_basicQuoted s hdouble
  split
  · rename_i h
    simp only [Bool.and_eq_true, Bool.not_eq_true', List.contains_eq_mem,
      decide_eq_false_iff_not] at h
    obtain ⟨⟨hescape, hquote⟩, hline⟩ := h
    refine text_literalQuoted (fun c hc => ?_) hsingle
    have hplain := (plain_of_needsEscape hescape c hc).resolve_left fun h => hline (h ▸ hc)
    rw [hplain, Bool.true_and, bne_iff_ne]
    exact fun h => hquote (h ▸ hc)
  split
  · exact text_longQuoted s hdouble
  split
  · rename_i h
    rw [Bool.and_eq_true, decide_eq_true_eq, Bool.not_eq_true'] at h
    exact text_longLiteral h.2 (plain_of_needsEscape h.1) hsingle
  split
  · exact text_longQuoted s hdouble
  · exact text_basicQuoted s hdouble

/-! ## Keys -/

theorem simpleKey_bare {key : String} (hkey : key ≠ "") (hbare : key.toList.all isBare = true)
    (hrest : ∀ c, rest.head? = some c → isBare c = false) :
    simpleKey (key.toList ++ rest) = some (key, rest) := by
  have hall := List.all_eq_true.mp hbare
  have htake : (key.toList ++ rest).takeWhile isBare = key.toList := by
    rw [List.takeWhile_append_of_pos hall]
    cases rest with
    | nil => simp
    | cons c rest => simp [hrest c rfl]
  have hdrop : (key.toList ++ rest).dropWhile isBare = rest := by
    rw [List.dropWhile_append_of_pos hall]
    cases rest with
    | nil => simp
    | cons c rest => simp [hrest c rfl]
  have hhead {quote : Char} (hquote : isBare quote = false) (more : List Char) :
      key.toList ++ rest ≠ quote :: more := by
    intro h
    cases hchars : key.toList with
    | nil => exact hkey (String.toList_eq_nil_iff.mp hchars)
    | cons c cs =>
      have hc := hall c (by rw [hchars]; exact List.mem_cons_self)
      rw [hchars] at h
      rw [(List.cons.inj h).1, hquote] at hc
      exact Bool.false_ne_true hc
  have hnonempty : key.toList.isEmpty = false := by
    rw [List.isEmpty_eq_false_iff]
    exact fun h => hkey (String.toList_eq_nil_iff.mp h)
  rw [simpleKey]
  · simp only [htake, hdrop, hnonempty, String.ofList_toList]
    rfl
  · exact hhead rfl
  · exact hhead rfl

theorem simpleKey_basicQuoted (key : String) :
    simpleKey ((basicQuoted key).toList ++ rest) = some (key, rest) := by
  rw [toList_basicQuoted]
  refine basicText_basicQuoted key rest ?_
  simp only [List.length_append, List.length_cons]
  omega

theorem simpleKey_keyForm (key : String) (hrest : ∀ c, rest.head? = some c → isBare c = false) :
    simpleKey ((keyForm key).toList ++ rest) = some (key, rest) := by
  unfold keyForm
  dsimp only
  split
  · rename_i h
    rw [Bool.and_eq_true, decide_eq_true_eq] at h
    exact simpleKey_bare h.1 h.2 hrest
  split
  · exact simpleKey_basicQuoted key
  split
  · rename_i h
    simp only [Bool.and_eq_true, Bool.not_eq_true', List.contains_eq_mem,
      decide_eq_false_iff_not, List.any_eq_false] at h
    have hliteral : ∀ c ∈ key.toList, (isPlain c && c != '\'') = true := by
      intro c hc
      have hcontrol := h.1 c hc
      rw [bne_iff_ne, not_and_or, not_not, Bool.not_eq_true] at hcontrol
      rw [isPlain_iff.mpr hcontrol, Bool.true_and, bne_iff_ne]
      exact fun heq => h.2 (heq ▸ hc)
    rw [toList_literalQuoted]
    show literalText (key.toList ++ '\'' :: rest) = _
    rw [literalText_append hliteral, String.ofList_toList]
  · exact simpleKey_basicQuoted key

end Forms

end PluginConsole.Toml
