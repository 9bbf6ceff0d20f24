import Mathlib.Data.List.Forall2
import Mathlib.Data.List.TakeWhile
import Mathlib.Data.String.Basic
import PluginConsole.Text.Blank

/-!
# Blank texts and spellings

A text is blank if trimming leaves nothing of it. Two texts are spelled alike if they differ at most
in which of their ASCII letters are capitals.
-/

namespace PluginConsole.Text

/-! ## Blank texts -/

def Blank (s : String) : Prop :=
  trim s = ""

instance (s : String) : Decidable (Blank s) :=
  inferInstanceAs (Decidable (_ = _))

theorem trimChars_eq_nil {cs : List Char} : trimChars cs = [] ↔ ∀ c ∈ cs, isBlank c = true := by
  unfold trimChars trimEndChars trimStartChars
  rw [List.reverse_eq_nil_iff, List.dropWhile_eq_nil_iff]
  constructor
  · intro hend
    by_contra hsolid
    -- The first character that is not blank is still there after the trimming on the left.
    have hstart : cs.dropWhile isBlank ≠ [] := fun hnil =>
      hsolid (List.dropWhile_eq_nil_iff.mp hnil)
    have hblank := hend _ (List.mem_reverse.mpr (List.head_mem hstart))
    rw [List.head_dropWhile_not isBlank hstart] at hblank
    cases hblank
  · intro hall c hc
    exact hall c ((List.dropWhile_sublist isBlank).mem (List.mem_reverse.mp hc))

theorem isBlankText_iff {s : String} : isBlankText s = true ↔ Blank s := by
  have hempty : Blank s ↔ trimChars s.toList = [] := by
    unfold Blank trim
    rw [← String.toList_inj, String.toList_ofList]
    rfl
  rw [hempty, trimChars_eq_nil, isBlankText, List.all_eq_true]

/-! ## Texts without their ends -/

section Ends

variable {p : Char → Bool} {cs inner : List Char}

theorem dropWhile_eq_self (h : ∀ c ∈ cs.head?, ¬ p c) : cs.dropWhile p = cs := by
  cases cs with
  | nil => rfl
  | cons c cs => exact List.dropWhile_cons_of_neg (h c rfl)

theorem takeWhile_eq_nil (h : ∀ c ∈ cs.head?, ¬ p c) : cs.takeWhile p = [] := by
  cases cs with
  | nil => rfl
  | cons c cs => exact List.takeWhile_cons_of_neg (h c rfl)

theorem head_dropWhile (p : Char → Bool) (cs : List Char) :
    ∀ c ∈ (cs.dropWhile p).head?, ¬ p c := by
  intro c hc
  have hstop := List.head?_dropWhile_not p cs
  rw [hc] at hstop
  simpa using hstop

/-- What is left of a text without the characters of one kind at its ends. -/
structure Stripped (p : Char → Bool) (cs inner : List Char) : Prop where
  around : ∃ before after, cs = before ++ inner ++ after ∧ (∀ c ∈ before, p c) ∧ ∀ c ∈ after, p c
  head : ∀ c ∈ inner.head?, ¬ p c
  last : ∀ c ∈ inner.getLast?, ¬ p c

theorem Stripped.eq (h : Stripped p cs inner) :
    inner = ((cs.dropWhile p).reverse.dropWhile p).reverse := by
  obtain ⟨⟨before, after, rfl, hbefore, hafter⟩, hhead, hlast⟩ := h
  have hafter' : ∀ c ∈ after.reverse, p c := fun c hc => hafter c (List.mem_reverse.mp hc)
  rw [List.append_assoc, List.dropWhile_append_of_pos hbefore]
  by_cases hempty : inner = []
  · rw [hempty, List.nil_append, List.dropWhile_eq_nil_iff.mpr hafter]
    rfl
  · have hhead' : ∀ c ∈ (inner ++ after).head?, ¬ p c := by
      rwa [List.head?_append_of_ne_nil _ hempty]
    have hlast' : ∀ c ∈ inner.reverse.head?, ¬ p c := by rwa [List.head?_reverse]
    rw [dropWhile_eq_self hhead', List.reverse_append, List.dropWhile_append_of_pos hafter',
      dropWhile_eq_self hlast', List.reverse_reverse]

theorem stripped_dropWhile (p : Char → Bool) (cs : List Char) :
    Stripped p cs ((cs.dropWhile p).reverse.dropWhile p).reverse := by
  have hend : cs.dropWhile p = ((cs.dropWhile p).reverse.dropWhile p).reverse ++
      ((cs.dropWhile p).reverse.takeWhile p).reverse := by
    rw [← List.reverse_append, List.takeWhile_append_dropWhile, List.reverse_reverse]
  refine ⟨⟨cs.takeWhile p, ((cs.dropWhile p).reverse.takeWhile p).reverse, ?_, ?_, ?_⟩, ?_, ?_⟩
  · rw [List.append_assoc, ← hend, List.takeWhile_append_dropWhile]
  · exact fun c hc => List.mem_takeWhile_imp hc
  · exact fun c hc => List.mem_takeWhile_imp (List.mem_reverse.mp hc)
  · intro c hc
    refine head_dropWhile p cs c ?_
    rw [hend, List.head?_append, hc]
    rfl
  · intro c hc
    rw [List.getLast?_reverse] at hc
    exact head_dropWhile p _ c hc

theorem stripped_trimChars (cs : List Char) : Stripped isBlank cs (trimChars cs) :=
  stripped_dropWhile isBlank cs

theorem Stripped.eq_trimChars (h : Stripped isBlank cs inner) : inner = trimChars cs :=
  h.eq

end Ends

/-! ## Spellings -/

/-- One character, or one ASCII letter as a capital and as a small one. -/
def SameLetter (a b : Char) : Prop :=
  a = b ∨ (a.isUpper ∧ b.toNat = a.toNat + 32) ∨ (b.isUpper ∧ a.toNat = b.toNat + 32)

instance (a b : Char) : Decidable (SameLetter a b) :=
  inferInstanceAs (Decidable (_ ∨ _))

def SpelledAlike (s t : String) : Prop :=
  List.Forall₂ SameLetter s.toList t.toList

instance (s t : String) : Decidable (SpelledAlike s t) :=
  inferInstanceAs (Decidable (List.Forall₂ SameLetter s.toList t.toList))

theorem isUpper_iff {c : Char} : c.isUpper = true ↔ 65 ≤ c.toNat ∧ c.toNat ≤ 90 := by
  show decide ('A'.val ≤ c.val ∧ c.val ≤ 'Z'.val) = true ↔ _
  rw [decide_eq_true_iff, UInt32.le_iff_toNat_le, UInt32.le_iff_toNat_le]
  exact Iff.rfl

theorem isLower_iff {c : Char} : c.isLower = true ↔ 97 ≤ c.toNat ∧ c.toNat ≤ 122 := by
  show (decide ('a'.val ≤ c.val) && decide (c.val ≤ 'z'.val)) = true ↔ _
  rw [Bool.and_eq_true, decide_eq_true_iff, decide_eq_true_iff, UInt32.le_iff_toNat_le,
    UInt32.le_iff_toNat_le]
  exact Iff.rfl

theorem toNat_toLower (c : Char) :
    c.toLower.toNat = if c.isUpper then c.toNat + 32 else c.toNat := by
  by_cases h : c.isUpper
  · have hrange := isUpper_iff.mp h
    have hcapital : c.val ≥ 'A'.val ∧ c.val ≤ 'Z'.val := of_decide_eq_true h
    have hsum : (c.val + ('a'.val - 'A'.val)).toNat = c.toNat + 32 := by
      rw [UInt32.toNat_add, Char.toNat_val]
      exact Nat.mod_eq_of_lt (show c.toNat + 32 < 2 ^ 32 by omega)
    rw [if_pos h]
    exact (congrArg Char.toNat (dif_pos hcapital)).trans hsum
  · have hother : ¬ (c.val ≥ 'A'.val ∧ c.val ≤ 'Z'.val) := fun hc => h (decide_eq_true hc)
    rw [if_neg h]
    exact congrArg Char.toNat (dif_neg hother)

theorem toLower_eq_iff {a b : Char} : a.toLower = b.toLower ↔ SameLetter a b := by
  rw [← Char.toNat_inj, toNat_toLower, toNat_toLower, SameLetter, ← Char.toNat_inj]
  have ha := isUpper_iff (c := a)
  have hb := isUpper_iff (c := b)
  grind

theorem toLower_eq_iff_of_not_isAlpha {c d : Char} (hd : d.isAlpha = false) :
    c.toLower = d ↔ c = d := by
  have hcapital := isUpper_iff (c := d)
  have hsmall := isLower_iff (c := d)
  have hc := isUpper_iff (c := c)
  replace hd : d.isUpper = false ∧ d.isLower = false := Bool.or_eq_false_iff.mp hd
  rw [← Char.toNat_inj, ← Char.toNat_inj, toNat_toLower]
  grind

theorem map_toLower_eq_iff {cs ds : List Char} :
    cs.map Char.toLower = ds.map Char.toLower ↔ List.Forall₂ SameLetter cs ds := by
  rw [← List.forall₂_eq_eq_eq, List.forall₂_map_left_iff, List.forall₂_map_right_iff]
  simp only [toLower_eq_iff]

theorem lowerAscii_eq_iff {s t : String} : lowerAscii s = lowerAscii t ↔ SpelledAlike s t := by
  unfold lowerAscii
  rw [← String.toList_inj, String.toList_map, String.toList_map, map_toLower_eq_iff]
  exact Iff.rfl

theorem isBlank_toLower (c : Char) : isBlank c.toLower = isBlank c := by
  by_cases h : c.isUpper
  · have hrange := isUpper_iff.mp h
    have hsmall : c.toLower.toNat = c.toNat + 32 := by rw [toNat_toLower, if_pos h]
    -- No letter is a blank, neither the capital nor the small one.
    have hblank (d : Char) (hd : 65 ≤ d.toNat ∧ d.toNat ≤ 122) : isBlank d = false := by
      unfold isBlank
      grind
    rw [hblank c (by omega), hblank c.toLower (by omega)]
  · rw [Char.toNat_inj.mp ((toNat_toLower c).trans (if_neg h))]

end PluginConsole.Text
