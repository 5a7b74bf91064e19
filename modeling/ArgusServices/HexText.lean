import Mathlib.Data.List.Basic
import Mathlib.Tactic.IntervalCases

namespace HexText

/-- The lower-case digit of a value below sixteen. -/
def hexDigit (n : Nat) : Char :=
  if n < 10 then Char.ofNat (48 + n) else Char.ofNat (87 + n)

/-- Digits are read in both cases. -/
def digitValue (c : Char) : Option Nat :=
  if '0' ≤ c ∧ c ≤ '9' then some (c.toNat - 48)
  else if 'a' ≤ c ∧ c ≤ 'f' then some (c.toNat - 87)
  else if 'A' ≤ c ∧ c ≤ 'F' then some (c.toNat - 55)
  else none

/-- The lowest `width` hexadecimal digits of a number, highest first. -/
def hexDigits : Nat → Nat → List Char
  | 0, _ => []
  | width + 1, n => hexDigits width (n / 16) ++ [hexDigit (n % 16)]

def ofHexDigits (cs : List Char) : Option Nat :=
  cs.foldlM (fun acc c => (digitValue c).map (16 * acc + ·)) 0

theorem digitValue_hexDigit {n : Nat} (h : n < 16) : digitValue (hexDigit n) = some n := by
  interval_cases n <;> decide

/-- No digit is one of the separators of a textual identifier. -/
theorem hexDigit_ne_of_digitValue_none {n : Nat} {c : Char} (h : n < 16)
    (hc : digitValue c = none) : hexDigit n ≠ c := by
  intro he
  have hv := digitValue_hexDigit h
  rw [he, hc] at hv
  cases hv

theorem hexDigits_length (width n : Nat) : (hexDigits width n).length = width := by
  induction width generalizing n with
  | zero => rfl
  | succ width ih => simp [hexDigits, ih]

theorem ne_of_mem_hexDigits {width n : Nat} {x c : Char} (hc : digitValue c = none)
    (h : x ∈ hexDigits width n) : x ≠ c := by
  induction width generalizing n with
  | zero => simp [hexDigits] at h
  | succ width ih =>
    rcases List.mem_append.mp h with h | h
    · exact ih h
    · rw [List.mem_singleton.mp h]
      exact hexDigit_ne_of_digitValue_none (Nat.mod_lt n (by omega)) hc

/-- Reading the digits back gives the number, when it fits the width. -/
theorem ofHexDigits_hexDigits {width n : Nat} (h : n < 16 ^ width) :
    ofHexDigits (hexDigits width n) = some n := by
  induction width generalizing n with
  | zero =>
    have hn : n = 0 := by simpa using h
    subst n
    rfl
  | succ width ih =>
    have hq : n / 16 < 16 ^ width := by
      rw [Nat.pow_succ] at h
      omega
    have hd := digitValue_hexDigit (Nat.mod_lt n (show 0 < 16 by omega))
    have hread := ih hq
    unfold ofHexDigits at hread ⊢
    simp only [hexDigits, List.foldlM_append, hread, List.foldlM_cons, List.foldlM_nil,
      Option.bind_eq_bind, Option.bind_some, hd, Option.map_some]
    simp [Nat.div_add_mod]

/-- Left-to-right removal of the occurrences of a pattern; `skip` counts the characters
of the occurrence being removed that are still to be passed. -/
def removeAll (pattern : List Char) : Nat → List Char → List Char
  | _, [] => []
  | skip + 1, _ :: cs => removeAll pattern skip cs
  | 0, c :: cs =>
    if pattern.isPrefixOf (c :: cs) then removeAll pattern (pattern.length - 1) cs
    else c :: removeAll pattern 0 cs

theorem removeAll_of_head_not_mem {p : Char} {ps cs : List Char} (h : p ∉ cs) :
    removeAll (p :: ps) 0 cs = cs := by
  induction cs with
  | nil => rfl
  | cons c cs ih =>
    have hne : p ≠ c := fun he => h (by simp [he])
    have hno : (p :: ps).isPrefixOf (c :: cs) = false := by simp [List.isPrefixOf, hne]
    simp [removeAll, hno, ih (fun hm => h (List.mem_cons_of_mem c hm))]

/-- Removal of a set of characters from both ends. -/
def strip (p : Char → Bool) (cs : List Char) : List Char :=
  ((cs.dropWhile p).reverse.dropWhile p).reverse

theorem dropWhile_of_all_not {p : Char → Bool} {cs : List Char} (h : ∀ c ∈ cs, p c = false) :
    cs.dropWhile p = cs := by
  cases cs with
  | nil => rfl
  | cons c cs => simp [List.dropWhile, h c (by simp)]

theorem strip_of_all_not {p : Char → Bool} {cs : List Char} (h : ∀ c ∈ cs, p c = false) :
    strip p cs = cs := by
  unfold strip
  rw [dropWhile_of_all_not h, dropWhile_of_all_not (fun c hc => h c (List.mem_reverse.mp hc)),
    List.reverse_reverse]

end HexText
