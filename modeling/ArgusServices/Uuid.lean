import ArgusServices.HexText

namespace ArgusServices

open HexText

structure Uuid where
  int : BitVec 128
  deriving DecidableEq, Repr

def Uuid.hex (u : Uuid) : List Char :=
  hexDigits 32 u.int.toNat

def Uuid.chars (u : Uuid) : List Char :=
  u.hex.take 8 ++ '-' :: ((u.hex.drop 8).take 4 ++ '-' :: ((u.hex.drop 12).take 4 ++
    '-' :: ((u.hex.drop 16).take 4 ++ '-' :: u.hex.drop 20)))

/-- `str(uuid)`: the digits in groups of 8, 4, 4, 4 and 12. -/
def Uuid.str (u : Uuid) : String :=
  String.ofList u.chars

/-- `UUID(text)`; `none` is the ValueError. Prefixes, braces and hyphens are dropped
wherever they stand and 32 hexadecimal digits must remain. The signs, blanks and underscores that
`int(hex, 16)` lets pass among them are left out. -/
def Uuid.parse (text : String) : Option Uuid :=
  let hex := removeAll "uuid:".toList 0 (removeAll "urn:".toList 0 text.toList)
  let hex := (strip (fun c => c == '{' || c == '}') hex).filter (· ≠ '-')
  if hex.length = 32 then (ofHexDigits hex).map fun n => ⟨BitVec.ofNat 128 n⟩ else none

theorem Uuid.hex_length (u : Uuid) : u.hex.length = 32 :=
  hexDigits_length 32 _

theorem Uuid.ne_of_mem_hex {u : Uuid} {x c : Char} (hc : digitValue c = none) (h : x ∈ u.hex) :
    x ≠ c :=
  ne_of_mem_hexDigits hc h

theorem Uuid.mem_chars {u : Uuid} {x : Char} (h : x ∈ u.chars) : x = '-' ∨ x ∈ u.hex := by
  simp only [Uuid.chars, List.mem_append, List.mem_cons] at h
  rcases h with h | h | h | h | h | h | h | h | h
  · exact Or.inr (List.mem_of_mem_take h)
  · exact Or.inl h
  · exact Or.inr (List.mem_of_mem_drop (List.mem_of_mem_take h))
  · exact Or.inl h
  · exact Or.inr (List.mem_of_mem_drop (List.mem_of_mem_take h))
  · exact Or.inl h
  · exact Or.inr (List.mem_of_mem_drop (List.mem_of_mem_take h))
  · exact Or.inl h
  · exact Or.inr (List.mem_of_mem_drop h)

theorem Uuid.ne_of_mem_chars {u : Uuid} {x c : Char} (hc : digitValue c = none) (hh : c ≠ '-')
    (h : x ∈ u.chars) : x ≠ c := by
  rcases Uuid.mem_chars h with rfl | h
  · exact hh.symm
  · exact Uuid.ne_of_mem_hex hc h

theorem Uuid.filter_chars (u : Uuid) : u.chars.filter (· ≠ '-') = u.hex := by
  have keep : ∀ cs : List Char, (∀ x ∈ cs, x ∈ u.hex) → cs.filter (· ≠ '-') = cs := by
    intro cs h
    apply List.filter_eq_self.mpr
    intro x hx
    simpa using Uuid.ne_of_mem_hex (by decide) (h x hx)
  have hmid : ∀ n m : Nat, ∀ x ∈ (u.hex.drop n).take m, x ∈ u.hex :=
    fun n m x hx => List.mem_of_mem_drop (List.mem_of_mem_take hx)
  have hsplit : u.hex = u.hex.take 8 ++ ((u.hex.drop 8).take 4 ++ ((u.hex.drop 12).take 4 ++
      ((u.hex.drop 16).take 4 ++ u.hex.drop 20))) := by
    have step : ∀ n m, u.hex.drop n = (u.hex.drop n).take m ++ u.hex.drop (n + m) := by
      intro n m
      rw [← List.drop_drop, List.take_append_drop]
    rw [← step 16 4, ← step 12 4, ← step 8 4, List.take_append_drop]
  simp only [Uuid.chars, List.filter_append, List.filter_cons, ne_eq, not_true_eq_false,
    decide_false, Bool.false_eq_true, ↓reduceIte]
  rw [keep _ (fun x hx => List.mem_of_mem_take hx), keep _ (hmid 8 4), keep _ (hmid 12 4),
    keep _ (hmid 16 4), keep _ (fun x hx => List.mem_of_mem_drop hx)]
  exact hsplit.symm

/-- The textual form is read back as the identifier it came from. -/
theorem Uuid.parse_str (u : Uuid) : Uuid.parse u.str = some u := by
  have hurn : removeAll "urn:".toList 0 u.chars = u.chars :=
    removeAll_of_head_not_mem (fun h => Uuid.ne_of_mem_chars (by decide) (by decide) h rfl)
  have huuid : removeAll "uuid:".toList 0 u.chars = u.chars :=
    removeAll_of_head_not_mem (fun h => Uuid.ne_of_mem_chars (by decide) (by decide) h rfl)
  have hstrip : strip (fun c => c == '{' || c == '}') u.chars = u.chars := by
    apply strip_of_all_not
    intro c hc
    have hl := Uuid.ne_of_mem_chars (c := '{') (by decide) (by decide) hc
    have hr := Uuid.ne_of_mem_chars (c := '}') (by decide) (by decide) hc
    simp [hl, hr]
  have hval : ofHexDigits u.hex = some u.int.toNat := by
    apply ofHexDigits_hexDigits
    have := u.int.isLt
    omega
  simp only [Uuid.parse, Uuid.str, String.toList_ofList, hurn, huuid, hstrip, Uuid.filter_chars,
    Uuid.hex_length, ↓reduceIte, hval, Option.map_some, BitVec.ofNat_toNat, BitVec.setWidth_eq]

theorem Uuid.str_injective : Function.Injective Uuid.str := by
  intro u v h
  have hu := Uuid.parse_str u
  rw [h, Uuid.parse_str] at hu
  exact (Option.some.inj hu).symm

theorem Uuid.str_toList (u : Uuid) : u.str.toList = u.chars := by
  simp [Uuid.str]

theorem Uuid.chars_length (u : Uuid) : u.chars.length = 36 := by
  simp [Uuid.chars, Uuid.hex_length]

theorem Uuid.str_ne_empty (u : Uuid) : u.str ≠ "" := by
  intro h
  have hl := congrArg (fun s => s.toList.length) h
  simp [Uuid.str_toList, Uuid.chars_length] at hl

/-- Two texts that start with identifiers of equal width split in one way only. -/
theorem Uuid.str_append_inj {u v : Uuid} {s t : String} (h : u.str ++ s = v.str ++ t) :
    u = v ∧ s = t := by
  have hl := congrArg String.toList h
  simp only [String.toList_append, Uuid.str_toList] at hl
  obtain ⟨hu, hs⟩ := List.append_inj hl (by simp [Uuid.chars_length])
  refine ⟨Uuid.str_injective ?_, String.toList_inj.mp hs⟩
  simp [Uuid.str, hu]

end ArgusServices
