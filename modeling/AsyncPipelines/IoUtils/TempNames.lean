import Mathlib.Data.List.Infix

/-!
The names of the temporary files of `io_utils.py`: `_name_bytes`,
`_cap_base_for_temp` and the candidates that `_create_temp` draws.
-/

namespace AsyncPipelines

/-- A character of a Python `str` that names a file: a Unicode scalar value, or a byte
that is not valid UTF-8 and was decoded with `surrogateescape`. -/
inductive PyChar
  | scalar (c : Char)
  | escaped (byte : UInt8)
  deriving DecidableEq

abbrev Name := List PyChar

def Name.ofString (s : String) : Name := s.toList.map PyChar.scalar

/-- `os.fsencode` of one character. -/
def PyChar.fsencode : PyChar → List UInt8
  | scalar c => String.utf8EncodeChar c
  | escaped byte => [byte]

def Name.fsencode (name : Name) : List UInt8 := name.flatMap PyChar.fsencode

/-- `_name_bytes`. -/
def nameBytes (base : Name) : Nat := base.fsencode.length

/-- `_MAX_TEMP_BASE_BYTES`. -/
def maxTempBaseBytes : Nat := 200

/-- The `while` loop of `_cap_base_for_temp`. -/
def trimBase (out : Name) : Name :=
  if out ≠ [] ∧ maxTempBaseBytes < nameBytes out then trimBase out.dropLast else out
termination_by out.length
decreasing_by
  rename_i long
  have positive := List.length_pos_of_ne_nil long.1
  simp only [List.length_dropLast]
  omega

/-- `_cap_base_for_temp`. -/
def capBaseForTemp (base : Name) : Name :=
  if nameBytes base ≤ maxTempBaseBytes then base else trimBase base

/-- What `secrets.token_hex(4)` draws. -/
structure Token where
  digits : List (Fin 16)
  eight : digits.length = 8

def hexDigit (digit : Fin 16) : PyChar := .scalar (Nat.digitChar digit)

/-- The name of a candidate in `_create_temp`. -/
def tempName (base : Name) (token : Token) : Name :=
  Name.ofString "." ++ capBaseForTemp base ++ Name.ofString "." ++ token.digits.map hexDigit ++
    Name.ofString ".tmp"

theorem nameBytes_append (front back : Name) :
    nameBytes (front ++ back) = nameBytes front + nameBytes back := by
  simp [nameBytes, Name.fsencode, List.flatMap_append]

theorem prefix_dropLast {front name : Name} (isPrefix : front <+: name) (shorter : front ≠ name) :
    front <+: name.dropLast := by
  obtain ⟨back, rfl⟩ := isPrefix
  induction back using List.reverseRecOn with
  | nil => simp at shorter
  | append_singleton rest last ih =>
      rw [← List.append_assoc, List.dropLast_concat]
      exact List.prefix_append front rest

theorem trimBase_prefix (out : Name) : trimBase out <+: out := by
  induction out using trimBase.induct with
  | case1 out long ih =>
      rw [trimBase, if_pos long]
      exact ih.trans (List.dropLast_prefix out)
  | case2 out short =>
      rw [trimBase, if_neg short]

theorem trimBase_fits (out : Name) : nameBytes (trimBase out) ≤ maxTempBaseBytes := by
  induction out using trimBase.induct with
  | case1 out long ih =>
      rw [trimBase, if_pos long]
      exact ih
  | case2 out short =>
      rw [trimBase, if_neg short]
      by_cases empty : out = []
      · simp [empty, nameBytes, Name.fsencode]
      · by_contra tooLong
        exact short ⟨empty, by omega⟩

theorem trimBase_longest (out front : Name) (isPrefix : front <+: out)
    (fits : nameBytes front ≤ maxTempBaseBytes) : front <+: trimBase out := by
  induction out using trimBase.induct with
  | case1 out long ih =>
      rw [trimBase, if_pos long]
      apply ih
      apply prefix_dropLast isPrefix
      rintro rfl
      omega
  | case2 out short =>
      rw [trimBase, if_neg short]
      exact isPrefix

theorem tempName_bytes (base : Name) (token : Token) :
    nameBytes (tempName base token) = nameBytes (capBaseForTemp base) + 14 := by
  have digits : ∀ list : List (Fin 16), nameBytes (list.map hexDigit) = list.length := by
    intro list
    induction list with
    | nil => rfl
    | cons digit rest ih =>
        have one : nameBytes [hexDigit digit] = 1 := by
          revert digit
          decide
        rw [List.map_cons, ← List.singleton_append, nameBytes_append, ih, one, List.length_cons]
        omega
  have dot : nameBytes (Name.ofString ".") = 1 := by decide
  have suffix : nameBytes (Name.ofString ".tmp") = 4 := by decide
  simp only [tempName, nameBytes_append, digits, dot, suffix, token.eight]
  omega

theorem capBaseForTemp_fits (base : Name) : nameBytes (capBaseForTemp base) ≤ maxTempBaseBytes := by
  unfold capBaseForTemp
  split
  · assumption
  · exact trimBase_fits base

theorem tempName_short (base : Name) (token : Token) : nameBytes (tempName base token) ≤ 214 := by
  have short : nameBytes (capBaseForTemp base) ≤ 200 := capBaseForTemp_fits base
  rw [tempName_bytes]
  omega

end AsyncPipelines
