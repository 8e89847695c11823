import Mathlib.Data.List.Basic

/-!
# Text and decimal numbers as bytes

A protocol that frames text by bytes needs three facts about strings: decoding
inverts UTF-8 encoding, an ASCII byte occurs in the encoding exactly where its
character occurs in the text, and reading a printed decimal number gives the
number back.  Integer parsing follows the usual grammar of fixed-width types:
an optional sign, at least one decimal digit, and an error outside the range of
the type.
-/

namespace AerugoCache.ByteText

abbrev Bytes := List UInt8

/-! ### UTF-8 -/

/-- The bytes of a string. -/
def utf8 (s : String) : Bytes := s.toByteArray.data.toList

/-- The string with the given bytes, if they are valid UTF-8. -/
def fromUtf8 (bytes : Bytes) : Option String := String.fromUTF8? ⟨bytes.toArray⟩

@[simp] theorem fromUtf8_utf8 (s : String) : fromUtf8 (utf8 s) = some s := by
  have hvalid : ByteArray.IsValidUTF8 ⟨(utf8 s).toArray⟩ := by
    simpa [utf8] using s.isValidUTF8
  rw [fromUtf8, String.fromUTF8?, dif_pos hvalid]
  simp [String.fromUTF8, utf8]

theorem utf8_of_fromUtf8 {bytes : Bytes} {s : String} (h : fromUtf8 bytes = some s) :
    utf8 s = bytes := by
  rw [fromUtf8, String.fromUTF8?] at h
  split at h
  · cases h
    simp [utf8, String.fromUTF8]
  · cases h

theorem utf8_injective : Function.Injective utf8 := by
  intro s t h
  have hdecoded := congrArg fromUtf8 h
  rw [fromUtf8_utf8, fromUtf8_utf8] at hdecoded
  exact Option.some.inj hdecoded

@[simp] theorem utf8_append (s t : String) : utf8 (s ++ t) = utf8 s ++ utf8 t := by
  simp [utf8]

theorem utf8_eq_flatMap (s : String) : utf8 s = s.toList.flatMap String.utf8EncodeChar := by
  have h : s.toByteArray = (s.toList.flatMap String.utf8EncodeChar).toByteArray :=
    String.utf8Encode_toList.symm
  rw [utf8, h]
  simp

theorem length_utf8_le (s : String) : (utf8 s).length ≤ 4 * s.toList.length := by
  rw [utf8_eq_flatMap]
  induction s.toList with
  | nil => exact Nat.le_refl _
  | cons c cs ih =>
    have hc := Char.utf8Size_le_four c
    simp only [List.flatMap_cons, List.length_append, String.length_utf8EncodeChar,
      List.length_cons]
    omega

/-- Below 128 a byte of an encoded character is that character. -/
theorem mem_utf8EncodeChar_ascii {c d : Char} (hc : c.toNat < 128) :
    UInt8.ofNat c.toNat ∈ String.utf8EncodeChar d ↔ c = d := by
  have hd : d.val.toNat < 0x110000 := by
    have := d.valid
    simp only [UInt32.isValidChar, Nat.isValidChar] at this
    omega
  have hcd : c = d ↔ c.toNat = d.val.toNat := by
    rw [← Char.toNat_inj]
    rfl
  rw [hcd]
  fun_cases String.utf8EncodeChar <;>
    simp only [List.mem_cons, List.not_mem_nil, or_false, ← UInt8.toNat_inj, UInt8.toNat_ofNat'] <;>
    omega

/-- An ASCII character's byte occurs in the encoding exactly where the
character occurs in the text: the other characters encode to bytes from 128 on. -/
theorem mem_utf8_ascii {s : String} {c : Char} (hc : c.toNat < 128) :
    UInt8.ofNat c.toNat ∈ utf8 s ↔ c ∈ s.toList := by
  rw [utf8_eq_flatMap, List.mem_flatMap]
  constructor
  · rintro ⟨d, hd, hmem⟩
    rwa [(mem_utf8EncodeChar_ascii hc).mp hmem]
  · intro hmem
    exact ⟨c, hmem, (mem_utf8EncodeChar_ascii hc).mpr rfl⟩

/-! ### Decimal numbers -/

/-- A non-empty run of decimal digits. -/
def parseDigits (digits : List Char) : Option Nat :=
  if digits ≠ [] ∧ digits.all Char.isDigit then some (Nat.ofDigitChars 10 digits 0) else none

/-- `str::parse` for an unsigned type with the values below `limit`. -/
def parseUnsigned (limit : Nat) (s : String) : Option Nat :=
  let value := match s.toList with
    | '+' :: digits => parseDigits digits
    | digits => parseDigits digits
  value.filter (· < limit)

/-- `str::parse` for a signed type with the values from `-limit` to `limit - 1`. -/
def parseSigned (limit : Nat) (s : String) : Option Int :=
  let value : Option Int := match s.toList with
    | '-' :: digits => (parseDigits digits).map fun n => -(n : Int)
    | '+' :: digits => (parseDigits digits).map fun n => (n : Int)
    | digits => (parseDigits digits).map fun n => (n : Int)
  value.filter fun v => -(limit : Int) ≤ v ∧ v < limit

@[simp] theorem parseDigits_toDigits (n : Nat) : parseDigits (Nat.toDigits 10 n) = some n := by
  have hdigits : (Nat.toDigits 10 n).all Char.isDigit = true :=
    List.all_eq_true.mpr fun c hc => Nat.isDigit_of_mem_toDigits (by decide) (by decide) hc
  rw [parseDigits, if_pos ⟨Nat.toDigits_ne_nil, hdigits⟩,
    Nat.ofDigitChars_toDigits (by decide) (by decide)]

/-- A printed number starts with a digit, so no sign is read off it. -/
theorem toDigits_eq_cons (n : Nat) :
    ∃ c digits, Nat.toDigits 10 n = c :: digits ∧ c ≠ '+' ∧ c ≠ '-' := by
  obtain ⟨c, digits, h⟩ := List.exists_cons_of_ne_nil (Nat.toDigits_ne_nil (n := n) (b := 10))
  have hdigit : c.isDigit := Nat.isDigit_of_mem_toDigits (b := 10) (n := n)
    (by decide) (by decide) (by rw [h]; exact List.mem_cons_self)
  refine ⟨c, digits, h, ?_, ?_⟩ <;>
    · rintro rfl
      exact absurd hdigit (by decide)

theorem parseUnsigned_toString {limit n : Nat} (h : n < limit) :
    parseUnsigned limit (toString n) = some n := by
  obtain ⟨c, digits, hcons, hplus, -⟩ := toDigits_eq_cons n
  have hparse := parseDigits_toDigits n
  rw [hcons] at hparse
  simp only [parseUnsigned, Nat.toString_eq_repr, Nat.toList_repr, hcons]
  split
  · rename_i heq
    cases heq
    exact absurd rfl hplus
  · simp [hparse, h]

theorem toList_toString_int (v : Int) :
    (toString v).toList =
      if v < 0 then '-' :: Nat.toDigits 10 v.natAbs else Nat.toDigits 10 v.natAbs := by
  cases v with
  | ofNat n => simp [toString, Int.repr]
  | negSucc n => simp [toString, Int.repr]

/-- A printed number holds digits and at most a sign. -/
theorem notMem_toString {c : Char} (hdigit : c.isDigit = false) (hsign : c ≠ '-') (v : Int) :
    c ∉ (toString v).toList := by
  have hdigits : c ∉ Nat.toDigits 10 v.natAbs := by
    intro hmem
    have := Nat.isDigit_of_mem_toDigits (b := 10) (by decide) (by decide) hmem
    rw [hdigit] at this
    cases this
  rw [toList_toString_int]
  split
  · simpa [hsign] using hdigits
  · exact hdigits

theorem parseSigned_toString {limit : Nat} {v : Int} (hlow : -(limit : Int) ≤ v)
    (hhigh : v < limit) : parseSigned limit (toString v) = some v := by
  obtain ⟨c, digits, hcons, hplus, hminus⟩ := toDigits_eq_cons v.natAbs
  have hparse := parseDigits_toDigits v.natAbs
  rw [parseSigned, toList_toString_int]
  by_cases hneg : v < 0
  · have habs : -((v.natAbs : Nat) : Int) = v := by omega
    simp only [if_pos hneg, hparse]
    change Option.filter _ (some (-((v.natAbs : Nat) : Int))) = some v
    rw [habs, Option.filter_some, if_pos (by simp [hlow, hhigh])]
  · have habs : ((v.natAbs : Nat) : Int) = v := by omega
    rw [hcons] at hparse
    simp only [if_neg hneg, hcons]
    split
    · rename_i heq
      cases heq
      exact absurd rfl hminus
    · rename_i heq
      cases heq
      exact absurd rfl hplus
    · simp only [hparse]
      simp [habs, hlow, hhigh]

theorem toString_int_injective : Function.Injective (toString : Int → String) := by
  intro v v' h
  have hparse : parseSigned (v.natAbs + v'.natAbs + 1) (toString v) = some v :=
    parseSigned_toString (by omega) (by omega)
  have hparse' : parseSigned (v.natAbs + v'.natAbs + 1) (toString v') = some v' :=
    parseSigned_toString (by omega) (by omega)
  rw [h, hparse'] at hparse
  exact (Option.some.inj hparse).symm

/-! ### Beginnings of a printed number -/

/-- The beginnings of the digits of a number are the digits of smaller numbers. -/
theorem exists_toDigits_of_beginning {n : Nat} {digits : List Char}
    (hbegin : digits <+: Nat.toDigits 10 n) (hne : digits ≠ []) :
    ∃ m, digits = Nat.toDigits 10 m ∧ m ≤ n ∧ (0 < n → 0 < m) := by
  induction n using Nat.strongRecOn with
  | ind n ih =>
    by_cases hsmall : n < 10
    · rw [Nat.toDigits_of_lt_base hsmall] at hbegin
      refine ⟨n, ?_, Nat.le_refl n, fun h => h⟩
      rw [Nat.toDigits_of_lt_base hsmall]
      simpa [List.prefix_cons_iff, hne] using hbegin
    · rw [Nat.toDigits_of_base_le (by decide) (Nat.le_of_not_lt hsmall),
        List.prefix_concat_iff] at hbegin
      rcases hbegin with hwhole | hshort
      · refine ⟨n, ?_, Nat.le_refl n, fun h => h⟩
        rw [hwhole, ← Nat.toDigits_of_base_le (by decide) (Nat.le_of_not_lt hsmall)]
      · obtain ⟨m, hdigits, hle, hpos⟩ := ih (n / 10) (by omega) hshort
        exact ⟨m, hdigits, by omega, fun _ => hpos (by omega)⟩

/-- ASCII text has one byte for each character. -/
theorem utf8_of_ascii {text : String} (h : ∀ c ∈ text.toList, c.toNat < 128) :
    utf8 text = text.toList.map fun c => UInt8.ofNat c.toNat := by
  rw [utf8_eq_flatMap]
  generalize text.toList = chars at h ⊢
  induction chars with
  | nil => rfl
  | cons c cs ih =>
    have hc : c.toNat < 128 := h c List.mem_cons_self
    have hsingle : String.utf8EncodeChar c = [UInt8.ofNat c.toNat] := by
      fun_cases String.utf8EncodeChar c with
      | case1 => rfl
      | _ =>
        have : c.toNat = c.val.toNat := rfl
        omega
    rw [List.flatMap_cons, List.map_cons, hsingle, ih fun d hd => h d (List.mem_cons_of_mem _ hd)]
    rfl

theorem utf8_toString_nat (n : Nat) :
    utf8 (toString n) = (Nat.toDigits 10 n).map fun c => UInt8.ofNat c.toNat := by
  have hascii : ∀ c ∈ (toString n).toList, c.toNat < 128 := by
    intro c hc
    rw [Nat.toString_eq_repr, Nat.toList_repr] at hc
    have hdigit := Char.isDigit_iff_toNat.mp (Nat.isDigit_of_mem_toDigits (b := 10)
      (by decide) (by decide) hc)
    exact Nat.lt_of_le_of_lt hdigit.2 (by decide)
  rw [utf8_of_ascii hascii, Nat.toString_eq_repr, Nat.toList_repr]

/-- A non-empty beginning of a printed number is a printed number. -/
theorem exists_toString_of_beginning {n : Nat} {bytes : Bytes} (hbegin : bytes <+: utf8 (toString n))
    (hne : bytes ≠ []) : ∃ m : Nat, bytes = utf8 (toString m) ∧ m ≤ n ∧ (0 < n → 0 < m) := by
  rw [utf8_toString_nat, List.prefix_map_iff] at hbegin
  obtain ⟨digits, hdigits, rfl⟩ := hbegin
  obtain ⟨m, rfl, hm⟩ := exists_toDigits_of_beginning hdigits (by simpa using hne)
  exact ⟨m, (utf8_toString_nat m).symm, hm⟩

/-! A character that is neither a digit nor a sign makes no number. -/

theorem parseDigits_eq_none {digits : List Char} {c : Char} (hc : c ∈ digits)
    (hdigit : c.isDigit = false) : parseDigits digits = none := by
  rw [parseDigits, if_neg]
  rintro ⟨-, hall⟩
  rw [List.all_eq_true.mp hall c hc] at hdigit
  cases hdigit

theorem parseUnsigned_eq_none {limit : Nat} {s : String} {c : Char} (hc : c ∈ s.toList)
    (hdigit : c.isDigit = false) (hplus : c ≠ '+') : parseUnsigned limit s = none := by
  unfold parseUnsigned
  split
  · rename_i digits heq
    rw [heq, List.mem_cons] at hc
    rw [parseDigits_eq_none (hc.resolve_left hplus) hdigit]
    rfl
  · rw [parseDigits_eq_none hc hdigit]
    rfl

theorem parseSigned_eq_none {limit : Nat} {s : String} {c : Char} (hc : c ∈ s.toList)
    (hdigit : c.isDigit = false) (hplus : c ≠ '+') (hminus : c ≠ '-') :
    parseSigned limit s = none := by
  unfold parseSigned
  split
  · rename_i digits heq
    rw [heq, List.mem_cons] at hc
    rw [parseDigits_eq_none (hc.resolve_left hminus) hdigit]
    rfl
  · rename_i digits heq
    rw [heq, List.mem_cons] at hc
    rw [parseDigits_eq_none (hc.resolve_left hplus) hdigit]
    rfl
  · rw [parseDigits_eq_none hc hdigit]
    rfl

end AerugoCache.ByteText
