import AerugoCache.ByteText

/-!
# Numerals

The texts that are read as a number: digits, with leading zeros, behind at most one sign.
A number below the limit of its type is read from each of its texts, and from no other.
-/

namespace AerugoCache.ByteText

/-- A non-empty run of digits with this value. -/
structure Digits (text : List Char) (n : Nat) : Prop where
  nonempty : text ≠ []
  digits : ∀ c ∈ text, c.isDigit = true
  value : Nat.ofDigitChars 10 text 0 = n

/-- The texts of a natural number. -/
inductive Natural : List Char → Nat → Prop
  | plain {text : List Char} {n : Nat} : Digits text n → Natural text n
  | plus {text : List Char} {n : Nat} : Digits text n → Natural ('+' :: text) n

/-- The texts of an integer. -/
inductive Integer : List Char → Int → Prop
  | natural {text : List Char} {n : Nat} : Natural text n → Integer text n
  | minus {text : List Char} {n : Nat} : Digits text n → Integer ('-' :: text) (-n)

theorem digits_toDigits (n : Nat) : Digits (Nat.toDigits 10 n) n where
  nonempty := Nat.toDigits_ne_nil
  digits := fun _ hc => Nat.isDigit_of_mem_toDigits (by decide) (by decide) hc
  value := Nat.ofDigitChars_toDigits (by decide) (by decide)

theorem Digits.not_cons {text : List Char} {n : Nat} {c : Char} (h : Digits (c :: text) n)
    (hc : c.isDigit = false) : False := by
  have hdigit := h.digits c List.mem_cons_self
  rw [hc] at hdigit
  cases hdigit

theorem parseDigits_eq_some {text : List Char} {n : Nat} :
    parseDigits text = some n ↔ Digits text n := by
  unfold parseDigits
  constructor
  · intro h
    split at h
    · rename_i hdigits
      exact ⟨hdigits.1, List.all_eq_true.mp hdigits.2, Option.some.inj h⟩
    · cases h
  · intro h
    rw [if_pos ⟨h.nonempty, List.all_eq_true.mpr h.digits⟩, h.value]

/-- **An unsigned number** is read from its texts. -/
theorem parseUnsigned_eq_some {limit n : Nat} {s : String} :
    parseUnsigned limit s = some n ↔ Natural s.toList n ∧ n < limit := by
  unfold parseUnsigned
  rw [Option.filter_eq_some_iff, decide_eq_true_eq]
  refine and_congr_left fun _ => ?_
  split
  · rename_i text htext
    rw [htext, parseDigits_eq_some]
    constructor
    · exact Natural.plus
    · intro h
      cases h with
      | plain h => exact (h.not_cons rfl).elim
      | plus h => exact h
  · rename_i hplus
    rw [parseDigits_eq_some]
    constructor
    · exact Natural.plain
    · intro h
      generalize s.toList = text at h hplus
      cases h with
      | plain h => exact h
      | plus h => exact absurd rfl (hplus _)

/-- The digits of a number, as an integer. -/
theorem digits_eq_some {text : List Char} {v : Int} :
    (do let n ← parseDigits text; pure (n : Int)) = some v ↔ ∃ n : Nat, Digits text n ∧ n = v := by
  cases hparse : parseDigits text with
  | none =>
    constructor
    · intro h
      cases h
    · rintro ⟨n, hn, -⟩
      rw [parseDigits_eq_some.mpr hn] at hparse
      cases hparse
  | some n =>
    constructor
    · intro h
      exact ⟨n, parseDigits_eq_some.mp hparse, Option.some.inj h⟩
    · rintro ⟨m, hm, rfl⟩
      rw [parseDigits_eq_some.mpr hm] at hparse
      cases hparse
      rfl

/-- **A signed number** is read from its texts. -/
theorem parseSigned_eq_some {limit : Nat} {v : Int} {s : String} :
    parseSigned limit s = some v ↔ Integer s.toList v ∧ -(limit : Int) ≤ v ∧ v < limit := by
  unfold parseSigned
  rw [Option.filter_eq_some_iff, decide_eq_true_eq]
  refine and_congr_left fun _ => ?_
  split
  · rename_i text htext
    rw [htext, Option.map_eq_some_iff]
    constructor
    · rintro ⟨v, hv, rfl⟩
      obtain ⟨n, hn, rfl⟩ := digits_eq_some.mp hv
      exact .minus hn
    · intro h
      cases h with
      | natural h =>
        cases h with
        | plain h => exact (h.not_cons rfl).elim
      | minus h => exact ⟨_, digits_eq_some.mpr ⟨_, h, rfl⟩, rfl⟩
  · rename_i text htext
    rw [htext, Option.map_eq_some_iff]
    constructor
    · rintro ⟨v, hv, rfl⟩
      obtain ⟨n, hn, rfl⟩ := digits_eq_some.mp hv
      exact .natural (.plus hn)
    · intro h
      cases h with
      | natural h =>
        cases h with
        | plain h => exact (h.not_cons rfl).elim
        | plus h => exact ⟨_, digits_eq_some.mpr ⟨_, h, rfl⟩, rfl⟩
  · rename_i hminus hplus
    rw [Option.map_eq_some_iff]
    constructor
    · rintro ⟨v, hv, rfl⟩
      obtain ⟨n, hn, rfl⟩ := digits_eq_some.mp hv
      exact .natural (.plain hn)
    · intro h
      generalize s.toList = text at h hminus hplus
      cases h with
      | natural h =>
        cases h with
        | plain h => exact ⟨_, digits_eq_some.mpr ⟨_, h, rfl⟩, rfl⟩
        | plus h => exact absurd rfl (hplus _)
      | minus h => exact absurd rfl (hminus _)

/-- A printed number is one of its texts. -/
theorem natural_toString (n : Nat) : Natural (toString n).toList n := by
  rw [Nat.toString_eq_repr, Nat.toList_repr]
  exact .plain (digits_toDigits n)

theorem integer_toString (v : Int) : Integer (toString v).toList v := by
  rw [toList_toString_int]
  split
  · rename_i hneg
    have hv : -(v.natAbs : Int) = v := by omega
    have htext := Integer.minus (digits_toDigits v.natAbs)
    rwa [hv] at htext
  · rename_i hpos
    have hv : (v.natAbs : Int) = v := by omega
    have htext := Integer.natural (.plain (digits_toDigits v.natAbs))
    rwa [hv] at htext

end AerugoCache.ByteText
