import AerugoCache.ByteText
import AerugoCache.Fallible
import AerugoCache.Storage
import AerugoCache.TextTrim

/-!
# The options of the server

The values of `--max-memory` and `--eviction-policy`, as `main.rs` reads them.  A size is a
number with a unit, in any case, with white space around and between the two; it is
accepted if and only if the bytes it stands for are a `usize`.
-/

namespace AerugoCache.Options

open AerugoCache.ByteText AerugoCache.Storage AerugoCache.TextTrim

def toAsciiLowercase (text : List Char) : String := String.ofList (text.map Char.toLower)

/-- `EvictionPolicy::from_str`. -/
def parseEvictionPolicy (value : String) : Except String EvictionPolicy :=
  match toAsciiLowercase value.toList with
  | "noeviction" => .ok .noEviction
  | "allkeys-random" => .ok .allKeysRandom
  | other =>
      .error s!"unsupported eviction policy '{other}', expected noeviction or allkeys-random"

/-- The multiplier of a unit in lower case. -/
def multiplier : String → Except String Nat
  | "" | "b" => .ok 1
  | "k" | "kb" | "kib" => .ok 1024
  | "m" | "mb" | "mib" => .ok (1024 * 1024)
  | "g" | "gb" | "gib" => .ok (1024 * 1024 * 1024)
  | other => .error s!"unsupported memory unit '{other}', expected b, kb, mb, or gb"

def parseByteSize (value : String) : Except String Nat :=
  let value := trim value.toList
  let number := value.takeWhile Char.isDigit
  let unit := value.dropWhile Char.isDigit
  if number.isEmpty then .error "memory size must start with a number"
  else
    match parseUnsigned (2 ^ 64) (String.ofList number) with
    | none => .error "memory size is too large"
    | some number => do
        let multiplier ← multiplier (toAsciiLowercase (trim unit))
        if number * multiplier < 2 ^ 64 then .ok (number * multiplier)
        else .error "memory size is too large"

/-- `--max-memory`, which may be left out. -/
def maxMemoryOption : Option String → Except String (Option Nat)
  | none => .ok none
  | some value => (parseByteSize value).map some

/-- `--eviction-policy`, which has a default. -/
def evictionPolicyOption : Option String → Except String EvictionPolicy
  | none => .ok .noEviction
  | some value => parseEvictionPolicy value

/-- The store of the server that `main` runs with these options, if they are accepted. -/
def storeConfig (maxMemory evictionPolicy : Option String) : Except String StoreConfig := do
  let maxMemoryBytes ← maxMemoryOption maxMemory
  let evictionPolicy ← evictionPolicyOption evictionPolicy
  return { maxMemoryBytes, evictionPolicy }

example : parseByteSize " 0064 MiB" = .ok 67108864 := by decide +kernel

/-! ### The grammar -/

/-- The units with the bytes they stand for. -/
def units : List (String × Nat) := [
  ("", 1), ("b", 1),
  ("k", 2 ^ 10), ("kb", 2 ^ 10), ("kib", 2 ^ 10),
  ("m", 2 ^ 20), ("mb", 2 ^ 20), ("mib", 2 ^ 20),
  ("g", 2 ^ 30), ("gb", 2 ^ 30), ("gib", 2 ^ 30)]

/-- The text is white space, a number, white space, a unit in any case, and white space, and
    stands for this many bytes. -/
structure SizeText (text : List Char) (size : Nat) : Prop where
  spelled : ∃ before digits gap unit after factor,
    text = before ++ (digits ++ (gap ++ (unit ++ after))) ∧
    Blank before ∧ Blank gap ∧ Blank after ∧
    digits ≠ [] ∧ (∀ c ∈ digits, c.isDigit = true) ∧
    (toAsciiLowercase unit, factor) ∈ units ∧
    size = Nat.ofDigitChars 10 digits 0 * factor
  representable : size < 2 ^ 64

theorem multiplier_eq_ok {unit : String} {factor : Nat} :
    multiplier unit = .ok factor ↔ (unit, factor) ∈ units := by
  constructor
  · intro h
    unfold multiplier at h
    split at h <;> cases h <;> decide
  · intro h
    simp only [units, List.mem_cons, List.not_mem_nil, or_false, Prod.mk.injEq] at h
    rcases h with ⟨rfl, rfl⟩ | ⟨rfl, rfl⟩ | ⟨rfl, rfl⟩ | ⟨rfl, rfl⟩ | ⟨rfl, rfl⟩ | ⟨rfl, rfl⟩ |
      ⟨rfl, rfl⟩ | ⟨rfl, rfl⟩ | ⟨rfl, rfl⟩ | ⟨rfl, rfl⟩ | ⟨rfl, rfl⟩
    all_goals rfl

theorem parseUnsigned_digits {digits : List Char} (hne : digits ≠ [])
    (hdigits : ∀ c ∈ digits, c.isDigit = true) (limit : Nat) :
    parseUnsigned limit (String.ofList digits) =
      (some (Nat.ofDigitChars 10 digits 0)).filter (· < limit) := by
  have hparse : parseDigits digits = some (Nat.ofDigitChars 10 digits 0) := by
    rw [parseDigits, if_pos ⟨hne, List.all_eq_true.mpr hdigits⟩]
  unfold parseUnsigned
  rw [String.toList_ofList]
  split
  · exact absurd (hdigits '+' List.mem_cons_self) (by decide)
  · rw [hparse]

/-- Neither white space nor a digit changes with its case. -/
theorem toLower_eq_self {c : Char} (h : isWhitespace c = true ∨ c.isDigit = true) :
    c.toLower = c := by
  unfold Char.toLower
  split
  · rename_i hupper
    exfalso
    obtain ⟨hlow, hhigh⟩ := hupper
    have hlow : 65 ≤ c.toNat := UInt32.le_iff_toNat_le.mp hlow
    have hhigh : c.toNat ≤ 90 := UInt32.le_iff_toNat_le.mp hhigh
    rcases h with hspace | hdigit
    · simp only [isWhitespace, Bool.or_eq_true, Bool.and_eq_true, decide_eq_true_eq] at hspace
      omega
    · simp only [Char.isDigit, Bool.and_eq_true, decide_eq_true_eq] at hdigit
      have hnine : c.toNat ≤ 57 := UInt32.le_iff_toNat_le.mp hdigit.2
      omega
  · rfl

/-- There is neither white space nor a digit in a unit. -/
theorem mem_unit {unit : List Char} {factor : Nat} (h : (toAsciiLowercase unit, factor) ∈ units)
    {c : Char} (hc : c ∈ unit) : isWhitespace c = false ∧ c.isDigit = false := by
  have hunits : (units.all fun entry => entry.1.toList.all fun c =>
      !(isWhitespace c || c.isDigit)) = true := by
    decide
  have hlower : c.toLower ∈ (toAsciiLowercase unit).toList := by
    rw [toAsciiLowercase, String.toList_ofList]
    exact List.mem_map_of_mem hc
  have hplain := List.all_eq_true.mp (List.all_eq_true.mp hunits _ h) _ hlower
  obtain ⟨hspace, hdigit⟩ : isWhitespace c.toLower = false ∧ c.toLower.isDigit = false := by
    simpa using hplain
  constructor
  · by_contra hnot
    rw [toLower_eq_self (Or.inl ((Bool.not_eq_false _).mp hnot))] at hspace
    exact hnot hspace
  · by_contra hnot
    rw [toLower_eq_self (Or.inr ((Bool.not_eq_false _).mp hnot))] at hdigit
    exact hnot hdigit

/-- The number of a size, once the text is trimmed. -/
theorem takeWhile_digits {digits rest : List Char} (hdigits : ∀ c ∈ digits, c.isDigit = true)
    (hrest : ∀ c ∈ rest.head?, c.isDigit = false) :
    (digits ++ rest).takeWhile Char.isDigit = digits ∧
      (digits ++ rest).dropWhile Char.isDigit = rest := by
  induction digits with
  | nil =>
    cases rest with
    | nil => exact ⟨rfl, rfl⟩
    | cons c rest =>
      have hc := hrest c rfl
      exact ⟨List.takeWhile_cons_of_neg (by simp [hc]), List.dropWhile_cons_of_neg (by simp [hc])⟩
  | cons c digits ih =>
    have hc := hdigits c List.mem_cons_self
    obtain ⟨htake, hdrop⟩ := ih fun other hother => hdigits other (List.mem_cons_of_mem _ hother)
    rw [List.cons_append, List.takeWhile_cons_of_pos hc, List.dropWhile_cons_of_pos hc, htake]
    exact ⟨rfl, hdrop⟩

theorem isWhitespace_digit {c : Char} (hdigit : c.isDigit = true) : isWhitespace c = false := by
  simp only [Char.isDigit, Bool.and_eq_true, decide_eq_true_eq] at hdigit
  have hlow : 48 ≤ c.toNat := UInt32.le_iff_toNat_le.mp hdigit.1
  have hhigh : c.toNat ≤ 57 := UInt32.le_iff_toNat_le.mp hdigit.2
  simp only [isWhitespace, Bool.or_eq_false_iff, Bool.and_eq_false_iff, decide_eq_false_iff_not]
  omega

/-- A spelled size, trimmed, is its digits and what trims to its unit. -/
theorem trim_sizeText {before digits gap unit after : List Char} (hbefore : Blank before)
    (hgap : Blank gap) (hafter : Blank after) (hne : digits ≠ [])
    (hdigits : ∀ c ∈ digits, c.isDigit = true)
    (hunit : ∀ c ∈ unit, isWhitespace c = false ∧ c.isDigit = false) :
    ∃ rest, trim (before ++ (digits ++ (gap ++ (unit ++ after)))) = digits ++ rest ∧
      trim rest = unit ∧ ∀ c ∈ rest.head?, c.isDigit = false := by
  have hnumber : Trimmed digits := trimmed_of_solid fun c hc => isWhitespace_digit (hdigits c hc)
  have htrimmed : Trimmed unit := trimmed_of_solid fun c hc => (hunit c hc).1
  by_cases hnone : unit = []
  · subst hnone
    refine ⟨[], ?_, rfl, nofun⟩
    rw [List.append_nil, List.nil_append, ← List.append_assoc]
    exact trim_append hbefore hnumber (blank_append.mpr ⟨hgap, hafter⟩)
  · refine ⟨gap ++ unit, ?_, ?_, ?_⟩
    · have hcore := trim_append hbefore (hnumber.append htrimmed hne hnone gap) hafter
      rw [← hcore]
      simp only [List.append_assoc]
    · have hcore := trim_append hgap htrimmed (show Blank [] from nofun)
      rwa [List.append_nil] at hcore
    · intro c hc
      rcases List.mem_append.mp (List.mem_of_mem_head? hc) with hspace | hletter
      · by_contra hdigit
        have hsolid := isWhitespace_digit ((Bool.not_eq_false _).mp hdigit)
        rw [hgap c hspace] at hsolid
        cases hsolid
      · exact (hunit c hletter).2

/-- A size that is spelled out is read. -/
theorem parseByteSize_of_sizeText {value : String} {size : Nat}
    (h : SizeText value.toList size) : parseByteSize value = .ok size := by
  obtain ⟨⟨before, digits, gap, unit, after, factor, htext, hbefore, hgap, hafter, hne, hdigits,
    hunit, rfl⟩, hsize⟩ := h
  obtain ⟨rest, htrim, hrest, hhead⟩ := trim_sizeText hbefore hgap hafter hne hdigits
    fun c hc => mem_unit hunit hc
  obtain ⟨htake, hdrop⟩ := takeWhile_digits hdigits hhead
  -- a multiplier is positive, so the number is no larger than the size
  have hfactor : ∀ entry ∈ units, 1 ≤ entry.2 := by decide
  have hnumber : Nat.ofDigitChars 10 digits 0 < 2 ^ 64 :=
    Nat.lt_of_le_of_lt (Nat.le_mul_of_pos_right _ (hfactor _ hunit)) hsize
  have hempty : digits.isEmpty = false := by simpa using hne
  have hparse : parseUnsigned (2 ^ 64) (String.ofList digits) =
      some (Nat.ofDigitChars 10 digits 0) := by
    rw [parseUnsigned_digits hne hdigits, Option.filter_some, if_pos (by simpa using hnumber)]
  simp only [parseByteSize, htext, htrim, htake, hdrop, hrest, hempty, hparse,
    multiplier_eq_ok.mpr hunit, bind, Except.bind, Bool.false_eq_true, if_false, if_pos hsize]

/-- What is read is a size that is spelled out. -/
theorem sizeText_of_parseByteSize {value : String} {size : Nat}
    (h : parseByteSize value = .ok size) : SizeText value.toList size := by
  obtain ⟨before, after, htext, hbefore, hafter, hcore⟩ := exists_trim value.toList
  obtain ⟨gap, gap', hrest, hgap, hgap', -⟩ :=
    exists_trim ((trim value.toList).dropWhile Char.isDigit)
  simp only [parseByteSize] at h
  split at h
  · cases h
  rename_i hne
  have hdigits : ∀ c ∈ (trim value.toList).takeWhile Char.isDigit, c.isDigit = true :=
    fun _ => List.mem_takeWhile_imp
  have hnonempty : (trim value.toList).takeWhile Char.isDigit ≠ [] := by simpa using hne
  rw [parseUnsigned_digits hnonempty hdigits] at h
  split at h
  · cases h
  rename_i number hnumber
  obtain ⟨hvalue, -⟩ := Option.filter_eq_some_iff.mp hnumber
  obtain rfl := Option.some.inj hvalue
  cases hfactor : multiplier (toAsciiLowercase
      (trim ((trim value.toList).dropWhile Char.isDigit))) with
  | error error =>
    rw [hfactor] at h
    cases h
  | ok factor =>
    rw [hfactor] at h
    simp only [bind, Except.bind] at h
    split at h
    · rename_i hsize
      cases h
      refine ⟨⟨before, _, gap, _, gap' ++ after, factor, ?_, hbefore, hgap,
        blank_append.mpr ⟨hgap', hafter⟩, hnonempty, hdigits, multiplier_eq_ok.mp hfactor, rfl⟩,
        hsize⟩
      have hsplit := List.takeWhile_append_dropWhile (p := Char.isDigit) (l := trim value.toList)
      rw [hrest] at hsplit
      have hwhole := congrArg (fun middle => before ++ middle ++ after) hsplit.symm
      refine htext.trans (hwhole.trans ?_)
      simp only [List.append_assoc]
    · cases h

/-- **The sizes that are accepted.**  A text is read as a size if and only if it is white
    space, a number, white space, one of the units in any case, and white space, and the
    number of bytes it stands for is a `usize`; then it is read as that number. -/
theorem parseByteSize_ok_iff (value : String) (size : Nat) :
    parseByteSize value = .ok size ↔ SizeText value.toList size :=
  ⟨sizeText_of_parseByteSize, parseByteSize_of_sizeText⟩

/-- A policy is read from its text in any case. -/
theorem parseEvictionPolicy_ok_iff (value : String) (policy : EvictionPolicy) :
    parseEvictionPolicy value = .ok policy ↔ toAsciiLowercase value.toList = policy.asStr := by
  unfold parseEvictionPolicy
  constructor
  · intro h
    split at h <;> cases h <;> assumption
  · intro h
    cases policy with
    | noEviction => simp only [h, EvictionPolicy.asStr]
    | allKeysRandom => simp only [h, EvictionPolicy.asStr]

/-- What the options stand for, if they are accepted. -/
theorem storeConfig_limit {maxMemory : String} {evictionPolicy : Option String}
    {config : StoreConfig} (h : storeConfig (some maxMemory) evictionPolicy = .ok config) :
    ∃ size, config.maxMemoryBytes = some size ∧ SizeText maxMemory.toList size := by
  obtain ⟨limit, hlimit, hrest⟩ := Fallible.bind_ok h
  obtain ⟨policy, -, hconfig⟩ := Fallible.bind_ok hrest
  cases hconfig
  rw [maxMemoryOption] at hlimit
  cases hsize : parseByteSize maxMemory with
  | error error =>
    rw [hsize] at hlimit
    cases hlimit
  | ok size =>
    rw [hsize] at hlimit
    cases hlimit
    exact ⟨size, rfl, sizeText_of_parseByteSize hsize⟩

end AerugoCache.Options
