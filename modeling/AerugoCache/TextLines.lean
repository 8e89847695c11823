import Mathlib.Data.List.TakeWhile

/-!
# Lines and fields of a text

Splitting a text into its lines, and a line at the first delimiter in it.  Both undo the
writing: lines that are written with their ending are read back, and so is a field whose
name is without the delimiter.
-/

namespace AerugoCache.TextLines

/-- `str::split_inclusive`, on the characters. -/
def splitInclusive (delimiter : Char) : List Char → List (List Char)
  | [] => []
  | c :: rest =>
      if c = delimiter then [c] :: splitInclusive delimiter rest
      else
        match splitInclusive delimiter rest with
        | [] => [[c]]
        | piece :: pieces => (c :: piece) :: pieces

/-- A line without its ending, a line feed that may have a carriage return before it. -/
def chomp (line : List Char) : List Char :=
  if line.getLast? = some '\n' then
    let line := line.dropLast
    if line.getLast? = some '\r' then line.dropLast else line
  else line

/-- `str::lines`. -/
def lines (text : String) : List String :=
  (splitInclusive '\n' text.toList).map fun line => String.ofList (chomp line)

/-- `str::split_once`. -/
def splitOnce (delimiter : Char) (text : String) : Option (String × String) :=
  match text.toList.dropWhile (· ≠ delimiter) with
  | [] => none
  | _ :: value => some (String.ofList (text.toList.takeWhile (· ≠ delimiter)), String.ofList value)

/-! ### Lines that were written -/

theorem splitInclusive_line {delimiter : Char} {line : List Char} (h : delimiter ∉ line)
    (rest : List Char) :
    splitInclusive delimiter (line ++ delimiter :: rest) =
      (line ++ [delimiter]) :: splitInclusive delimiter rest := by
  induction line with
  | nil => simp [splitInclusive]
  | cons c line ih =>
    rw [List.mem_cons, not_or] at h
    rw [List.cons_append, splitInclusive, if_neg (Ne.symm h.1), ih h.2]
    rfl

theorem chomp_crlf (line : List Char) : chomp (line ++ ['\r'] ++ ['\n']) = line := by
  simp [chomp]

/-- Lines, each with its ending. -/
def writeLines : List String → String
  | [] => ""
  | line :: rest => line ++ "\r\n" ++ writeLines rest

theorem length_writeLines_le {bound : Nat} {written : List String}
    (h : ∀ line ∈ written, line.toList.length ≤ bound) :
    (writeLines written).toList.length ≤ written.length * (bound + 2) := by
  induction written with
  | nil => exact Nat.zero_le _
  | cons line rest ih =>
    have hline := h line List.mem_cons_self
    have hrest := ih fun other hother => h other (List.mem_cons_of_mem _ hother)
    have hending : "\r\n".toList.length = 2 := rfl
    simp only [writeLines, String.toList_append, List.length_append, List.length_cons, hending,
      Nat.succ_mul]
    omega

theorem lines_writeLines {texts : List String} (h : ∀ line ∈ texts, '\n' ∉ line.toList) :
    lines (writeLines texts) = texts := by
  induction texts with
  | nil => rfl
  | cons line rest ih =>
    have hline : '\n' ∉ line.toList ++ ['\r'] := by
      simpa using h line List.mem_cons_self
    have htext : (writeLines (line :: rest)).toList =
        line.toList ++ ['\r'] ++ '\n' :: (writeLines rest).toList := by
      simp [writeLines]
    have hrest := ih fun other hother => h other (List.mem_cons_of_mem _ hother)
    unfold lines at hrest ⊢
    rw [htext, splitInclusive_line hline, List.map_cons, hrest, chomp_crlf, String.ofList_toList]

/-! ### Fields -/

theorem splitOnce_field {delimiter : Char} {name : String} (h : delimiter ∉ name.toList)
    (value : String) :
    splitOnce delimiter (name ++ String.singleton delimiter ++ value) = some (name, value) := by
  have hname : ∀ c ∈ name.toList, decide (c ≠ delimiter) = true := by
    intro c hc
    exact decide_eq_true fun heq => h (heq ▸ hc)
  have htext : (name ++ String.singleton delimiter ++ value).toList =
      name.toList ++ delimiter :: value.toList := by
    simp
  rw [splitOnce, htext, List.dropWhile_append_of_pos hname, List.takeWhile_append_of_pos hname]
  simp

theorem splitOnce_eq_none {delimiter : Char} {text : String} (h : delimiter ∉ text.toList) :
    splitOnce delimiter text = none := by
  have hnil : text.toList.dropWhile (fun c => decide (c ≠ delimiter)) = [] := by
    rw [List.dropWhile_eq_nil_iff]
    intro c hc
    exact decide_eq_true fun heq => h (heq ▸ hc)
  rw [splitOnce, hnil]

end AerugoCache.TextLines
