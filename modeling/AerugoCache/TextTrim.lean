import Mathlib.Data.List.DropRight

/-!
# White space around a text

A text is white space, a core that neither begins nor ends with any, and white space.
Trimming gives the core, and cutting a text where a run of characters ends gives the run.
-/

namespace AerugoCache.TextTrim

/-- `char::is_whitespace`: the Unicode property `White_Space`. -/
def isWhitespace (c : Char) : Bool :=
  let code := c.toNat
  (0x09 ≤ code && code ≤ 0x0D) || code = 0x20 || code = 0x85 || code = 0xA0 || code = 0x1680 ||
    (0x2000 ≤ code && code ≤ 0x200A) || code = 0x2028 || code = 0x2029 || code = 0x202F ||
    code = 0x205F || code = 0x3000

/-- `str::trim`, on the characters. -/
def trim (text : List Char) : List Char := (text.dropWhile isWhitespace).rdropWhile isWhitespace

/-- All of it is white space. -/
def Blank (text : List Char) : Prop := ∀ c ∈ text, isWhitespace c = true

/-- It neither begins nor ends with white space. -/
structure Trimmed (text : List Char) : Prop where
  head : ∀ c ∈ text.head?, isWhitespace c = false
  last : ∀ c ∈ text.getLast?, isWhitespace c = false

theorem blank_append {first second : List Char} :
    Blank (first ++ second) ↔ Blank first ∧ Blank second :=
  List.forall_mem_append

/-- Without any white space it is trimmed. -/
theorem trimmed_of_solid {text : List Char} (h : ∀ c ∈ text, isWhitespace c = false) :
    Trimmed text where
  head c hc := h c (List.mem_of_mem_head? hc)
  last c hc := h c (List.mem_of_mem_getLast? hc)

/-- What begins with one trimmed text and ends with another is trimmed. -/
theorem Trimmed.append {first last : List Char} (hfirst : Trimmed first) (hlast : Trimmed last)
    (hfirst' : first ≠ []) (hlast' : last ≠ []) (between : List Char) :
    Trimmed (first ++ (between ++ last)) where
  head c hc := by
    rw [List.head?_append_of_ne_nil _ hfirst'] at hc
    exact hfirst.head c hc
  last c hc := by
    rw [← List.append_assoc, List.getLast?_append_of_ne_nil _ hlast'] at hc
    exact hlast.last c hc

theorem dropWhile_blank {before : List Char} (h : Blank before) (text : List Char) :
    (before ++ text).dropWhile isWhitespace = text.dropWhile isWhitespace := by
  induction before with
  | nil => rfl
  | cons c before ih =>
    rw [List.cons_append, List.dropWhile_cons_of_pos (h c List.mem_cons_self)]
    exact ih fun other hother => h other (List.mem_cons_of_mem _ hother)

theorem rdropWhile_blank {after : List Char} (h : Blank after) (text : List Char) :
    (text ++ after).rdropWhile isWhitespace = text.rdropWhile isWhitespace := by
  have hreverse : Blank after.reverse := fun c hc => h c (List.mem_reverse.mp hc)
  rw [List.rdropWhile, List.rdropWhile, List.reverse_append, dropWhile_blank hreverse]

/-- Trimming finds the core. -/
theorem trim_append {before core after : List Char} (hbefore : Blank before)
    (hcore : Trimmed core) (hafter : Blank after) : trim (before ++ core ++ after) = core := by
  rw [trim, List.append_assoc, dropWhile_blank hbefore]
  rcases hempty : core with _ | ⟨c, rest⟩
  · have hall : after.dropWhile isWhitespace = [] := by
      simpa using dropWhile_blank hafter []
    rw [List.nil_append, hall]
    rfl
  · have hhead : isWhitespace c = false := hcore.head c (by rw [hempty]; rfl)
    rw [List.cons_append, List.dropWhile_cons_of_neg (by simp [hhead]), ← List.cons_append,
      rdropWhile_blank hafter, ← hempty, List.rdropWhile_eq_self_iff]
    intro hne
    simp [hcore.last _ (List.getLast?_eq_some_getLast hne)]

/-- Every text has a core. -/
theorem exists_trim (text : List Char) :
    ∃ before after, text = before ++ trim text ++ after ∧ Blank before ∧ Blank after ∧
      Trimmed (trim text) := by
  refine ⟨text.takeWhile isWhitespace, (text.dropWhile isWhitespace).rtakeWhile isWhitespace,
    ?_, fun _ => List.mem_takeWhile_imp, fun _ => List.mem_rtakeWhile_imp, ?_, ?_⟩
  · rw [List.append_assoc, trim, List.rdropWhile_append_rtakeWhile, List.takeWhile_append_dropWhile]
  · intro c hc
    obtain ⟨rest, hrest⟩ : ∃ rest, trim text = c :: rest := List.head?_eq_some_iff.mp hc
    obtain ⟨after, hafter⟩ := List.rdropWhile_prefix isWhitespace (l := text.dropWhile isWhitespace)
    have hdrop := List.head?_dropWhile_not isWhitespace text
    rw [← hafter, ← trim, hrest] at hdrop
    exact hdrop
  · intro c hc
    have hne : trim text ≠ [] := by
      intro hnil
      rw [hnil] at hc
      cases hc
    have hlast := List.rdropWhile_last_not isWhitespace (text.dropWhile isWhitespace) hne
    rw [List.getLast?_eq_some_getLast hne, Option.mem_some_iff] at hc
    rw [← hc]
    exact (Bool.not_eq_true _).mp hlast

end AerugoCache.TextTrim
