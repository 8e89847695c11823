import AerugoCache.ByteReader

/-!
# Replies on the wire

The grammar of one RESP2 reply, as the protocol defines it for a client: a line with
a type byte, and for bulks and arrays the announced payload or items after it.  The
grammar is prefix-free, so a client that reads replies off a stream cannot read the
bytes of one reply in any other way.
-/

namespace AerugoCache.RespReply

open AerugoCache.ByteText AerugoCache.ByteReader

/-- The text of a line holds no line break. -/
def OneLine (text : Bytes) : Prop := ascii '\r' ∉ text ∧ ascii '\n' ∉ text

instance (text : Bytes) : Decidable (OneLine text) :=
  inferInstanceAs (Decidable (_ ∧ _))

theorem oneLine_append {text text' : Bytes} :
    OneLine (text ++ text') ↔ OneLine text ∧ OneLine text' := by
  simp only [OneLine, List.mem_append, not_or]
  exact and_and_and_comm

def line (kind : Char) (text : Bytes) : Bytes := ascii kind :: (text ++ crlf)

inductive IsReply : Bytes → Prop where
  | simple (text : Bytes) : OneLine text → IsReply (line '+' text)
  | error (text : Bytes) : OneLine text → IsReply (line '-' text)
  | integer (value : Int) : IsReply (line ':' (utf8 (toString value)))
  | bulk (value : Bytes) : IsReply (line '$' (utf8 (toString value.length)) ++ (value ++ crlf))
  | null : IsReply (line '$' (utf8 (toString (-1 : Int))))
  | array (items : List Bytes) : (∀ item ∈ items, IsReply item) →
      IsReply (line '*' (utf8 (toString items.length)) ++ items.flatten)

/-- The bytes are one reply, and no shorter prefix of them is one. -/
def ExactlyOneReply (bytes : Bytes) : Prop :=
  IsReply bytes ∧ ∀ first rest, IsReply first → first ++ rest = bytes → rest = []

/-! ### Lines -/

theorem oneLine_toString (value : Int) : OneLine (utf8 (toString value)) :=
  ⟨ascii_notMem_utf8 (by decide) (notMem_toString (by decide) (by decide) value),
    ascii_notMem_utf8 (by decide) (notMem_toString (by decide) (by decide) value)⟩

theorem append_cons_inj {x : UInt8} {left left' right right' : Bytes} (h : x ∉ left)
    (h' : x ∉ left') (heq : left ++ x :: right = left' ++ x :: right') :
    left = left' ∧ right = right' := by
  induction left generalizing left' with
  | nil =>
    cases left' with
    | nil => exact ⟨rfl, by simpa using heq⟩
    | cons y left' =>
      rw [List.nil_append, List.cons_append, List.cons.injEq] at heq
      exact absurd (heq.1 ▸ List.mem_cons_self) h'
  | cons y left ih =>
    cases left' with
    | nil =>
      rw [List.nil_append, List.cons_append, List.cons.injEq] at heq
      exact absurd (heq.1 ▸ List.mem_cons_self) h
    | cons z left' =>
      rw [List.cons_append, List.cons_append, List.cons.injEq] at heq
      have hrest := ih (fun hmem => h (List.mem_cons_of_mem _ hmem))
        (fun hmem => h' (List.mem_cons_of_mem _ hmem)) heq.2
      exact ⟨by rw [heq.1, hrest.1], hrest.2⟩

theorem line_append_inj {kind kind' : Char} {text text' rest rest' : Bytes} (h : OneLine text)
    (h' : OneLine text') (heq : line kind text ++ rest = line kind' text' ++ rest') :
    ascii kind = ascii kind' ∧ text = text' ∧ rest = rest' := by
  have hcr : ascii kind :: (text ++ ascii '\r' :: (ascii '\n' :: rest)) =
      ascii kind' :: (text' ++ ascii '\r' :: (ascii '\n' :: rest')) := by
    simpa [line, crlf] using heq
  rw [List.cons.injEq] at hcr
  obtain ⟨htext, hrest⟩ := append_cons_inj h.1 h'.1 hcr.2
  exact ⟨hcr.1, htext, (List.cons.inj hrest).2⟩

theorem utf8_toString_inj {value value' : Int}
    (h : utf8 (toString value) = utf8 (toString value')) : value = value' :=
  toString_int_injective (utf8_injective h)

/-! ### No reply is a prefix of another -/

theorem flatten_append_inj {items items' : List Bytes} {rest rest' : Bytes}
    (h : ∀ item ∈ items, ∀ first rest rest', IsReply first → item ++ rest = first ++ rest' →
      item = first ∧ rest = rest')
    (h' : ∀ item ∈ items', IsReply item) (hlength : items.length = items'.length)
    (heq : items.flatten ++ rest = items'.flatten ++ rest') :
    items.flatten = items'.flatten ∧ rest = rest' := by
  induction items generalizing items' with
  | nil =>
    obtain rfl : items' = [] := List.eq_nil_of_length_eq_zero hlength.symm
    exact ⟨rfl, by simpa using heq⟩
  | cons item items ih =>
    cases items' with
    | nil => cases hlength
    | cons item' items' =>
      rw [List.flatten_cons, List.flatten_cons, List.append_assoc, List.append_assoc] at heq
      obtain ⟨rfl, htail⟩ := h item List.mem_cons_self item' _ _ (h' item' List.mem_cons_self) heq
      obtain ⟨hitems, hrest⟩ := ih (fun i hi => h i (List.mem_cons_of_mem _ hi))
        (fun i hi => h' i (List.mem_cons_of_mem _ hi)) (Nat.succ.inj hlength) htail
      exact ⟨by rw [List.flatten_cons, List.flatten_cons, hitems], hrest⟩

/-- **The grammar is prefix-free.** -/
theorem IsReply.append_inj {first : Bytes} (h : IsReply first) :
    ∀ {second rest rest' : Bytes}, IsReply second → first ++ rest = second ++ rest' →
      first = second ∧ rest = rest' := by
  -- replies of two different types differ in their first byte
  induction h with
  | simple text htext =>
    intro second rest rest' hsecond heq
    cases hsecond with
    | simple text' htext' =>
      obtain ⟨-, rfl, hrest⟩ := line_append_inj htext htext' heq
      exact ⟨rfl, hrest⟩
    | _ => exact absurd (List.cons.inj heq).1 (by decide)
  | error text htext =>
    intro second rest rest' hsecond heq
    cases hsecond with
    | error text' htext' =>
      obtain ⟨-, rfl, hrest⟩ := line_append_inj htext htext' heq
      exact ⟨rfl, hrest⟩
    | _ => exact absurd (List.cons.inj heq).1 (by decide)
  | integer value =>
    intro second rest rest' hsecond heq
    cases hsecond with
    | integer value' =>
      obtain ⟨-, htext, hrest⟩ :=
        line_append_inj (oneLine_toString value) (oneLine_toString value') heq
      exact ⟨by rw [htext], hrest⟩
    | _ => exact absurd (List.cons.inj heq).1 (by decide)
  | bulk value =>
    intro second rest rest' hsecond heq
    cases hsecond with
    | bulk value' =>
      simp only [List.append_assoc] at heq
      obtain ⟨-, htext, hbody⟩ :=
        line_append_inj (oneLine_toString value.length) (oneLine_toString value'.length) heq
      have hlength : value.length = value'.length := Int.ofNat.inj (utf8_toString_inj htext)
      obtain ⟨rfl, hrest⟩ := List.append_inj hbody hlength
      exact ⟨rfl, List.append_cancel_left hrest⟩
    | null =>
      rw [List.append_assoc] at heq
      obtain ⟨-, htext, -⟩ :=
        line_append_inj (oneLine_toString value.length) (oneLine_toString (-1)) heq
      cases utf8_toString_inj htext
    | _ => exact absurd (List.cons.inj heq).1 (by decide)
  | null =>
    intro second rest rest' hsecond heq
    cases hsecond with
    | null => exact ⟨rfl, List.append_cancel_left heq⟩
    | bulk value' =>
      rw [List.append_assoc] at heq
      obtain ⟨-, htext, -⟩ :=
        line_append_inj (oneLine_toString (-1)) (oneLine_toString value'.length) heq
      cases utf8_toString_inj htext
    | _ => exact absurd (List.cons.inj heq).1 (by decide)
  | array items hitems ih =>
    intro second rest rest' hsecond heq
    cases hsecond with
    | array items' hitems' =>
      simp only [List.append_assoc] at heq
      obtain ⟨-, htext, hbody⟩ :=
        line_append_inj (oneLine_toString items.length) (oneLine_toString items'.length) heq
      have hlength : items.length = items'.length := Int.ofNat.inj (utf8_toString_inj htext)
      obtain ⟨hflatten, hrest⟩ := flatten_append_inj
        (fun item hitem first rest rest' => ih item hitem) hitems' hlength hbody
      exact ⟨by rw [hlength, hflatten], hrest⟩
    | _ => exact absurd (List.cons.inj heq).1 (by decide)

/-- One reply is read in one way. -/
theorem IsReply.exactlyOne {bytes : Bytes} (h : IsReply bytes) : ExactlyOneReply bytes := by
  refine ⟨h, fun first rest hfirst heq => ?_⟩
  have hsplit : first ++ rest = bytes ++ [] := by rw [heq, List.append_nil]
  exact (hfirst.append_inj h hsplit).2

end AerugoCache.RespReply
