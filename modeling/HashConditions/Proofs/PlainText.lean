import HashConditions.Proofs.Cutting
import HashConditions.Proofs.Utf8
import HashConditions.Text.Numeral
import HashConditions.Uri.Percent

/-!
# Plain text

A condition URI is written in letters, digits and a few marks. None of these characters is blank,
and none is encoded. So nothing that is done to a text while it is read as a URI changes a plain
one: blanks around it are dropped and no others, and encoding, normalizing and decoding leave its
parts as they are.

## Main results

* `Text.strip_padded` — blanks around a text do not matter
* `Percent.encode_of_plain`, `Percent.capitalize_of_plain`, `Percent.decode_of_plain` — plain parts
  of a URI stay as they are
-/

namespace HashConditions

namespace Text

/-! ### Blanks at the ends -/

variable {before text after : List Char}

theorem strip_append_left (h : ∀ c ∈ before, isBlank c = true) :
    strip (before ++ text) = strip text := by
  rw [strip, strip, List.dropWhile_append_of_pos h]

theorem strip_append_right (h : ∀ c ∈ after, isBlank c = true) :
    strip (text ++ after) = strip text := by
  have reversed : ∀ c ∈ after.reverse, isBlank c = true :=
    fun c hc => h c (List.mem_reverse.mp hc)
  have none : after.dropWhile isBlank = [] := by
    rw [← List.append_nil after, List.dropWhile_append_of_pos h]
    rfl
  rw [strip, strip, List.dropWhile_append]
  split
  · next all =>
    rw [List.isEmpty_iff.mp all, none]
  · rw [List.reverse_append, List.dropWhile_append_of_pos reversed]

/-- A text keeps its ends if they are not blank. -/
theorem strip_of_ends (first : ∀ c ∈ text.head?, isBlank c = false)
    (last : ∀ c ∈ text.getLast?, isBlank c = false) : strip text = text := by
  have back : ∀ c ∈ text.reverse.head?, isBlank c = false := by
    rwa [List.head?_reverse]
  rw [strip, dropWhile_eq_self first, dropWhile_eq_self back, List.reverse_reverse]

theorem strip_of_forall (h : ∀ c ∈ text, isBlank c = false) : strip text = text :=
  strip_of_ends (fun c hc => h c (List.mem_of_mem_head? hc))
    fun c hc => h c (List.mem_of_mem_getLast? hc)

/-- No blank is left at the ends. -/
theorem not_isBlank_of_mem_head?_strip {c : Char} (h : c ∈ (strip text).head?) :
    isBlank c = false := by
  have front : strip text <+: text.dropWhile isBlank := by
    rw [strip, ← List.reverse_suffix, List.reverse_reverse]
    exact List.dropWhile_suffix isBlank
  obtain ⟨back, whole⟩ := front
  have kept : c ∈ (text.dropWhile isBlank).head? := by
    rw [← whole, List.head?_append, Option.mem_def.mp h]
    rfl
  exact not_of_mem_head?_dropWhile kept

theorem not_isBlank_of_mem_getLast?_strip {c : Char} (h : c ∈ (strip text).getLast?) :
    isBlank c = false := by
  rw [strip, List.getLast?_reverse] at h
  exact not_of_mem_head?_dropWhile h

/-- Blanks around a text do not matter. -/
theorem strip_padded (hb : ∀ c ∈ before, isBlank c = true) (h : ∀ c ∈ text, isBlank c = false)
    (ha : ∀ c ∈ after, isBlank c = true) : strip (before ++ text ++ after) = text := by
  rw [strip_append_right ha, strip_append_left hb, strip_of_forall h]

/-! ### Plain characters -/

/-- A property of all characters of a given text is checked by going through the text. -/
theorem forall_mem_of_all {p : Char → Prop} [DecidablePred p]
    (check : (text.all fun c => decide (p c)) = true) : ∀ c ∈ text, p c :=
  fun c hc => of_decide_eq_true (List.all_eq_true.mp check c hc)

/-- Whether a character is one that condition URIs are written in. -/
def isPlain (c : Char) : Bool :=
  c.isAlphanum || "-_:/;?=&,".toList.contains c

theorem toNat_lt_of_isAlphanum {c : Char} (h : c.isAlphanum = true) : c.toNat < 128 := by
  have ranges : ((decide ('A'.val ≤ c.val ∧ c.val ≤ 'Z'.val) ||
      (decide ('a'.val ≤ c.val) && decide (c.val ≤ 'z'.val))) ||
      (decide ('0'.val ≤ c.val) && decide (c.val ≤ '9'.val))) = true := h
  simp only [Bool.or_eq_true, Bool.and_eq_true, decide_eq_true_eq,
    UInt32.le_iff_toNat_le] at ranges
  have upper : 'Z'.val.toNat = 90 := rfl
  have lower : 'z'.val.toNat = 122 := rfl
  have numeral : '9'.val.toNat = 57 := rfl
  have same : c.toNat = c.val.toNat := rfl
  omega

theorem toNat_lt_of_isPlain {c : Char} (h : isPlain c = true) : c.toNat < 128 := by
  have marks : ∀ d ∈ "-_:/;?=&,".toList, d.toNat < 128 := forall_mem_of_all (by decide)
  rw [isPlain, Bool.or_eq_true] at h
  rcases h with alphanumeric | mark
  · exact toNat_lt_of_isAlphanum alphanumeric
  · exact marks c (List.contains_iff_mem.mp mark)

/-- What holds for the plain ones among the first 128 characters holds for all plain ones. -/
theorem forall_of_isPlain {p : Char → Prop}
    (check : ∀ n < 128, isPlain (Char.ofNat n) = true → p (Char.ofNat n)) {c : Char}
    (h : isPlain c = true) : p c := by
  have low := check c.toNat (toNat_lt_of_isPlain h)
  rw [Char.ofNat_toNat] at low
  exact low h

theorem isBlank_of_isPlain {c : Char} (h : isPlain c = true) : isBlank c = false :=
  forall_of_isPlain (p := fun c => isBlank c = false) (by decide) h

/-- A text of plain characters. -/
def Plain (text : List Char) : Prop :=
  ∀ c ∈ text, isPlain c = true

theorem plain_of_all (check : text.all isPlain = true) : Plain text :=
  List.all_eq_true.mp check

theorem Plain.cons {c : Char} (first : isPlain c = true) (h : Plain text) : Plain (c :: text) :=
  List.forall_mem_cons.mpr ⟨first, h⟩

theorem Plain.append (hb : Plain before) (ha : Plain after) : Plain (before ++ after) :=
  List.forall_mem_append.mpr ⟨hb, ha⟩

theorem Plain.not_mem {c : Char} (h : Plain text) (other : isPlain c = false) : c ∉ text :=
  fun hc => Bool.eq_false_iff.mp other (h c hc)

end Text

namespace Percent

open Text

variable {text : List Char}

/-! ### Encoding and decoding -/

theorem encode_of_kept (h : ∀ c ∈ text, isKept c = true) : encode text = text := by
  rw [encode]
  generalize wellFormed text = keepPercent
  induction text with
  | nil => rfl
  | cons c text ih =>
    have kept := h c List.mem_cons_self
    rw [List.flatMap_cons, encodeChar, kept, Bool.true_or, if_pos rfl,
      ih fun d hd => h d (List.mem_cons_of_mem c hd)]
    rfl

theorem capitalize_of_not_mem (h : '%' ∉ text) : capitalize text = text := by
  induction text with
  | nil => rfl
  | cons c text ih =>
    rw [List.mem_cons, not_or] at h
    obtain ⟨other, rest⟩ := h
    rw [capitalize, ih rest]
    rintro high low tail rfl
    exact absurd rfl other

theorem octets_of_not_mem (h : '%' ∉ text) : octets text = encodeUtf8 text := by
  induction text with
  | nil => rfl
  | cons c text ih =>
    rw [List.mem_cons, not_or] at h
    obtain ⟨other, rest⟩ := h
    rw [octets, ih rest]
    · rfl
    · rintro high low tail rfl
      exact absurd rfl other

theorem encode_of_plain (h : Plain text) : encode text = text :=
  encode_of_kept fun c hc => forall_of_isPlain (p := fun c => isKept c = true) (by decide) (h c hc)

theorem capitalize_of_plain (h : Plain text) : capitalize text = text :=
  capitalize_of_not_mem (h.not_mem (by decide))

theorem map_space_of_not_mem (h : '+' ∉ text) :
    (text.map fun c => if c = '+' then ' ' else c) = text := by
  have same : ∀ c ∈ text, (if c = '+' then ' ' else c) = c := by
    intro c hc
    refine if_neg ?_
    rintro rfl
    exact h hc
  rw [List.map_congr_left same, List.map_id']

theorem decode_of_plain (h : Plain text) : decode text = text := by
  rw [decode, map_space_of_not_mem (h.not_mem (by decide)),
    octets_of_not_mem (h.not_mem (by decide)), decodeUtf8_encodeUtf8]

end Percent

end HashConditions
