/-!
# Texts cut at separators

A part of a text is its longest start of given characters. It ends at the first character that does
not belong to it, and nothing that follows this character changes the part. In particular a text is
cut at the first separator in it, and what was put together with a separator is taken apart again.

## Main results

* `Text.takeWhile_append_cons`, `Text.takeWhile_bne` — a part ends where its characters end
* `Text.takeWhile_append_of_stop`, `Text.drop_takeWhile_append` — what follows does not matter
* `Text.not_of_mem_head?_dropWhile` — what is left does not go on with the part
-/

namespace HashConditions

namespace Text

variable {p : Char → Bool} {text front back : List Char} {c separator : Char}

/-- A part ends at the first character that does not belong to it. -/
theorem takeWhile_append_cons (h : ∀ d ∈ front, p d = true) (stop : p c = false) :
    (front ++ c :: back).takeWhile p = front := by
  rw [List.takeWhile_append_of_pos h, List.takeWhile_cons_of_neg (Bool.eq_false_iff.mp stop),
    List.append_nil]

theorem takeWhile_eq_self (h : ∀ d ∈ text, p d = true) : text.takeWhile p = text := by
  rw [← List.append_nil text, List.takeWhile_append_of_pos h, List.takeWhile_nil]

/-- What follows a character that does not belong to a part does not matter. -/
theorem takeWhile_append_of_stop (stop : p c = false) :
    (front ++ c :: back).takeWhile p = front.takeWhile p := by
  rw [List.takeWhile_append]
  split
  · next whole =>
    rw [List.takeWhile_cons_of_neg (Bool.eq_false_iff.mp stop), List.append_nil]
    exact ((List.takeWhile_prefix p).eq_of_length whole).symm
  · rfl

theorem drop_takeWhile_append (p : Char → Bool) (front back : List Char) :
    (front ++ back).drop (front.takeWhile p).length =
      front.drop (front.takeWhile p).length ++ back :=
  List.drop_append_of_le_length (List.takeWhile_prefix p).length_le

theorem takeWhile_eq_nil (stop : ∀ c ∈ text.head?, p c = false) : text.takeWhile p = [] := by
  cases text with
  | nil => rfl
  | cons c text => rw [List.takeWhile_cons_of_neg (Bool.eq_false_iff.mp (stop c rfl))]

theorem dropWhile_eq_self (stop : ∀ c ∈ text.head?, p c = false) : text.dropWhile p = text := by
  cases text with
  | nil => rfl
  | cons c text => rw [List.dropWhile_cons_of_neg (Bool.eq_false_iff.mp (stop c rfl))]

theorem forall_bne_of_not_mem (absent : separator ∉ text) :
    ∀ d ∈ text, (d != separator) = true := by
  intro d hd
  rw [bne_iff_ne]
  rintro rfl
  exact absent hd

/-- A text is cut at the first separator. -/
theorem takeWhile_bne (first : separator ∉ front) :
    (front ++ separator :: back).takeWhile (· != separator) = front :=
  takeWhile_append_cons (forall_bne_of_not_mem first) (bne_self_eq_false separator)

theorem takeWhile_bne_of_not_mem (absent : separator ∉ text) :
    text.takeWhile (· != separator) = text :=
  takeWhile_eq_self (forall_bne_of_not_mem absent)

/-- What is left of a text behind one of its parts. -/
theorem drop_length_takeWhile (p : Char → Bool) (text : List Char) :
    text.drop (text.takeWhile p).length = text.dropWhile p := by
  have whole : text.drop (text.takeWhile p).length =
      (text.takeWhile p ++ text.dropWhile p).drop (text.takeWhile p).length :=
    congrArg (List.drop _) List.takeWhile_append_dropWhile.symm
  rw [whole, List.drop_left]

theorem not_of_mem_head?_dropWhile (h : c ∈ (text.dropWhile p).head?) : p c = false := by
  have found := List.head?_dropWhile_not p text
  rw [Option.mem_def.mp h] at found
  exact found

end Text

end HashConditions
