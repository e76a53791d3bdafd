import HashConditions.Proofs.Normalizing
import HashConditions.Proofs.UriComponents

/-!
# The query of a text and its fields

The query stands between the first question mark and the number sign behind it. A text without
blanks at its ends can be given another query. The other components stay, and if the query comes
last, the blanks at its end are dropped with the text's own.

A query is in normal form if its fields are. Its percent signs are kept if those of every field are
well formed, since no encoded octet reaches over an ampersand.

## Main definitions

* `Uri.QueryAt` — a text and where its query stands
* `Text.Trims` — a text and the same without some of the blanks at its end

## Main results

* `Uri.QueryAt.split_eq`, `Uri.exists_queryAt` — the query is one of the components
* `Uri.QueryAt.strip` — blanks at the end of another query
* `Uri.splitOn_normal` — the fields of a query in normal form
-/

namespace HashConditions

namespace Text

variable {text kept blanks : List Char} {separator : Char}

/-! ### Texts cut at each separator -/

/-- What holds for the parts between separators, and can be put together, holds for every text. -/
theorem cutInduction (separator : Char) {motive : List Char → Prop}
    (single : ∀ text, separator ∉ text → motive text)
    (cut : ∀ front back, separator ∉ front → motive back → motive (front ++ separator :: back))
    (text : List Char) : motive text := by
  by_cases separated : separator ∈ text
  · obtain ⟨front, back, whole, first⟩ := List.eq_append_cons_of_mem separated
    have shorter : back.length < text.length := by
      rw [whole, List.length_append, List.length_cons]
      omega
    exact whole ▸ cut front back first (cutInduction separator single cut back)
  · exact single text separated
termination_by text.length

theorem of_mem_splitOn {part : List Char} (h : part ∈ text.splitOn separator) :
    separator ∉ part ∧ ∀ c ∈ part, c ∈ text := by
  induction text using cutInduction separator with
  | single text last =>
    rw [List.splitOn_eq_singleton last, List.mem_singleton] at h
    subst h
    exact ⟨last, fun _ => id⟩
  | cut front back first ih =>
    rw [List.splitOn_append_cons_self_of_not_mem first, List.mem_cons] at h
    obtain rfl | among := h
    · exact ⟨first, fun _ => List.mem_append_left _⟩
    · obtain ⟨absent, inside⟩ := ih among
      exact ⟨absent, fun c hc => List.mem_append_right front (List.mem_cons_of_mem _ (inside c hc))⟩

/-- A text without some of the blanks at its end. -/
def Trims (text kept : List Char) : Prop :=
  ∃ blanks, (∀ c ∈ blanks, isBlank c = true) ∧ text = kept ++ blanks

theorem Trims.refl (text : List Char) : Trims text text :=
  ⟨[], fun _ none => absurd none List.not_mem_nil, (List.append_nil text).symm⟩

theorem Trims.eq (h : Trims text kept) (visible : ∀ c ∈ text, isBlank c = false) : kept = text := by
  obtain ⟨blanks, blank, rfl⟩ := h
  cases blanks with
  | nil => exact (List.append_nil kept).symm
  | cons c blanks =>
    have clash := visible c (List.mem_append_right kept List.mem_cons_self)
    rw [blank c List.mem_cons_self] at clash
    cases clash

/-- Without the blanks at its end, a text ends in a character that is none. -/
theorem exists_trims (text : List Char) :
    ∃ kept, Trims text kept ∧ ∀ c ∈ kept.getLast?, isBlank c = false := by
  refine ⟨(text.reverse.dropWhile isBlank).reverse,
    ⟨(text.reverse.takeWhile isBlank).reverse, ?_, ?_⟩, ?_⟩
  · intro c hc
    exact List.all_eq_true.mp List.all_takeWhile c (List.mem_reverse.mp hc)
  · rw [← List.reverse_append, List.takeWhile_append_dropWhile, List.reverse_reverse]
  · intro c hc
    rw [List.getLast?_reverse] at hc
    exact not_of_mem_head?_dropWhile hc

theorem Trims.splitOn (h : Trims text kept) (visible : isBlank separator = false) :
    List.Forall₂ Trims (text.splitOn separator) (kept.splitOn separator) := by
  obtain ⟨blanks, blank, rfl⟩ := h
  have absent : separator ∉ blanks := by
    intro among
    rw [blank separator among] at visible
    cases visible
  induction kept using cutInduction separator with
  | single kept last =>
    have whole : separator ∉ kept ++ blanks := by
      rw [List.mem_append, not_or]
      exact ⟨last, absent⟩
    rw [List.splitOn_eq_singleton whole, List.splitOn_eq_singleton last]
    exact .cons ⟨blanks, blank, rfl⟩ .nil
  | cut front back first ih =>
    rw [List.append_assoc, List.cons_append, List.splitOn_append_cons_self_of_not_mem first,
      List.splitOn_append_cons_self_of_not_mem first]
    exact .cons (.refl front) ih

end Text

namespace Uri

open Text Percent Authority

variable {text front query other rest kept : List Char} {keepPercent : Bool}

/-! ### Fields in normal form -/

theorem encoded_of_forall_ne (h : ∀ d ∈ text, d ≠ '%') : Encoded (fun _ => true) text := by
  induction text with
  | nil => exact .nil
  | cons d text ih =>
    rw [List.forall_mem_cons] at h
    exact .char h.1 rfl (ih h.2)

theorem ne_of_isBlank {mark d : Char} (visible : isBlank mark = false) (h : isBlank d = true) :
    d ≠ mark := by
  rintro rfl
  rw [visible] at h
  cases h

/-- No encoded octet reaches into the blanks at the end of a text. -/
theorem encoded_iff_of_trims (trims : Trims text kept) :
    Encoded (fun _ => true) text ↔ Encoded (fun _ => true) kept := by
  obtain ⟨blanks, blank, rfl⟩ := trims
  have formed : ∀ others : List Char, (∀ d ∈ others, isBlank d = true) →
      Encoded (fun _ => true) others :=
    fun others all => encoded_of_forall_ne fun d hd => ne_of_isBlank (by decide) (all d hd)
  cases blanks with
  | nil => rw [List.append_nil]
  | cons d blanks =>
    rw [List.forall_mem_cons] at blank
    have digit : isHexDigit d = false := by
      by_contra digit
      rw [Bool.not_eq_false] at digit
      have kept := isKept_of_isBlank blank.1
      rw [(isHexDigit_spec digit).1] at kept
      cases kept
    rw [encoded_append_cons_iff digit (ne_of_isBlank (by decide) blank.1) rfl]
    exact and_iff_left (formed blanks blank.2)

/-- Percent signs are well formed in a text exactly if they are in each of its fields. -/
theorem encoded_iff_forall_splitOn :
    Encoded (fun _ => true) query ↔ ∀ field ∈ query.splitOn '&', Encoded (fun _ => true) field := by
  induction query using cutInduction '&' with
  | single text last => rw [List.splitOn_eq_singleton last, List.forall_mem_singleton]
  | cut front back first ih =>
    rw [List.splitOn_append_cons_self_of_not_mem first, List.forall_mem_cons,
      encoded_append_cons_iff (by decide) (by decide) rfl, ih]

/-- The fields of a query in normal form are its fields in normal form. -/
theorem splitOn_normal (formed : keepPercent = true → Encoded (fun _ => true) query) :
    (normal keepPercent query).splitOn '&' = (query.splitOn '&').map (normal keepPercent) := by
  induction query using cutInduction '&' with
  | single text last =>
    have absent := not_mem_normal (by decide) (by decide) formed last
    rw [List.splitOn_eq_singleton last, List.splitOn_eq_singleton absent]
    rfl
  | cut front back first ih =>
    have parts := fun keep =>
      (encoded_append_cons_iff (by decide) (by decide) rfl).mp (formed keep)
    have absent := not_mem_normal (by decide) (by decide) (fun keep => (parts keep).1) first
    rw [normal_append fun keep => (parts keep).1, normal_cons (by decide),
      List.splitOn_append_cons_self_of_not_mem absent,
      List.splitOn_append_cons_self_of_not_mem first, ih fun keep => (parts keep).2]
    rfl

/-! ### The query among the components -/

/-- A text has its query between the first question mark and the number sign behind it. -/
structure QueryAt (text front query rest : List Char) : Prop where
  whole : text = front ++ '?' :: (query ++ rest)
  question : '?' ∉ front
  early : '#' ∉ front
  inside : '#' ∉ query
  behind : ∀ c ∈ rest.head?, c = '#'

theorem splitTail_of_not_mem (question : '?' ∉ text) (hash : '#' ∉ text) :
    splitTail text = (text, none, none) := by
  have path : text.takeWhile (fun c => c != '?' && c != '#') = text :=
    takeWhile_eq_self (forall_inside_path question hash)
  rw [splitTail]
  simp only [path, List.drop_length]
  rfl

theorem splitTail_append_question (question : '?' ∉ front) (hash : '#' ∉ front)
    (inside : '#' ∉ query) :
    splitTail (front ++ '?' :: query) = (front, some query, none) := by
  have path : (front ++ '?' :: query).takeWhile (fun c => c != '?' && c != '#') = front :=
    takeWhile_append_cons (forall_inside_path question hash) rfl
  have marked : splitMarked '?' (· != '#') ('?' :: query) = (some query, []) := by
    rw [splitMarked, if_pos rfl]
    simp only [takeWhile_bne_of_not_mem inside, List.drop_length]
  rw [splitTail]
  simp only [path, List.drop_left, marked]
  rfl

theorem not_mem_splitAuthority_splitScheme {c : Char} (h : c ∉ text) :
    c ∉ (splitAuthority (splitScheme text).2).2 :=
  fun among => h ((splitScheme_suffix text).subset ((splitAuthority_suffix _).subset among))

theorem split_append_question (question : '?' ∉ front) (hash : '#' ∉ front)
    (inside : '#' ∉ query) :
    split (front ++ '?' :: query) = { split front with query := some query } := by
  have later := not_mem_splitAuthority_splitScheme question
  have last := not_mem_splitAuthority_splitScheme hash
  rw [Uri.split_eq, splitScheme_append (by decide) (by decide),
    splitAuthority_append (by decide) (by decide), splitTail_append_question later last inside,
    Uri.split_eq, splitTail_of_not_mem later last]

/-- A query does not matter for the other components. -/
theorem QueryAt.split_eq (h : QueryAt text front query rest) :
    split text = { split (front ++ rest) with query := some query } := by
  obtain ⟨rfl, question, early, inside, behind⟩ := h
  cases rest with
  | nil =>
    rw [List.append_nil, List.append_nil]
    exact split_append_question question early inside
  | cons c tail =>
    obtain rfl := behind c rfl
    have first : '#' ∉ front ++ '?' :: query := by
      rw [List.mem_append, List.mem_cons, not_or, not_or]
      exact ⟨early, by decide, inside⟩
    have whole : front ++ '?' :: (query ++ '#' :: tail) = front ++ '?' :: query ++ '#' :: tail := by
      rw [List.append_assoc]
      rfl
    rw [whole, split_append_hash first, split_append_hash early,
      split_append_question question early inside]

theorem exists_queryAt (h : (split text).query = some query) :
    ∃ front rest, QueryAt text front query rest := by
  obtain ⟨body, rest, rfl, hash, behind⟩ : ∃ body rest, text = body ++ rest ∧ '#' ∉ body ∧
      ∀ c ∈ rest.head?, c = '#' := by
    by_cases separated : '#' ∈ text
    · obtain ⟨body, tail, rfl, first⟩ := List.eq_append_cons_of_mem separated
      exact ⟨body, '#' :: tail, rfl, first, fun c hc => (Option.some.inj hc).symm⟩
    · exact ⟨text, [], (List.append_nil text).symm, separated, fun c none => by cases none⟩
  by_cases question : '?' ∈ body
  · obtain ⟨front, inner, rfl, first⟩ := List.eq_append_cons_of_mem question
    rw [List.mem_append, List.mem_cons, not_or, not_or] at hash
    have found : QueryAt (front ++ '?' :: inner ++ rest) front inner rest :=
      ⟨List.append_assoc _ _ _, first, hash.1, hash.2.2, behind⟩
    rw [found.split_eq] at h
    obtain rfl := Option.some.inj h
    exact ⟨front, rest, found⟩
  · have none : (split body).query = none := by
      rw [Uri.split_eq, splitTail_of_not_mem (not_mem_splitAuthority_splitScheme question)
        (not_mem_splitAuthority_splitScheme hash)]
    cases rest with
    | nil =>
      rw [List.append_nil, none] at h
      cases h
    | cons c tail =>
      obtain rfl := behind c rfl
      rw [split_append_hash hash, none] at h
      cases h

/-! ### Blanks behind another query -/

/-- What follows a mark does not matter for the start of a text, and what stands in front of it does
not matter for the end. -/
theorem strip_of_mark {mark : Char} {behind : List Char} (bare : Text.strip text = text)
    (whole : text = front ++ mark :: rest) (visible : isBlank mark = false)
    (last : ∀ c ∈ behind.getLast?, isBlank c = false) :
    Text.strip (front ++ mark :: behind) = front ++ mark :: behind := by
  apply strip_of_ends
  · intro c hc
    have start : c ∈ (Text.strip text).head? := by
      rw [bare, whole]
      cases front with
      | nil => exact hc
      | cons d front => exact hc
    exact not_isBlank_of_mem_head?_strip start
  · intro c hc
    cases behind with
    | nil =>
      rw [List.getLast?_concat] at hc
      cases hc
      exact visible
    | cons d behind =>
      refine last c ?_
      simpa [List.getLast?_append, List.getLast?_cons] using hc

/-- If a text without blanks at its ends gets another query, then the blanks that are dropped stand
at the end of the query. -/
theorem QueryAt.strip (h : QueryAt text front query rest) (bare : Text.strip text = text)
    {changed : List Char} (h' : QueryAt changed front other rest) :
    ∃ kept, Trims other kept ∧ QueryAt (Text.strip changed) front kept rest := by
  have visible : isBlank '?' = false := by decide
  cases rest with
  | nil =>
    obtain ⟨kept, trims, last⟩ := exists_trims other
    obtain ⟨blanks, blank, rfl⟩ := trims
    have stripped : Text.strip changed = front ++ '?' :: kept := by
      have split : changed = front ++ '?' :: kept ++ blanks := by
        rw [h'.whole, List.append_nil, List.append_assoc]
        rfl
      rw [split, strip_append_right blank, strip_of_mark bare h.whole visible last]
    refine ⟨kept, ⟨blanks, blank, rfl⟩, ?_, h'.question, h'.early, ?_, h'.behind⟩
    · rw [stripped, List.append_nil]
    · exact fun among => h'.inside (List.mem_append_left blanks among)
  | cons c tail =>
    have last : ∀ d ∈ (other ++ c :: tail).getLast?, isBlank d = false := by
      intro d hd
      have kept : d ∈ (Text.strip text).getLast? := by
        rw [bare, h.whole]
        simpa [List.getLast?_append, List.getLast?_cons] using hd
      exact not_isBlank_of_mem_getLast?_strip kept
    have stripped : Text.strip changed = changed := by
      rw [h'.whole]
      exact strip_of_mark bare h.whole visible last
    refine ⟨other, .refl other, ?_⟩
    rw [stripped]
    exact h'

end Uri

end HashConditions
