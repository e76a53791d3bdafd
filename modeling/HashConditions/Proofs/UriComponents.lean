import HashConditions.Proofs.UriReading

/-!
# Fragments and authorities of a URI

Neither may be part of a condition URI, and a check in `Uri.required` refuses them. What it sees are
the components of the normalized reference, and two kinds of text do not get there.

A fragment ends with its line. If a line feed comes first behind the number sign, the fragment is
empty, and so is what the check sees of it: all the text behind the number sign is passed over. Any
other fragment is refused.

An authority that normalizing cannot take apart is gone, and so is one whose parts are all empty.
The check sees none then, and the text is read as if there had been nothing between the slashes.
An authority that names something is refused.

Both cases say what is read instead: the outcome is that of the text with those characters left out.

## Main results

* `Uri.split_append_hash` — the fragment is what follows the first number sign, on its line
* `Uri.exists_split_authority` — the authority is what follows the first two slashes
* `Condition.ofUri_fragment`, `Condition.ofUri_authority` — refused, or passed over
-/

namespace HashConditions

namespace Percent

/-- Nothing is lost altogether when a component is encoded. -/
theorem encode_ne_nil {text : List Char} (h : text ≠ []) : encode text ≠ [] := by
  obtain ⟨c, cs, rfl⟩ := List.exists_cons_of_ne_nil h
  rw [encode]
  generalize wellFormed (c :: cs) = keepPercent
  intro empty
  rw [List.flatMap_cons, encodeChar] at empty
  have first := (List.append_eq_nil_iff.mp empty).1
  split at first
  · cases first
  · have octets : String.utf8EncodeChar c ≠ [] := by
      rw [← List.length_pos_iff_ne_nil, String.length_utf8EncodeChar]
      exact Char.utf8Size_pos c
    obtain ⟨b, hb⟩ := List.exists_mem_of_ne_nil _ octets
    cases List.flatMap_eq_nil_iff.mp first b hb

end Percent

namespace Uri

open Text

variable {text front back rest authority name : List Char} {c : Char}

/-! ### What follows a scheme or an authority

A scheme and an authority end at the first character that does not belong to them. So a text may be
changed behind such a character, and what was split off in front of it stays. -/

theorem splitScheme_append (stop : isSchemeChar c = false) (other : c ≠ ':') :
    splitScheme (front ++ c :: back) =
      ((splitScheme front).1, (splitScheme front).2 ++ c :: back) := by
  have colon : (front.drop (front.takeWhile isSchemeChar).length ++ c :: back).head? = some ':' ↔
      (front.drop (front.takeWhile isSchemeChar).length).head? = some ':' := by
    cases front.drop (front.takeWhile isSchemeChar).length with
    | nil => simp [other]
    | cons d tail => simp
  rw [splitScheme, splitScheme]
  simp only [takeWhile_append_of_stop stop, drop_takeWhile_append, Bool.and_eq_true, beq_iff_eq,
    colon]
  split
  · next scheme =>
    obtain ⟨tail, behind⟩ := List.head?_eq_some_iff.mp scheme.2
    rw [behind]
    rfl
  · rfl

theorem splitScheme_colon (chars : ∀ c ∈ name, isSchemeChar c = true)
    (alpha : name.head?.any Char.isAlpha = true) (rest : List Char) :
    splitScheme (name ++ ':' :: rest) = (some name, rest) := by
  have whole : (name ++ ':' :: rest).takeWhile isSchemeChar = name :=
    takeWhile_append_cons chars (by decide)
  rw [splitScheme]
  simp only [whole, List.drop_left, alpha]
  rfl

/-- Whether a character may stand in an authority. -/
def isAuthorityChar (c : Char) : Bool :=
  c != '\\' && c != '/' && c != '?' && c != '#'

theorem splitAuthority_slashes (text : List Char) : splitAuthority ('/' :: '/' :: text) =
    (some (text.takeWhile isAuthorityChar), text.dropWhile isAuthorityChar) := by
  rw [← drop_length_takeWhile]
  rfl

theorem splitAuthority_of_ne (h : ∀ tail, text ≠ '/' :: '/' :: tail) :
    splitAuthority text = (none, text) := by
  rw [splitAuthority]
  exact h

theorem splitAuthority_append (stop : isAuthorityChar c = false) (other : c ≠ '/') :
    splitAuthority (front ++ c :: back) =
      ((splitAuthority front).1, (splitAuthority front).2 ++ c :: back) := by
  by_cases slashes : ∃ tail, front = '/' :: '/' :: tail
  · obtain ⟨tail, rfl⟩ := slashes
    rw [List.cons_append, List.cons_append, splitAuthority_slashes, splitAuthority_slashes,
      takeWhile_append_of_stop stop, ← drop_length_takeWhile,
      takeWhile_append_of_stop stop, drop_takeWhile_append, drop_length_takeWhile]
  · rw [not_exists] at slashes
    have still : ∀ tail, front ++ c :: back ≠ '/' :: '/' :: tail := by
      intro tail h
      obtain ⟨-, clash⟩ | ⟨second, rfl, behind⟩ := List.append_eq_cons_iff.mp h
      · exact other (List.cons.inj clash).1
      · obtain ⟨-, clash⟩ | ⟨third, rfl, -⟩ := List.append_eq_cons_iff.mp behind.symm
        · exact other (List.cons.inj clash).1
        · exact slashes third rfl
    rw [splitAuthority_of_ne slashes, splitAuthority_of_ne still]

theorem splitScheme_suffix (text : List Char) : (splitScheme text).2 <:+ text := by
  rw [splitScheme]
  split
  · exact (List.drop_suffix _ _).trans (List.drop_suffix _ _)
  · exact List.suffix_refl text

theorem splitAuthority_suffix (text : List Char) : (splitAuthority text).2 <:+ text := by
  rw [splitAuthority.eq_def]
  split
  · next rest =>
    have behind : rest <:+ '/' :: '/' :: rest := (List.suffix_cons _ _).trans (List.suffix_cons _ _)
    exact (List.drop_suffix _ _).trans behind
  · exact List.suffix_refl _

/-! ### Fragments -/

/-- The path, the query and the fragment of what follows an authority. -/
def splitTail (text : List Char) : List Char × Option (List Char) × Option (List Char) :=
  let path := text.takeWhile fun c => c != '?' && c != '#'
  let (query, text) := splitMarked '?' (· != '#') (text.drop path.length)
  (path, query, (splitMarked '#' (· != '\n') text).1)

theorem split_eq (text : List Char) : split text =
    let tail := splitTail (splitAuthority (splitScheme text).2).2
    ⟨(splitScheme text).1, (splitAuthority (splitScheme text).2).1, tail.1, tail.2.1,
      tail.2.2⟩ := rfl

theorem splitTail_append_hash (first : '#' ∉ front) : splitTail (front ++ '#' :: rest) =
    ((splitTail front).1, (splitTail front).2.1, some (rest.takeWhile (· != '\n'))) := by
  have stop : ('#' != '?' && '#' != '#') = false := rfl
  have hash : ∀ text, splitMarked '#' (· != '\n') ('#' :: text) =
      (some (text.takeWhile (· != '\n')), text.drop (text.takeWhile (· != '\n')).length) :=
    fun _ => rfl
  rw [splitTail, splitTail]
  simp only [takeWhile_append_of_stop (p := fun c => c != '?' && c != '#') stop,
    drop_takeWhile_append, drop_length_takeWhile]
  -- Behind the path, the front part goes on with a question mark or not at all.
  have question : ∀ c ∈ (front.dropWhile fun c => c != '?' && c != '#').head?, c = '?' := by
    intro c hc
    have ends := not_of_mem_head?_dropWhile hc
    have inside : c ∈ front := (List.dropWhile_suffix _).subset (List.mem_of_mem_head? hc)
    have other : c ≠ '#' := by
      rintro rfl
      exact first inside
    simpa [other] using ends
  have later : '#' ∉ front.dropWhile fun c => c != '?' && c != '#' :=
    fun h => first ((List.dropWhile_suffix _).subset h)
  generalize (front.dropWhile fun c => c != '?' && c != '#') = tail at question later
  cases tail with
  | nil => rfl
  | cons c query =>
    obtain rfl := question c rfl
    rw [List.mem_cons, not_or] at later
    rw [List.cons_append, splitMarked, if_pos rfl, splitMarked, if_pos rfl]
    simp only [takeWhile_bne later.2, takeWhile_bne_of_not_mem later.2, List.drop_left, hash]

/-- **What follows the first number sign is the fragment**, up to the end of its line. The other
components are those of what stands in front. -/
theorem split_append_hash (first : '#' ∉ front) : split (front ++ '#' :: rest) =
    { split front with fragment := some (rest.takeWhile (· != '\n')) } := by
  have second : '#' ∉ (splitScheme front).2 :=
    fun h => first ((splitScheme_suffix front).subset h)
  have third : '#' ∉ (splitAuthority (splitScheme front).2).2 :=
    fun h => second ((splitAuthority_suffix _).subset h)
  rw [split_eq, splitScheme_append (by decide) (by decide),
    splitAuthority_append (by decide) (by decide), splitTail_append_hash third, split_eq]

/-! ### Authorities -/

/-- The scheme of a text stands at its start with no slash, and it does not depend on the rest. -/
theorem exists_splitScheme (text : List Char) : ∃ front, '/' ∉ front ∧
    text = front ++ (splitScheme text).2 ∧
    ∀ rest, splitScheme (front ++ '/' :: rest) = ((splitScheme text).1, '/' :: rest) := by
  rw [splitScheme]
  split
  · next h =>
    rw [Bool.and_eq_true, beq_iff_eq] at h
    obtain ⟨alpha, colon⟩ := h
    obtain ⟨tail, behind⟩ := List.head?_eq_some_iff.mp colon
    have chars : ∀ c ∈ text.takeWhile isSchemeChar, isSchemeChar c = true :=
      List.all_eq_true.mp List.all_takeWhile
    refine ⟨text.takeWhile isSchemeChar ++ [':'], ?_, ?_, fun rest => ?_⟩
    · intro slash
      obtain inside | last := List.mem_append.mp slash
      · exact absurd (chars _ inside) (by decide)
      · exact absurd (List.mem_singleton.mp last) (by decide)
    · rw [behind, List.append_assoc]
      calc text = text.takeWhile isSchemeChar ++ text.dropWhile isSchemeChar :=
            List.takeWhile_append_dropWhile.symm
        _ = text.takeWhile isSchemeChar ++ ':' :: tail := by rw [← drop_length_takeWhile, behind]
    · rw [List.append_assoc]
      exact splitScheme_colon chars alpha _
  · exact ⟨[], List.not_mem_nil, rfl, fun rest => rfl⟩

/-- **An authority stands behind the first two slashes.** Without its characters, a text has the
same other components. -/
theorem exists_split_authority (h : (split text).authority = some authority) :
    ∃ front rest, '/' ∉ front ∧ text = front ++ '/' :: '/' :: (authority ++ rest) ∧
      split (front ++ '/' :: '/' :: rest) = { split text with authority := some [] } := by
  obtain ⟨front, slash, whole, scheme⟩ := exists_splitScheme text
  rw [split_eq] at h
  have slashes : ∃ tail, (splitScheme text).2 = '/' :: '/' :: tail := by
    by_contra other
    rw [not_exists] at other
    rw [splitAuthority_of_ne other] at h
    cases h
  obtain ⟨tail, behind⟩ := slashes
  simp only [behind, splitAuthority_slashes, Option.some.injEq] at h
  refine ⟨front, tail.dropWhile isAuthorityChar, slash, ?_, ?_⟩
  · rw [← h, List.takeWhile_append_dropWhile, ← behind]
    exact whole
  · have stop : ∀ c ∈ (tail.dropWhile isAuthorityChar).head?, isAuthorityChar c = false :=
      fun c => not_of_mem_head?_dropWhile
    rw [split_eq, scheme, split_eq, behind, splitAuthority_slashes, splitAuthority_slashes,
      takeWhile_eq_nil stop, dropWhile_eq_self stop]

/-! ### Reading -/

/-- A text is read by its components in normal form. -/
theorem read_congr {other : List Char}
    (h : (split (strip text)).normalize = (split (strip other)).normalize) :
    read text = read other := by
  rw [read, read, h]

/-- A text whose components are not those of a condition URI fails as a URI. -/
theorem read_fails_of_not_required
    (h : ∀ path query, required (split (strip text)).normalize ≠ .ok (path, query)) :
    ∃ why, read text = .error (.uri why) := by
  obtain ⟨why, refused⟩ | ⟨⟨path, query⟩, components⟩ :=
    eq_error_or_ok (required (split (strip text)).normalize)
  · refine ⟨why, bind_eq_error_iff.mpr (.inl ?_)⟩
    exact mapError_eq_error_iff.mpr ⟨why, refused, rfl⟩
  · exact absurd components (h path query)

/-- Characters inside of a text without blanks at its ends can be left out, and no blank comes to
stand at an end, since what stands in front of them is none. -/
theorem strip_cut {middle : List Char} (h : strip text = front ++ c :: (middle ++ rest))
    (visible : isBlank c = false) : strip (front ++ c :: rest) = front ++ c :: rest := by
  apply strip_of_ends
  · intro d hd
    have kept : d ∈ (strip text).head? := by
      rw [h]
      cases front with
      | nil => exact hd
      | cons e front => exact hd
    exact not_isBlank_of_mem_head?_strip kept
  · intro d hd
    cases rest with
    | nil =>
      rw [List.getLast?_concat] at hd
      cases hd
      exact visible
    | cons e rest =>
      have kept : d ∈ (strip text).getLast? := by
        rw [h]
        simpa [List.getLast?_append, List.getLast?_cons] using hd
      exact not_isBlank_of_mem_getLast?_strip kept

end Uri

namespace Condition

open Uri Text

variable {text : String} {front rest authority : List Char}

/-- **No fragment is accepted, unless it starts with a line feed.** Then all that follows the number
sign is passed over, and the outcome is that of the text that ends with the number sign. -/
theorem ofUri_fragment (h : strip text.toList = front ++ '#' :: rest) (first : '#' ∉ front) :
    (rest ≠ [] → rest.head? ≠ some '\n' → ∃ why, ofUri text = .error (.uri why)) ∧
      ∀ tail, rest = '\n' :: tail → ofUri text = ofUri (String.ofList (front ++ ['#'])) := by
  constructor
  · intro filled line
    apply read_fails_of_not_required
    intro path query components
    have empty := (required_eq_ok_iff.mp components).2.2.1
    rw [h, split_append_hash first] at empty
    refine Percent.encode_ne_nil ?_ (empty _ rfl)
    obtain ⟨c, tail, rfl⟩ := List.exists_cons_of_ne_nil filled
    have seen : (c != '\n') = true := bne_iff_ne.mpr fun same => line (congrArg some same)
    rw [List.takeWhile_cons, if_pos seen]
    exact List.cons_ne_nil _ _
  · rintro tail rfl
    have whole : strip text.toList = front ++ '#' :: ('\n' :: tail ++ []) := by
      rw [h, List.append_nil]
    have cut : strip (front ++ ['#']) = front ++ ['#'] := strip_cut whole (by decide)
    apply read_congr
    rw [String.toList_ofList, cut, h, split_append_hash first, split_append_hash first]
    rfl

/-- A single character is enough of a fragment. -/
theorem ofUri_fragment_word :
    strip "ni:///sha-256;A?fpt=preimage-sha-256&cost=0#x ".toList =
        "ni:///sha-256;A?fpt=preimage-sha-256&cost=0".toList ++ '#' :: ['x'] ∧
      ∃ why, ofUri "ni:///sha-256;A?fpt=preimage-sha-256&cost=0#x " = .error (.uri why) := by
  have split : strip "ni:///sha-256;A?fpt=preimage-sha-256&cost=0#x ".toList =
      "ni:///sha-256;A?fpt=preimage-sha-256&cost=0".toList ++ '#' :: ['x'] := by
    decide +kernel
  exact ⟨split, (ofUri_fragment split (by decide +kernel)).1 (List.cons_ne_nil _ _) (by decide)⟩

/-- A URI with a number sign, a line feed and another character at its end. -/
def lineFeedUri : String :=
  "ni:///sha-256;AAAAAAAAAAAAAAAAAAAAAAAAAAAAAAAAAAAAAAAAAAA?fpt=preimage-sha-256&cost=0#\nx"

/-- What follows the line feed is accepted with the URI in front of it. -/
theorem ofUri_fragment_lineFeed :
    strip lineFeedUri.toList = lineFeedUri.toList ∧
      (∃ front, lineFeedUri.toList = front ++ '#' :: ['\n', 'x']) ∧
      ∃ c, ofUri lineFeedUri = .ok c := by
  have accepted : (ofUri lineFeedUri).toOption.map cost = some 0 := by
    decide +kernel
  obtain ⟨c, read, -⟩ := exists_ok_of_map_toOption accepted
  refine ⟨by decide +kernel, ⟨lineFeedUri.toList.dropLast.dropLast.dropLast, ?_⟩, c, read⟩
  decide +kernel

/-- **No authority is accepted that names something.** Any other one is passed over, and the outcome
is that of the text without it. -/
theorem ofUri_authority (h : (split (strip text.toList)).authority = some authority) :
    (Authority.Named authority → ∃ why, ofUri text = .error (.uri why)) ∧
      (¬Authority.Named authority → ∃ front rest, '/' ∉ front ∧
        strip text.toList = front ++ '/' :: '/' :: (authority ++ rest) ∧
        ofUri text = ofUri (String.ofList (front ++ '/' :: '/' :: rest))) := by
  rw [← Authority.survives_iff]
  constructor
  · intro survives
    apply read_fails_of_not_required
    intro path query components
    have lost := (required_eq_ok_iff.mp components).2.1
    rw [Reference.normalize, h, Option.any_some, survives] at lost
    cases lost
  · intro gone
    obtain ⟨front, rest, slash, whole, same⟩ := exists_split_authority h
    have slashed : strip text.toList = (front ++ ['/']) ++ '/' :: (authority ++ rest) := by
      rw [whole, List.append_assoc]
      rfl
    have cut : strip (front ++ '/' :: '/' :: rest) = front ++ '/' :: '/' :: rest := by
      have kept := strip_cut slashed (by decide)
      rwa [List.append_assoc] at kept
    refine ⟨front, rest, slash, whole, read_congr ?_⟩
    rw [String.toList_ofList, cut, same, Reference.normalize, Reference.normalize, h]
    simp only [Option.any_some, Bool.eq_false_iff.mpr gone]
    rfl

/-- A URI with the name of a host. -/
def hostUri : String :=
  "ni://example.com/sha-256;A?fpt=preimage-sha-256&cost=0"

theorem ofUri_authority_host :
    (split (strip hostUri.toList)).authority = some "example.com".toList ∧
      Authority.Named "example.com".toList ∧ ∃ why, ofUri hostUri = .error (.uri why) := by
  have found : (split (strip hostUri.toList)).authority = some "example.com".toList := by
    decide +kernel
  have named : Authority.Named "example.com".toList :=
    Authority.survives_iff.mp (by decide +kernel)
  exact ⟨found, named, (ofUri_authority found).1 named⟩

/-- A URI with two words in the place of an authority. -/
def wordsUri : String :=
  "ni://a b/sha-256;AAAAAAAAAAAAAAAAAAAAAAAAAAAAAAAAAAAAAAAAAAA?fpt=preimage-sha-256&cost=0"

/-- Two words name no host, and the URI is accepted as if they were not there. -/
theorem ofUri_authority_words :
    (split (strip wordsUri.toList)).authority = some "a b".toList ∧
      ∃ c, ofUri wordsUri = .ok c := by
  have accepted : (ofUri wordsUri).toOption.map cost = some 0 := by
    decide +kernel
  obtain ⟨c, read, -⟩ := exists_ok_of_map_toOption accepted
  exact ⟨by decide +kernel, c, read⟩

end Condition

end HashConditions
