import HashConditions.Proofs.Base64Url
import HashConditions.Proofs.Cutting
import HashConditions.Proofs.Decimals
import HashConditions.Proofs.PlainText
import HashConditions.Proofs.Reading
import HashConditions.Uri.Condition

/-!
# Conditions are read back from their URIs

The URI of a condition is a scheme, a path that holds the fingerprint and a query of parameters,
all of it in plain text (`Uri.plain_write`). So it is split where it was put together
(`Uri.split_written`), normalizing changes nothing (`Uri.normalize_written`), and the parameters
are those that were written (`Uri.parameters_written`). Reading each of them gives a part of the
condition back, and the parts make the condition.

## Main results

* `Uri.parameters_written` — a query is read back parameter by parameter
* `Condition.ofUri_padded_toUri` — a condition is read back from its URI, among any blanks
-/

namespace HashConditions

namespace Uri

open Text

/-! ### The parts of a URI -/

/-- The value of the subtypes parameter. -/
def writtenNames (subtypes : TypeSet) : List Char :=
  [','].intercalate (subtypes.toList.map fun t => t.name.toList)

/-- The parameters in the URI of a condition. -/
def writtenParameters (c : Condition) : List Parameter :=
  [("fpt".toList, c.type.name.toList), ("cost".toList, decimal c.cost)] ++
    (c.subtypes.map fun subtypes => ("subtypes".toList, writtenNames subtypes)).toList

/-- A parameter as a field of a query. -/
def writeParameter (p : Parameter) : List Char :=
  p.1 ++ '=' :: p.2

/-- Parameters as a query. -/
def writeQuery (ps : List Parameter) : List Char :=
  ['&'].intercalate (ps.map writeParameter)

/-- The path in the URI of a condition, without the slash in front. -/
def writtenSegment (c : Condition) : List Char :=
  hashName ++ ';' :: Base64Url.encode c.fingerprint

theorem writeSubtypes_none : writeSubtypes none = [] := rfl

theorem writeSubtypes_some (subtypes : TypeSet) :
    writeSubtypes (some subtypes) = "&subtypes=".toList ++ writtenNames subtypes := rfl

/-- The URI of a condition by its components. -/
theorem write_eq (c : Condition) :
    write c = schemeName ++ ':' :: '/' :: '/' :: '/' ::
      (writtenSegment c ++ '?' :: writeQuery (writtenParameters c)) := by
  rw [write, writtenSegment, writeQuery, writtenParameters]
  generalize Base64Url.encode c.fingerprint = fingerprint
  generalize c.type.name.toList = type
  generalize decimal c.cost = cost
  cases c.subtypes with
  | none =>
    simp only [writeSubtypes_none, Option.map_none, Option.toList_none, List.append_nil,
      List.map_cons, List.map_nil, List.intercalate_cons_cons, List.intercalate_singleton,
      writeParameter, List.append_assoc, List.cons_append, List.nil_append]
    rfl
  | some subtypes =>
    simp only [writeSubtypes_some, Option.map_some, Option.toList_some, List.map_cons,
      List.map_nil, List.cons_append, List.nil_append, List.intercalate_cons_cons,
      List.intercalate_singleton, writeParameter, List.append_assoc]
    rfl

/-! ### Splitting -/

theorem splitScheme_schemeName (rest : List Char) :
    splitScheme (schemeName ++ ':' :: rest) = (some schemeName, rest) := by
  have name : (schemeName ++ ':' :: rest).takeWhile isSchemeChar = schemeName :=
    takeWhile_append_cons (forall_mem_of_all (by decide)) (by decide)
  rw [splitScheme]
  simp only [name, List.drop_left]
  rfl

/-- Characters of a path are neither of the two marks at which a path ends. -/
theorem forall_inside_path {path : List Char} (question : '?' ∉ path) (hash : '#' ∉ path) :
    ∀ c ∈ path, (c != '?' && c != '#') = true := by
  intro c hc
  rw [Bool.and_eq_true]
  exact ⟨forall_bne_of_not_mem question c hc, forall_bne_of_not_mem hash c hc⟩

/-- A URI with an empty authority is split at its question mark. -/
theorem split_written {segment query : List Char} (question : '?' ∉ segment)
    (hs : '#' ∉ segment) (hq : '#' ∉ query) :
    split (schemeName ++ ':' :: '/' :: '/' :: '/' :: (segment ++ '?' :: query)) =
      ⟨some schemeName, some [], '/' :: segment, some query, none⟩ := by
  have path : ('/' :: segment ++ '?' :: query).takeWhile (fun c => c != '?' && c != '#') =
      '/' :: segment := by
    refine takeWhile_append_cons (forall_inside_path ?_ ?_) (by decide)
    · exact fun h => question (List.mem_of_ne_of_mem (by decide) h)
    · exact fun h => hs (List.mem_of_ne_of_mem (by decide) h)
  have inside : query.takeWhile (fun c => c != '#') = query := takeWhile_bne_of_not_mem hq
  have authority : splitAuthority ('/' :: '/' :: '/' :: (segment ++ '?' :: query)) =
      (some [], '/' :: segment ++ '?' :: query) := rfl
  rw [split, splitScheme_schemeName]
  simp only [authority, path, List.drop_left]
  simp only [splitMarked, inside, List.drop_length, if_true]

/-! ### Normalizing -/

theorem endsInDots_of_not_mem {path : List Char} (dot : '.' ∉ path) : endsInDots path = false := by
  have last : ∀ front : List Char, ¬(front ++ ['.']).isSuffixOf path = true := by
    intro front h
    have found := (List.isSuffixOf_iff_suffix.mp h).subset
    exact dot (found (List.mem_append_right front List.mem_cons_self))
  rw [endsInDots, Bool.or_eq_false_iff]
  exact ⟨Bool.eq_false_iff.mpr (last ['/']), Bool.eq_false_iff.mpr (last ['/', '.'])⟩

/-- A path of one segment without dots is in normal form. -/
theorem removeDotSegments_segment {segment : List Char} (slash : '/' ∉ segment)
    (dot : '.' ∉ segment) : removeDotSegments ('/' :: segment) = '/' :: segment := by
  have split : ('/' :: segment).splitOn '/' = [[], segment] := by
    rw [← List.nil_append ('/' :: segment), List.splitOn_append_cons_self, List.splitOn_nil,
      List.splitOn_eq_singleton slash]
    rfl
  have single : segment ≠ ['.'] := by
    rintro rfl
    exact dot List.mem_cons_self
  have double : segment ≠ ['.', '.'] := by
    rintro rfl
    exact dot List.mem_cons_self
  have resolved : resolveSegments [] [[], segment] = [[], segment] := by
    simp [resolveSegments, single, double]
  have ends : endsInDots ('/' :: segment) = false := by
    apply endsInDots_of_not_mem
    rw [List.mem_cons, not_or]
    exact ⟨by decide, dot⟩
  rw [removeDotSegments]
  simp only [split, resolved, ends]
  simp

theorem normalizePath_of_plain {segment : List Char} (slash : '/' ∉ segment)
    (plain : Plain segment) : normalizePath ('/' :: segment) = '/' :: segment := by
  have rooted : Plain ('/' :: segment) := plain.cons (by decide)
  rw [normalizePath, Percent.encode_of_plain rooted, Percent.capitalize_of_plain rooted]
  exact removeDotSegments_segment slash (plain.not_mem (by decide))

/-- Plain components are in normal form, and an empty authority is none. -/
theorem normalize_written {segment query : List Char} (slash : '/' ∉ segment)
    (hs : Plain segment) (hq : Plain query) :
    Reference.normalize ⟨some schemeName, some [], '/' :: segment, some query, none⟩ =
      ⟨some schemeName, false, some ('/' :: segment), some query, none⟩ := by
  have authority : Authority.survives [] = false := by
    decide
  rw [Reference.normalize, normalizePath_of_plain slash hs, Option.map_some,
    Percent.encode_of_plain hq, Percent.capitalize_of_plain hq, Option.any_some, authority]
  rfl

/-! ### Parameters -/

/-- A parameter that can be written in a query as it is. -/
structure Writable (p : Parameter) : Prop where
  plain_name : Plain p.1
  plain_value : Plain p.2
  name_eq : '=' ∉ p.1
  name_and : '&' ∉ p.1
  value_and : '&' ∉ p.2

theorem Writable.plain_field {p : Parameter} (h : Writable p) : Plain (writeParameter p) :=
  h.plain_name.append (h.plain_value.cons (by decide))

theorem Writable.field_and {p : Parameter} (h : Writable p) : '&' ∉ writeParameter p := by
  rw [writeParameter, List.mem_append, List.mem_cons, not_or, not_or]
  exact ⟨h.name_and, by decide, h.value_and⟩

theorem writable_of_value {name value : List Char}
    (check : (name.all fun c => isPlain c && c != '=' && c != '&') = true) (plain : Plain value)
    (single : '&' ∉ value) : Writable (name, value) := by
  have spec : ∀ c ∈ name, (isPlain c = true ∧ c ≠ '=') ∧ c ≠ '&' := by
    simpa using check
  exact ⟨fun c hc => (spec c hc).1.1, plain, fun h => (spec _ h).1.2 rfl, fun h => (spec _ h).2 rfl,
    single⟩

/-- A field is read back as a parameter. -/
theorem parameter_written {p : Parameter} (h : Writable p) :
    parameter (writeParameter p) = .ok p := by
  have name : (writeParameter p).takeWhile (· != '=') = p.1 := takeWhile_bne h.name_eq
  rw [parameter]
  simp only [name]
  rw [writeParameter, List.drop_left, Percent.decode_of_plain h.plain_name]
  simp only [List.isEmpty_cons, List.drop_succ_cons, List.drop_zero,
    Percent.decode_of_plain h.plain_value]
  rfl

theorem fields_written {ps : List Parameter} (some : ps ≠ []) (h : ∀ p ∈ ps, Writable p) :
    fields (writeQuery ps) = ps.map writeParameter := by
  have apart : ∀ field ∈ ps.map writeParameter, '&' ∉ field := by
    intro field hfield
    obtain ⟨p, hp, rfl⟩ := List.mem_map.mp hfield
    exact (h p hp).field_and
  have nonempty : ps.map writeParameter ≠ [] := mt List.map_eq_nil_iff.mp some
  have split := List.splitOn_intercalate '&' apart nonempty
  have filled : (writeQuery ps).isEmpty = false := by
    cases ps with
    | nil => exact absurd rfl some
    | cons p ps =>
      cases ps with
      | nil => simp [writeQuery, writeParameter]
      | cons q ps => simp [writeQuery, writeParameter]
  rw [fields, filled]
  exact split

theorem mapM_parameter_written {ps : List Parameter} (h : ∀ p ∈ ps, Writable p) :
    (ps.map writeParameter).mapM parameter = .ok ps := by
  induction ps with
  | nil => rfl
  | cons p ps ih =>
    rw [List.map_cons, List.mapM_cons, parameter_written (h p List.mem_cons_self),
      ih fun q hq => h q (List.mem_cons_of_mem p hq)]
    rfl

/-- **A query is read back parameter by parameter.** -/
theorem parameters_written {ps : List Parameter} (some : ps ≠ []) (h : ∀ p ∈ ps, Writable p)
    (distinct : firstRepeated [] ps = none) : parameters (writeQuery ps) = .ok ps := by
  rw [parameters, fields_written some h, mapM_parameter_written h]
  simp only [distinct]

/-! ### What is written is plain -/

theorem mem_intercalate {c s : Char} {parts : List (List Char)} (h : c ∈ [s].intercalate parts) :
    c = s ∨ ∃ part ∈ parts, c ∈ part := by
  induction parts with
  | nil => exact absurd h List.not_mem_nil
  | cons part parts ih =>
    cases parts with
    | nil =>
      rw [List.intercalate_singleton] at h
      exact .inr ⟨part, List.mem_cons_self, h⟩
    | cons next parts =>
      rw [List.intercalate_cons_cons, List.mem_append, List.mem_append, List.mem_singleton] at h
      rcases h with (first | mark) | rest
      · exact .inr ⟨part, List.mem_cons_self, first⟩
      · exact .inl mark
      · rcases ih rest with mark | ⟨other, among, inside⟩
        · exact .inl mark
        · exact .inr ⟨other, List.mem_cons_of_mem part among, inside⟩

theorem plain_writeQuery {ps : List Parameter} (h : ∀ p ∈ ps, Writable p) :
    Plain (writeQuery ps) := by
  intro c hc
  rcases mem_intercalate hc with rfl | ⟨field, hfield, hc⟩
  · decide
  · obtain ⟨p, hp, rfl⟩ := List.mem_map.mp hfield
    exact (h p hp).plain_field c hc

theorem plain_name (t : ConditionType) : Plain t.name.toList := by
  apply plain_of_all
  cases t <;> decide

theorem name_ne_nil (t : ConditionType) : t.name.toList ≠ [] := by
  cases t <;> decide

/-- A name of a type is neither several fields nor several names. -/
theorem separator_not_mem_name (t : ConditionType) :
    '&' ∉ t.name.toList ∧ ',' ∉ t.name.toList := by
  cases t <;> decide

theorem writtenNames_spec (subtypes : TypeSet) :
    Plain (writtenNames subtypes) ∧ '&' ∉ writtenNames subtypes := by
  constructor
  · intro c hc
    rcases mem_intercalate hc with rfl | ⟨name, hname, hc⟩
    · decide
    · obtain ⟨t, -, rfl⟩ := List.mem_map.mp hname
      exact plain_name t c hc
  · intro h
    rcases mem_intercalate h with same | ⟨name, hname, h⟩
    · exact absurd same (by decide)
    · obtain ⟨t, -, rfl⟩ := List.mem_map.mp hname
      exact (separator_not_mem_name t).1 h

theorem writable_of_mem_writtenParameters {c : Condition} :
    ∀ p ∈ writtenParameters c, Writable p := by
  intro p hp
  rw [writtenParameters, List.mem_append, List.mem_cons, List.mem_singleton, Option.mem_toList,
    Option.map_eq_some_iff] at hp
  rcases hp with (rfl | rfl) | ⟨subtypes, -, rfl⟩
  · exact writable_of_value (by decide) (plain_name c.type) (separator_not_mem_name c.type).1
  · have digits := forall_mem_decimal (p := fun d => isPlain d = true ∧ d ≠ '&') (by decide) c.cost
    exact writable_of_value (by decide) (fun d hd => (digits d hd).1) fun h => (digits '&' h).2 rfl
  · obtain ⟨plain, single⟩ := writtenNames_spec subtypes
    exact writable_of_value (by decide) plain single

theorem writtenSegment_spec (c : Condition) :
    Plain (writtenSegment c) ∧ '/' ∉ writtenSegment c ∧ '?' ∉ writtenSegment c := by
  have name : ∀ d ∈ hashName, isPlain d = true ∧ d ≠ '/' ∧ d ≠ '?' :=
    forall_mem_of_all (by decide)
  have digits := Base64Url.forall_mem_encode (p := fun d => isPlain d = true ∧ d ≠ '/' ∧ d ≠ '?')
    (by decide) c.fingerprint
  have all : ∀ d ∈ writtenSegment c, isPlain d = true ∧ d ≠ '/' ∧ d ≠ '?' :=
    List.forall_mem_append.mpr ⟨name, List.forall_mem_cons.mpr ⟨by decide, digits⟩⟩
  exact ⟨fun d hd => (all d hd).1, fun h => (all '/' h).2.1 rfl, fun h => (all '?' h).2.2 rfl⟩

/-- The URI of a condition is plain text. -/
theorem plain_write (c : Condition) : Plain (write c) := by
  have start : Plain (schemeName ++ [':', '/', '/', '/']) := plain_of_all (by decide)
  have query : Plain ('?' :: writeQuery (writtenParameters c)) :=
    (plain_writeQuery writable_of_mem_writtenParameters).cons (by decide)
  have all := start.append ((writtenSegment_spec c).1.append query)
  rw [List.append_assoc] at all
  rw [write_eq]
  exact all

/-! ### The parts of a condition -/

theorem fingerprintOfPath_written (c : Condition) :
    fingerprintOfPath ('/' :: writtenSegment c) = .ok c.fingerprint := by
  have some : c.fingerprint ≠ [] := by
    intro none
    have length := c.length_fingerprint
    rw [none] at length
    exact absurd length (by decide)
  have algorithm : (writtenSegment c).takeWhile (· != ';') = hashName :=
    takeWhile_append_cons (forall_mem_of_all (by decide)) (by decide)
  have text : ('/' :: writtenSegment c).dropWhile (· == '/') = writtenSegment c := rfl
  have lower : hashName.map Char.toLower = hashName := by
    decide
  have length : c.fingerprint.length = fingerprintLength := c.length_fingerprint
  rw [fingerprintOfPath]
  simp only [text, algorithm]
  rw [writtenSegment, List.drop_left]
  simp [lower, Base64Url.decode_encode some, length]

theorem firstRepeated_writtenParameters (c : Condition) :
    firstRepeated [] (writtenParameters c) = none := by
  rw [writtenParameters]
  cases c.subtypes with
  | none => rfl
  | some subtypes => rfl

theorem ofLetters?_name (t : ConditionType) : ConditionType.ofLetters? t.name.toList = some t :=
  ConditionType.ofName?_name t

theorem typeOf_written (c : Condition) : typeOf (writtenParameters c) = .ok c.type := by
  have found : (writtenParameters c).lookup "fpt".toList = some c.type.name.toList := rfl
  rw [typeOf, found]
  simp only [ofLetters?_name]

/-- A cost has at most as many digits as the largest quantity, and that has 19. -/
theorem length_decimal_cost_le (c : Condition) : (decimal c.cost).length ≤ maxDigits :=
  have few : (decimal c.cost).length ≤ 19 :=
    length_decimal_le (Nat.lt_of_le_of_lt c.cost_le (by decide))
  Nat.le_trans few (by decide)

/-- No line feed is dropped from a number. -/
theorem dropFinalNewline_decimal (n : Nat) :
    Authority.dropFinalNewline (decimal n) = decimal n := by
  refine Authority.dropFinalNewline_of_not_mem fun h => ?_
  exact forall_mem_decimal (p := fun d => d ≠ '\n') (by decide) n '\n' h rfl

theorem costOf_written (c : Condition) : costOf (writtenParameters c) = .ok c.cost := by
  have found : (writtenParameters c).lookup "cost".toList = some (decimal c.cost) := rfl
  have few : ¬(decimal c.cost).length > maxDigits := Nat.not_lt.mpr (length_decimal_cost_le c)
  rw [costOf, found]
  simp only [dropFinalNewline_decimal, canonicalDigits_decimal, Bool.not_true, Bool.false_eq_true,
    if_false, if_neg few, ofDecimal_decimal]

theorem typesOfNames_written (types : List ConditionType) :
    typesOfNames (types.map fun t => t.name.toList) = .ok types := by
  induction types with
  | nil => rfl
  | cons t types ih =>
    rw [List.map_cons, typesOfNames, ofLetters?_name, ih]

/-- The items of the subtypes parameter. Without subtypes it is empty, and so is its only item. -/
theorem items_writtenNames (subtypes : TypeSet) :
    ((writtenNames subtypes).splitOn ',').filter (fun item => !item.isEmpty) =
      subtypes.toList.map fun t => t.name.toList := by
  rw [writtenNames]
  generalize subtypes.toList = types
  cases types with
  | nil => rfl
  | cons t types =>
    have apart : ∀ name ∈ (t :: types).map fun t => t.name.toList, ',' ∉ name := by
      intro name hname
      obtain ⟨u, -, rfl⟩ := List.mem_map.mp hname
      exact (separator_not_mem_name u).2
    rw [List.splitOn_intercalate ',' apart (List.cons_ne_nil _ _), List.filter_eq_self]
    intro name hname
    obtain ⟨u, -, rfl⟩ := List.mem_map.mp hname
    simp [name_ne_nil u]

theorem subtypesOf_written (c : Condition) :
    subtypesOf c.type (writtenParameters c) = .ok c.subtypes := by
  have admissible := c.admissible
  have found : (writtenParameters c).lookup "subtypes".toList = c.subtypes.map writtenNames := by
    rw [writtenParameters]
    cases c.subtypes with
    | none => rfl
    | some subtypes => rfl
  rw [subtypesOf, found]
  cases hsubtypes : c.subtypes with
  | none =>
    rw [hsubtypes] at admissible
    have simple : c.type.isCompound = false := admissible
    rw [simple]
    rfl
  | some subtypes =>
    rw [hsubtypes] at admissible
    have compound : c.type.isCompound = true := admissible.1
    rw [compound, Option.map_some]
    simp only [items_writtenNames, typesOfNames_written, TypeSet.ofList_toList]

end Uri

namespace Condition

open Uri Text

variable {before after : String}

/-- Blanks around the URI of a condition do not matter. -/
theorem ofUri_pad (c : Condition) (hb : ∀ d ∈ before.toList, isBlank d = true)
    (ha : ∀ d ∈ after.toList, isBlank d = true) : ofUri (before ++ c.toUri ++ after) = .ok c := by
  have plain := plain_write c
  have stripped : strip (before.toList ++ write c ++ after.toList) = write c :=
    strip_padded hb (fun d hd => isBlank_of_isPlain (plain d hd)) ha
  obtain ⟨hs, slash, question⟩ := writtenSegment_spec c
  have hq := plain_writeQuery (writable_of_mem_writtenParameters (c := c))
  have split := split_written question (hs.not_mem (by decide)) (hq.not_mem (by decide))
  rw [ofUri, String.toList_append, String.toList_append, toUri, String.toList_ofList, Uri.read,
    stripped, write_eq, split, normalize_written slash hs hq]
  have some : writtenParameters c ≠ [] := List.cons_ne_nil _ _
  -- The reference is the one that was written; what is left are the checks of `Uri.read` in turn.
  refine bind_eq_ok_iff.mpr ⟨_, mapError_eq_ok_iff.mpr rfl, ?_⟩
  refine bind_eq_ok_iff.mpr ⟨_, mapError_eq_ok_iff.mpr (fingerprintOfPath_written c), ?_⟩
  refine bind_eq_ok_iff.mpr ⟨_, mapError_eq_ok_iff.mpr (parameters_written some
    writable_of_mem_writtenParameters (firstRepeated_writtenParameters c)), ?_⟩
  refine bind_eq_ok_iff.mpr ⟨_, mapError_eq_ok_iff.mpr (typeOf_written c), ?_⟩
  refine bind_eq_ok_iff.mpr ⟨_, costOf_written c, ?_⟩
  refine bind_eq_ok_iff.mpr ⟨_, mapError_eq_ok_iff.mpr (subtypesOf_written c), ?_⟩
  exact mapError_eq_ok_iff.mpr (make_self c)

/-- A condition is read back from its URI. -/
theorem ofUri_toUri (c : Condition) : ofUri c.toUri = .ok c := by
  have bare : "" ++ c.toUri ++ "" = c.toUri := by
    rw [String.empty_append, String.append_empty]
  have none : ∀ d ∈ "".toList, isBlank d = true := forall_mem_of_all (by decide)
  rw [← bare]
  exact ofUri_pad c none none

/-- **Conditions are read back from their URIs**, with or without blanks around them. So no two
conditions have the same URI. -/
theorem ofUri_padded_toUri (c : Condition) (hb : ∀ d ∈ before.toList, isBlank d = true)
    (ha : ∀ d ∈ after.toList, isBlank d = true) :
    ofUri c.toUri = .ok c ∧ ofUri (before ++ c.toUri ++ after) = .ok c ∧
      ∀ d : Condition, d.toUri = c.toUri → d = c := by
  refine ⟨ofUri_toUri c, ofUri_pad c hb ha, ?_⟩
  intro d same
  have read := ofUri_toUri d
  rw [same, ofUri_toUri c] at read
  exact (Except.ok.inj read).symm

/-- The largest cost and two subtypes, behind a tab and in front of an ideographic space and a line
feed. -/
theorem ofUri_padded_toUri_prefixed :
    ∃ c : Condition,
      c.toUri = "ni:///sha-256;AAAAAAAAAAAAAAAAAAAAAAAAAAAAAAAAAAAAAAAAAAA?fpt=prefix-sha-256" ++
        "&cost=9223372036854775807&subtypes=rsa-sha-256,ed25519-sha-256" ∧
      ofUri ("\t" ++ c.toUri ++ "\u3000\n") = .ok c := by
  refine ⟨⟨.prefixSha256, List.replicate 32 0, maxQuantity,
    some (.ofList [.ed25519Sha256, .rsaSha256]), rfl, Nat.le_refl _, by decide⟩, ?_, ?_⟩
  · decide +kernel
  · have tab : ∀ d ∈ "\t".toList, isBlank d = true := forall_mem_of_all (by decide)
    have spaces : ∀ d ∈ "\u3000\n".toList, isBlank d = true := forall_mem_of_all (by decide)
    exact (ofUri_padded_toUri _ tab spaces).2.1

end Condition

end HashConditions
