import HashConditions.Proofs.Authorities
import HashConditions.Proofs.UriCodec
import Mathlib.Data.List.Forall2

/-!
# What an accepted URI tells of its condition

A text is split and normalized, and what is left are a path and the fields of a query. Each check on
them gets through in one case only, which an equivalence states: `fingerprintOfPath_eq_ok_iff`,
`parameters_eq_ok_iff`, `typeOf_eq_ok_iff`, `costOf_eq_ok_iff`, `subtypesOf_eq_ok_iff`. Together
they say that a text is the URI of a condition exactly if its path and its parameters describe it.

Many texts describe the same condition: names may be written in any case, a set may be listed in any
order and more than once, other parameters are ignored, and every character of the query may be
encoded. There is one spelling of the fingerprint. Of the cost there are two, since a line feed
behind its digits is overlooked.

## Main definitions

* `Uri.Spells` — a field of a query and the parameter that it spells
* `Uri.Describes` — a path and parameters that hold the parts of a condition

## Main results

* `Uri.read_eq_ok_iff` — what is read, and only that
* `Condition.ofUri_cost_text` — the text of the cost, with the line feed behind it
* `Condition.describes_of_ofUri` — everything else
-/

namespace HashConditions

namespace Uri

open Text

variable {text path query field name value : List Char} {fs names : List (List Char)}
  {ps : List Parameter} {p : Parameter} {n : Nat} {t : ConditionType} {types : List ConditionType}

/-! ### Components -/

/-- A reference holds a path and a query for a condition: its scheme is the one of named
information, and neither an authority nor a fragment is left. -/
theorem required_eq_ok_iff {r : Normalized} :
    required r = .ok (path, query) ↔ r.scheme = some schemeName ∧ r.hasAuthority = false ∧
      (∀ fragment ∈ r.fragment, fragment = []) ∧ r.path = some path ∧ r.query = some query := by
  obtain ⟨scheme, authority, path', query', fragment⟩ := r
  have empty : fragment.any (fun f => !f.isEmpty) = false ↔ ∀ f ∈ fragment, f = [] := by
    cases fragment with
    | none => simp
    | some f => simp
  rw [← empty, required]
  cases path' with
  | none => simp
  | some path' =>
    cases query' with
    | none => simp
    | some query' =>
      cases scheme with
      | none => simp
      | some scheme =>
        by_cases foreign : scheme = schemeName
        · cases authority with
          | true => simp [foreign]
          | false =>
            cases fragment.any fun f => !f.isEmpty with
            | true => simp [foreign]
            | false => simp [foreign]
        · simp [foreign]

theorem fingerprintOfPath_eq_ok_iff {bs : Bytes} :
    fingerprintOfPath path = .ok bs ↔ bs.length = fingerprintLength ∧
      ∃ algorithm, path.dropWhile (· == '/') = algorithm ++ ';' :: Base64Url.encode bs ∧
        algorithm.map Char.toLower = hashName := by
  rw [fingerprintOfPath]
  generalize path.dropWhile (· == '/') = text
  constructor
  · intro h
    by_cases separated : ';' ∈ text
    · obtain ⟨algorithm, encoded, rfl, first⟩ := List.eq_append_cons_of_mem separated
      simp only [takeWhile_bne first, List.drop_left, List.drop_succ_cons, List.drop_zero] at h
      split at h
      · cases h
      · next supported =>
        rw [not_or, not_not] at supported
        split at h
        · cases h
        · next bs' decoded =>
          obtain ⟨-, rfl⟩ := Base64Url.decode_eq_ok_iff.mp decoded
          split at h
          · next length =>
            cases h
            exact ⟨length, algorithm, rfl, supported.2⟩
          · cases h
    · simp only [takeWhile_bne_of_not_mem separated, List.drop_length] at h
      rw [if_pos (.inl rfl)] at h
      cases h
  · rintro ⟨length, algorithm, rfl, name⟩
    have filled : bs ≠ [] := by
      rintro rfl
      cases length
    have first : ';' ∉ algorithm := by
      intro h
      have lower : ';'.toLower ∈ hashName := name ▸ List.mem_map_of_mem h
      exact absurd lower (by decide)
    have supported : ¬((';' :: Base64Url.encode bs).isEmpty = true ∨
        algorithm.map Char.toLower ≠ hashName) := by
      rw [not_or, not_not]
      exact ⟨Bool.false_ne_true, name⟩
    simp only [takeWhile_bne first, List.drop_left, List.drop_succ_cons, List.drop_zero]
    rw [if_neg supported, Base64Url.decode_encode filled]
    exact if_pos length

/-! ### Parameters -/

/-- A field spells a parameter: it is cut at its first equals sign, and what stands on either side
is decoded. -/
def Spells (field : List Char) (p : Parameter) : Prop :=
  ∃ name value, '=' ∉ name ∧ field = name ++ '=' :: value ∧
    p = (Percent.decode name, Percent.decode value)

theorem parameter_eq_ok_iff : parameter field = .ok p ↔ Spells field p := by
  constructor
  · intro h
    rw [parameter] at h
    by_cases separated : '=' ∈ field
    · obtain ⟨name, value, rfl, first⟩ := List.eq_append_cons_of_mem separated
      simp only [takeWhile_bne first, List.drop_left, List.drop_succ_cons, List.drop_zero] at h
      cases h
      exact ⟨name, value, first, rfl, rfl⟩
    · simp only [takeWhile_bne_of_not_mem separated, List.drop_length] at h
      cases h
  · rintro ⟨name, value, first, rfl, rfl⟩
    rw [parameter]
    simp only [takeWhile_bne first, List.drop_left, List.drop_succ_cons, List.drop_zero]
    rfl

theorem mapM_parameter_eq_ok_iff : fs.mapM parameter = .ok ps ↔ List.Forall₂ Spells fs ps := by
  induction fs generalizing ps with
  | nil =>
    constructor
    · intro h
      cases h
      exact .nil
    · intro h
      cases h
      rfl
  | cons field fs ih =>
    rw [List.mapM_cons, bind_eq_ok_iff]
    constructor
    · rintro ⟨p, first, h⟩
      obtain ⟨others, rest, h⟩ := bind_eq_ok_iff.mp h
      cases h
      exact .cons (parameter_eq_ok_iff.mp first) (ih.mp rest)
    · intro h
      cases h with
      | cons first rest =>
        exact ⟨_, parameter_eq_ok_iff.mpr first, bind_eq_ok_iff.mpr ⟨_, ih.mpr rest, rfl⟩⟩

theorem firstRepeated_eq_none_iff {seen : List (List Char)} :
    firstRepeated seen ps = none ↔
      (ps.map Prod.fst).Nodup ∧ ∀ name ∈ ps.map Prod.fst, name ∉ seen := by
  induction ps generalizing seen with
  | nil => simp [firstRepeated]
  | cons p ps ih =>
    rw [firstRepeated]
    split
    · next known =>
      rw [List.contains_iff_mem] at known
      simp [known]
    · next new =>
      rw [List.contains_iff_mem] at new
      rw [ih, List.map_cons, List.nodup_cons, List.forall_mem_cons]
      constructor
      · rintro ⟨distinct, fresh⟩
        refine ⟨⟨fun h => fresh _ h List.mem_cons_self, distinct⟩, new, fun name h => ?_⟩
        exact fun among => fresh name h (List.mem_cons_of_mem _ among)
      · rintro ⟨⟨other, distinct⟩, -, fresh⟩
        refine ⟨distinct, fun name h => ?_⟩
        rw [List.mem_cons, not_or]
        refine ⟨?_, fresh name h⟩
        rintro rfl
        exact other h

/-- A query is accepted with the parameters that its fields spell, if their names are distinct. -/
theorem parameters_eq_ok_iff : parameters query = .ok ps ↔
    List.Forall₂ Spells (fields query) ps ∧ (ps.map Prod.fst).Nodup := by
  rw [← mapM_parameter_eq_ok_iff, parameters]
  have distinct : (ps.map Prod.fst).Nodup ↔ firstRepeated [] ps = none := by
    rw [firstRepeated_eq_none_iff]
    exact ⟨fun h => ⟨h, fun _ _ => List.not_mem_nil⟩, fun h => h.1⟩
  rw [distinct]
  cases (fields query).mapM parameter with
  | error fault => simp
  | ok all =>
    simp only [Except.ok.injEq]
    split
    · next name repeated =>
      constructor
      · intro h
        cases h
      · rintro ⟨rfl, single⟩
        rw [repeated] at single
        cases single
    · next single =>
      constructor
      · intro h
        cases h
        exact ⟨rfl, single⟩
      · rintro ⟨rfl, -⟩
        rfl

/-- Among distinct names, looking up one finds the parameter that has it. -/
theorem lookup_eq_some_iff_mem (distinct : (ps.map Prod.fst).Nodup) :
    ps.lookup name = some value ↔ (name, value) ∈ ps := by
  induction ps with
  | nil => simp
  | cons p ps ih =>
    obtain ⟨other, first⟩ := p
    rw [List.map_cons, List.nodup_cons] at distinct
    rw [List.lookup_cons, List.mem_cons, ← ih distinct.2]
    by_cases same : name = other
    · subst same
      have missing : ps.lookup name ≠ some value := by
        intro found
        exact distinct.1 (List.mem_map.mpr ⟨_, (ih distinct.2).mp found, rfl⟩)
      simp [missing, eq_comm]
    · simp [same, beq_eq_false_iff_ne.mpr same]

theorem lookup_eq_none_iff_not_mem :
    ps.lookup name = none ↔ ∀ value, (name, value) ∉ ps := by
  rw [List.lookup_eq_none_iff]
  constructor
  · intro h value among
    exact absurd (h _ among) (by simp)
  · rintro h ⟨other, value⟩ among
    rw [bne_iff_ne]
    rintro rfl
    exact h value among

/-! ### Type, cost and subtypes -/

theorem typeOf_eq_ok_iff : typeOf ps = .ok t ↔
    ∃ name, ps.lookup "fpt".toList = some name ∧ name.map Char.toLower = t.name.toList := by
  rw [typeOf]
  cases ps.lookup "fpt".toList with
  | none => simp
  | some name =>
    simp only [Option.some.injEq, exists_eq_left', ← ConditionType.ofLetters?_eq_some_iff]
    cases ConditionType.ofLetters? name with
    | none => simp
    | some type => simp

/-- A cost is read from its decimal form, behind which a line feed may stand. -/
theorem costOf_eq_ok_iff : costOf ps = .ok n ↔
    (decimal n).length ≤ maxDigits ∧ ∃ value, ps.lookup "cost".toList = some value ∧
      Authority.dropFinalNewline value = decimal n := by
  rw [costOf]
  cases ps.lookup "cost".toList with
  | none => simp
  | some value =>
    simp only [Option.some.injEq, exists_eq_left']
    generalize Authority.dropFinalNewline value = digits
    constructor
    · intro h
      split at h
      · cases h
      · next canonical =>
        rw [Bool.not_eq_true', Bool.not_eq_false, canonicalDigits_iff] at canonical
        split at h
        · cases h
        · next short =>
          cases h
          rw [canonical]
          exact ⟨Nat.not_lt.mp short, rfl⟩
    · rintro ⟨short, rfl⟩
      rw [canonicalDigits_decimal, ofDecimal_decimal, if_neg (Nat.not_lt.mpr short)]
      rfl

theorem typesOfNames_eq_ok_iff : typesOfNames names = .ok types ↔
    names.map (·.map Char.toLower) = types.map fun t => t.name.toList := by
  induction names generalizing types with
  | nil =>
    rw [typesOfNames, List.map_nil, eq_comm (a := []), List.map_eq_nil_iff, Except.ok.injEq,
      eq_comm]
  | cons name names ih =>
    rw [typesOfNames, List.map_cons]
    constructor
    · intro h
      split at h
      · cases h
      · next type first =>
        split at h
        · cases h
        · next others rest =>
          cases h
          rw [List.map_cons, ConditionType.ofLetters?_eq_some_iff.mp first, ih.mp rest]
    · intro h
      cases types with
      | nil => cases h
      | cons type others =>
        rw [List.map_cons, List.cons.injEq] at h
        rw [ConditionType.ofLetters?_eq_some_iff.mpr h.1, ih.mpr h.2]

theorem name_inj {s t : ConditionType} (h : s.name.toList = t.name.toList) : s = t := by
  have found := ofLetters?_name s
  rw [h, ofLetters?_name t] at found
  exact (Option.some.inj found).symm

theorem exists_map_name_eq {letters : List (List Char)}
    (h : ∀ name ∈ letters, ∃ t : ConditionType, t.name.toList = name) :
    ∃ types : List ConditionType, letters = types.map fun t => t.name.toList := by
  induction letters with
  | nil => exact ⟨[], rfl⟩
  | cons name letters ih =>
    obtain ⟨t, rfl⟩ := h name List.mem_cons_self
    obtain ⟨types, rfl⟩ := ih fun name among => h name (List.mem_cons_of_mem _ among)
    exact ⟨t :: types, rfl⟩

/-- Names are those of the types in a set exactly if they are, in lower case, the same set. -/
theorem exists_typesOfNames_iff {s : TypeSet} :
    (∃ types, typesOfNames names = .ok types ∧ TypeSet.ofList types = s) ↔
      ∀ name, name ∈ names.map (·.map Char.toLower) ↔ ∃ t ∈ s, t.name.toList = name := by
  constructor
  · rintro ⟨types, read, rfl⟩ name
    rw [typesOfNames_eq_ok_iff.mp read, List.mem_map]
    simp only [TypeSet.mem_ofList]
  · intro h
    have named : ∀ name ∈ names.map (·.map Char.toLower),
        ∃ t : ConditionType, t.name.toList = name := by
      intro name among
      obtain ⟨t, -, same⟩ := (h name).mp among
      exact ⟨t, same⟩
    obtain ⟨types, same⟩ := exists_map_name_eq named
    refine ⟨types, typesOfNames_eq_ok_iff.mpr same, TypeSet.ext_contains fun t => ?_⟩
    rw [TypeSet.mem_ofList]
    constructor
    · intro among
      obtain ⟨u, member, named⟩ := (h t.name.toList).mp (same ▸ List.mem_map_of_mem among)
      exact name_inj named ▸ member
    · intro member
      have among := (h t.name.toList).mpr ⟨t, member, rfl⟩
      rw [same, List.mem_map] at among
      obtain ⟨u, listed, named⟩ := among
      exact name_inj named ▸ listed

/-- The items of a list of names; empty ones do not count. -/
def items (value : List Char) : List (List Char) :=
  (value.splitOn ',').filter (!·.isEmpty)

theorem subtypesOf_eq_ok_iff {subtypes : Option TypeSet} : subtypesOf t ps = .ok subtypes ↔
    (t.isCompound = false ∧ ps.lookup "subtypes".toList = none ∧ subtypes = none) ∨
      (t.isCompound = true ∧ ∃ value types, ps.lookup "subtypes".toList = some value ∧
        typesOfNames (items value) = .ok types ∧ subtypes = some (TypeSet.ofList types)) := by
  constructor
  · intro h
    rw [subtypesOf] at h
    split at h
    · cases h
    · next value compound found =>
      split at h
      · cases h
      · next types read =>
        cases h
        exact .inr ⟨compound, value, types, found, read, rfl⟩
    · next simple missing =>
      cases h
      exact .inl ⟨simple, missing, rfl⟩
    · cases h
  · rintro (⟨simple, missing, rfl⟩ | ⟨compound, value, types, found, read, rfl⟩)
    · rw [subtypesOf, simple, missing]
    · rw [items] at read
      rw [subtypesOf, compound, found]
      simp only [read]

/-! ### The whole text -/

/-- The subtypes parameter names the members of a set, in any case and as often as it likes. Without
a set there is no such parameter. -/
def NamesSubtypes (ps : List Parameter) : Option TypeSet → Prop
  | none => ∀ value, ("subtypes".toList, value) ∉ ps
  | some subtypes => ∃ value, ("subtypes".toList, value) ∈ ps ∧
      ∀ name, name ∈ (items value).map (·.map Char.toLower) ↔ ∃ t ∈ subtypes, t.name.toList = name

/-- A path and parameters describe a condition. Its type is named in any case, and behind the digits
of its cost a line feed may stand. -/
structure Describes (path : List Char) (ps : List Parameter) (c : Condition) : Prop where
  fingerprint : ∃ algorithm,
    path.dropWhile (· == '/') = algorithm ++ ';' :: Base64Url.encode c.fingerprint ∧
      algorithm.map Char.toLower = hashName
  distinct : (ps.map Prod.fst).Nodup
  type : ∃ name, ("fpt".toList, name) ∈ ps ∧ name.map Char.toLower = c.type.name.toList
  cost : ∃ value, ("cost".toList, value) ∈ ps ∧ Authority.dropFinalNewline value = decimal c.cost
  subtypes : NamesSubtypes ps c.subtypes

theorem subtypesOf_eq_ok_subtypes_iff {c : Condition} (distinct : (ps.map Prod.fst).Nodup) :
    subtypesOf c.type ps = .ok c.subtypes ↔ NamesSubtypes ps c.subtypes := by
  have admissible := c.admissible
  rw [subtypesOf_eq_ok_iff, lookup_eq_none_iff_not_mem]
  simp only [lookup_eq_some_iff_mem distinct]
  cases hsubtypes : c.subtypes with
  | none =>
    rw [hsubtypes] at admissible
    have simple : c.type.isCompound = false := admissible
    simp [simple, NamesSubtypes]
  | some s =>
    rw [hsubtypes] at admissible
    have compound : c.type.isCompound = true := admissible.1
    simp only [compound, NamesSubtypes, ← exists_typesOfNames_iff]
    simp [eq_comm]

/-- No other parameter has the name of a given one. -/
theorem Describes.mem_iff {c : Condition} {other : List Char} (described : Describes path ps c)
    (h : (name, value) ∈ ps) : (name, other) ∈ ps ↔ other = value := by
  rw [← lookup_eq_some_iff_mem described.distinct] at h ⊢
  rw [h, Option.some.injEq, eq_comm]

/-- **A text is the URI of a condition exactly if its parts describe the condition.** -/
theorem read_eq_ok_iff {c : Condition} : read text = .ok c ↔
    ∃ path query ps, required (split (strip text)).normalize = .ok (path, query) ∧
      List.Forall₂ Spells (fields query) ps ∧ Describes path ps c := by
  constructor
  · intro h
    rw [read] at h
    obtain ⟨⟨path, query⟩, components, h⟩ := bind_eq_ok_iff.mp h
    obtain ⟨bs, fingerprint, h⟩ := bind_eq_ok_iff.mp h
    obtain ⟨ps, parameters, h⟩ := bind_eq_ok_iff.mp h
    obtain ⟨t, type, h⟩ := bind_eq_ok_iff.mp h
    obtain ⟨n, cost, h⟩ := bind_eq_ok_iff.mp h
    obtain ⟨s, subtypes, h⟩ := bind_eq_ok_iff.mp h
    rw [mapError_eq_ok_iff] at components fingerprint parameters type subtypes h
    obtain ⟨rfl, rfl, amount, rfl⟩ := Condition.make_eq_ok_iff.mp h
    obtain rfl := Int.ofNat.inj amount
    obtain ⟨spelled, distinct⟩ := parameters_eq_ok_iff.mp parameters
    obtain ⟨name, named, lower⟩ := typeOf_eq_ok_iff.mp type
    obtain ⟨-, value, found, digits⟩ := costOf_eq_ok_iff.mp cost
    refine ⟨path, query, ps, components, spelled, ?_⟩
    exact {
      fingerprint := (fingerprintOfPath_eq_ok_iff.mp fingerprint).2
      distinct := distinct
      type := ⟨name, (lookup_eq_some_iff_mem distinct).mp named, lower⟩
      cost := ⟨value, (lookup_eq_some_iff_mem distinct).mp found, digits⟩
      subtypes := (subtypesOf_eq_ok_subtypes_iff distinct).mp subtypes }
  · rintro ⟨path, query, ps, components, spelled, described⟩
    obtain ⟨name, named, lower⟩ := described.type
    obtain ⟨value, found, digits⟩ := described.cost
    have fingerprint :=
      fingerprintOfPath_eq_ok_iff.mpr ⟨c.length_fingerprint, described.fingerprint⟩
    have parameters := parameters_eq_ok_iff.mpr ⟨spelled, described.distinct⟩
    have type := typeOf_eq_ok_iff.mpr
      ⟨name, (lookup_eq_some_iff_mem described.distinct).mpr named, lower⟩
    have cost := costOf_eq_ok_iff.mpr ⟨length_decimal_cost_le c, value,
      (lookup_eq_some_iff_mem described.distinct).mpr found, digits⟩
    have subtypes := (subtypesOf_eq_ok_subtypes_iff described.distinct).mpr described.subtypes
    rw [read]
    refine bind_eq_ok_iff.mpr ⟨_, mapError_eq_ok_iff.mpr components, ?_⟩
    refine bind_eq_ok_iff.mpr ⟨_, mapError_eq_ok_iff.mpr fingerprint, ?_⟩
    refine bind_eq_ok_iff.mpr ⟨_, mapError_eq_ok_iff.mpr parameters, ?_⟩
    refine bind_eq_ok_iff.mpr ⟨_, mapError_eq_ok_iff.mpr type, ?_⟩
    refine bind_eq_ok_iff.mpr ⟨_, cost, ?_⟩
    refine bind_eq_ok_iff.mpr ⟨_, mapError_eq_ok_iff.mpr subtypes, ?_⟩
    exact mapError_eq_ok_iff.mpr (Condition.make_self c)

/-- The normalized path of a text, and the parameters that the fields of its query spell. -/
structure HasParts (text path : List Char) (ps : List Parameter) : Prop where
  path_eq : (split (strip text)).normalize.path = some path
  spelled : ∃ query, (split (strip text)).normalize.query = some query ∧
    List.Forall₂ Spells (fields query) ps

theorem exists_describes {c : Condition} (h : read text = .ok c) :
    ∃ path ps, HasParts text path ps ∧ Describes path ps c := by
  obtain ⟨path, query, ps, components, spelled, described⟩ := read_eq_ok_iff.mp h
  obtain ⟨-, -, -, hpath, hquery⟩ := required_eq_ok_iff.mp components
  exact ⟨path, ps, ⟨hpath, query, hquery, spelled⟩, described⟩

end Uri

namespace Condition

open Uri Text

variable {text : String} {c : Condition}

/-- **The cost of an accepted URI is written as its decimal form**, or as that with a line feed
behind it. There is one parameter of the name, and this is all of its value: digits without a
leading zero and without a sign. -/
theorem ofUri_cost_text (h : ofUri text = .ok c) :
    ∃ path ps value, HasParts text.toList path ps ∧
      (∀ other, ("cost".toList, other) ∈ ps ↔ other = value) ∧
      (value = decimal c.cost ∨ value = decimal c.cost ++ ['\n']) := by
  obtain ⟨path, ps, parts, described⟩ := exists_describes h
  obtain ⟨value, found, digits⟩ := described.cost
  exact ⟨path, ps, value, parts, fun other => described.mem_iff found,
    Authority.eq_or_eq_of_dropFinalNewline digits⟩

/-- A URI with the digits of its cost encoded. -/
def encodedUri : String :=
  "ni:///sha-256;AAAAAAAAAAAAAAAAAAAAAAAAAAAAAAAAAAAAAAAAAAA?cost=%31%30&fpt=preimage-sha-256"

theorem ofUri_cost_text_encoded : ∃ c, ofUri encodedUri = .ok c ∧
    ∃ path ps value, HasParts encodedUri.toList path ps ∧
      (∀ other, ("cost".toList, other) ∈ ps ↔ other = value) ∧
      (value = decimal c.cost ∨ value = decimal c.cost ++ ['\n']) := by
  have accepted : (ofUri encodedUri).toOption.map cost = some 10 := by
    decide +kernel
  obtain ⟨c, read, -⟩ := exists_ok_of_map_toOption accepted
  exact ⟨c, read, ofUri_cost_text read⟩

/-- A URI with a line feed behind its cost. -/
def feedUri : String :=
  "ni:///sha-256;AAAAAAAAAAAAAAAAAAAAAAAAAAAAAAAAAAAAAAAAAAA?fpt=preimage-sha-256&cost=5%0A"

/-- The line feed is part of the value of the parameter, but not of the decimal form of the cost. -/
theorem ofUri_cost_lineFeed : ∃ c path ps, ofUri feedUri = .ok c ∧ HasParts feedUri.toList path ps ∧
    ("cost".toList, "5\n".toList) ∈ ps ∧ "5\n".toList ≠ decimal c.cost := by
  have accepted : (ofUri feedUri).toOption.map cost = some 5 := by
    decide +kernel
  obtain ⟨c, read, five⟩ := exists_ok_of_map_toOption accepted
  have path : (split (strip feedUri.toList)).normalize.path =
      some "/sha-256;AAAAAAAAAAAAAAAAAAAAAAAAAAAAAAAAAAAAAAAAAAA".toList := by
    decide +kernel
  have query : (split (strip feedUri.toList)).normalize.query =
      some "fpt=preimage-sha-256&cost=5%0A".toList := by
    decide +kernel
  have spelled : (fields "fpt=preimage-sha-256&cost=5%0A".toList).mapM parameter =
      .ok [("fpt".toList, "preimage-sha-256".toList), ("cost".toList, "5\n".toList)] := by
    decide +kernel
  refine ⟨c, _, _, read, ⟨path, _, query, mapM_parameter_eq_ok_iff.mp spelled⟩, ?_, ?_⟩
  · exact List.mem_cons_of_mem _ List.mem_cons_self
  · rw [five, decimal_of_lt (by decide)]
    decide

/-- **An accepted URI says what the condition holds.** The path is the name of the hash function
and the one text of the fingerprint. No two parameters have the same name; among them are the name
of the type and, for a compound type only, the names of the subtypes, to which its own does not
belong. -/
theorem describes_of_ofUri (h : ofUri text = .ok c) :
    ∃ path ps, HasParts text.toList path ps ∧
      (∃ algorithm, path.dropWhile (· == '/') = algorithm ++ ';' :: Base64Url.encode c.fingerprint ∧
        algorithm.map Char.toLower = hashName) ∧
      (ps.map Prod.fst).Nodup ∧
      (∃ name, ("fpt".toList, name) ∈ ps ∧ name.map Char.toLower = c.type.name.toList) ∧
      (c.isCompound = true → ∃ value subtypes, ("subtypes".toList, value) ∈ ps ∧
        c.subtypes = some subtypes ∧ c.type ∉ subtypes ∧
        ∀ name, name ∈ (items value).map (·.map Char.toLower) ↔
          ∃ t ∈ subtypes, t.name.toList = name) ∧
      (c.isCompound = false → c.subtypes = none ∧ ∀ value, ("subtypes".toList, value) ∉ ps) := by
  obtain ⟨path, ps, parts, described⟩ := exists_describes h
  have subtypes := described.subtypes
  have admissible := c.admissible
  refine ⟨path, ps, parts, described.fingerprint, described.distinct, described.type, ?_, ?_⟩
  · intro compound
    cases hs : c.subtypes with
    | none =>
      rw [hs] at admissible
      exact absurd compound (Bool.eq_false_iff.mp admissible)
    | some s =>
      rw [hs] at admissible subtypes
      obtain ⟨value, found, named⟩ := subtypes
      exact ⟨value, s, found, rfl, admissible.2, named⟩
  · intro simple
    cases hs : c.subtypes with
    | none =>
      rw [hs] at subtypes
      exact ⟨rfl, subtypes⟩
    | some s =>
      rw [hs] at admissible
      exact absurd admissible.1 (Bool.eq_false_iff.mp simple)

/-- A URI with letters of both cases, dot segments, an unknown parameter and a name given twice. -/
def mixedUri : String :=
  "NI:///x/../SHA-256;AAAAAAAAAAAAAAAAAAAAAAAAAAAAAAAAAAAAAAAAAAA" ++
    "?subtypes=RSA-sha-256,,rsa-SHA-256&cost=7&note=%C3%A9&fpt=Prefix-SHA-256"

theorem describes_of_ofUri_mixed : ∃ c path ps value subtypes, ofUri mixedUri = .ok c ∧
    c.isCompound = true ∧ HasParts mixedUri.toList path ps ∧ ("subtypes".toList, value) ∈ ps ∧
    c.subtypes = some subtypes ∧ c.type ∉ subtypes ∧
    ∀ name, name ∈ (items value).map (·.map Char.toLower) ↔
      ∃ t ∈ subtypes, t.name.toList = name := by
  have accepted : (ofUri mixedUri).toOption.map isCompound = some true := by
    decide +kernel
  obtain ⟨c, read, compound⟩ := exists_ok_of_map_toOption accepted
  obtain ⟨path, ps, parts, -, -, -, listed, -⟩ := describes_of_ofUri read
  obtain ⟨value, subtypes, found, same, other, named⟩ := listed compound
  exact ⟨c, path, ps, value, subtypes, read, compound, parts, found, same, other, named⟩

end Condition

end HashConditions
