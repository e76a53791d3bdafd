import HashConditions.Proofs.QueryFields
import Mathlib.Data.List.Perm.Basic

/-!
# The order of the fields of a query

Which condition a text is the URI of is told by its parameters (`Uri.Describes`), and that says
nothing of their order, nor of parameters that it does not name. So fields may change places and
fields may be added, as long as no name comes up twice.

There is more to it than that, since a text is normalized before it is taken apart. What is decided
for the query as a whole, whether its percent signs are kept, comes out the same. And if the field
that comes to stand last ends in blanks, these are dropped with the blanks around the text. That
changes the value of a parameter. But the only blank in a value that matters is the line feed behind
a cost, which is overlooked in any case.

## Main definitions

* `Uri.Rearranged` — a text whose fields are those of another one, in any order and among others
* `Uri.Shortens` — a parameter whose value has lost blanks at its end

## Main results

* `Uri.Describes.rearrange`, `Uri.Describes.shorten` — parameters that describe the same condition
* `Condition.ofUri_rearranged` — texts that are the URI of the same condition
-/

namespace HashConditions

namespace Uri

open Text Percent Authority

variable {text front query other rest path field kept name value : List Char}
  {fs : List (List Char)} {ps qs extra : List Parameter} {p q : Parameter} {c : Condition}
  {keepPercent : Bool}

/-! ### Parameters that describe the same condition -/

/-- A parameter whose value has lost blanks at its end. -/
def Shortens (p q : Parameter) : Prop :=
  p.1 = q.1 ∧ Trims p.2 q.2

theorem exists_mem_of_forall₂ {α β : Type} {r : α → β → Prop} {as : List α} {bs : List β}
    (h : List.Forall₂ r as bs) : ∀ a ∈ as, ∃ b ∈ bs, r a b := by
  induction h with
  | nil => exact fun a none => absurd none List.not_mem_nil
  | cons first _ ih =>
    rw [List.forall_mem_cons]
    refine ⟨⟨_, List.mem_cons_self, first⟩, fun a among => ?_⟩
    obtain ⟨b, hb, related⟩ := ih a among
    exact ⟨b, List.mem_cons_of_mem _ hb, related⟩

theorem map_fst_of_shortens (h : List.Forall₂ Shortens ps qs) :
    ps.map Prod.fst = qs.map Prod.fst := by
  induction h with
  | nil => rfl
  | cons first _ ih => rw [List.map_cons, List.map_cons, first.1, ih]

/-- A parameter whose value ends in no blank keeps it. -/
theorem mem_of_shortens (h : List.Forall₂ Shortens ps qs) (among : (name, value) ∈ ps)
    (visible : ∀ c ∈ value, isBlank c = false) : (name, value) ∈ qs := by
  obtain ⟨⟨name', value'⟩, hq, same, trims⟩ := exists_mem_of_forall₂ h _ among
  obtain rfl : name = name' := same
  obtain rfl : value' = value := trims.eq visible
  exact hq

/-- Blanks are no letters, so they stay as they are in lower case. -/
theorem toLower_of_isBlank {d : Char} (h : isBlank d = true) : d.toLower = d := by
  have letters : ∀ n < 91, 65 ≤ n → isBlank (Char.ofNat n) = false := by decide
  refine dif_neg ?_
  rintro ⟨above, below⟩
  have visible := letters d.toNat (Nat.lt_succ_of_le (UInt32.le_iff_toNat_le.mp below))
    (UInt32.le_iff_toNat_le.mp above)
  rw [Char.ofNat_toNat, h] at visible
  cases visible

theorem visible_of_map_toLower {t : ConditionType} (h : name.map Char.toLower = t.name.toList) :
    ∀ d ∈ name, isBlank d = false := by
  intro d hd
  by_contra blank
  rw [Bool.not_eq_false] at blank
  have among : d.toLower ∈ t.name.toList := h ▸ List.mem_map_of_mem hd
  rw [toLower_of_isBlank blank] at among
  have visible := isBlank_of_isPlain (plain_name t d among)
  rw [blank] at visible
  cases visible

/-- There are no blanks among names and commas. -/
theorem visible_of_items {types : TypeSet}
    (h : ∀ name, name ∈ (items value).map (·.map Char.toLower) ↔
      ∃ t ∈ types, t.name.toList = name) : ∀ d ∈ value, isBlank d = false := by
  intro d hd
  have joined : d ∈ [','].intercalate (value.splitOn ',') := by rwa [List.intercalate_splitOn]
  obtain rfl | ⟨part, among, inside⟩ := mem_intercalate joined
  · decide
  · have item : part ∈ items value := by
      rw [items, List.mem_filter]
      refine ⟨among, ?_⟩
      cases part with
      | nil => cases inside
      | cons d part => rfl
    obtain ⟨t, -, same⟩ := (h _).mp (List.mem_map_of_mem item)
    exact visible_of_map_toLower same.symm d inside

/-- The line feed behind a cost may be among the blanks that are lost. -/
theorem dropFinalNewline_of_trims {n : Nat} (h : dropFinalNewline value = decimal n)
    (trims : Trims value kept) : dropFinalNewline kept = decimal n := by
  have visible : ∀ d ∈ decimal n, isBlank d = false :=
    forall_mem_decimal (p := fun d => isBlank d = false) (by decide) n
  obtain rfl | rfl := eq_or_eq_of_dropFinalNewline h
  · rw [trims.eq visible, h]
  · obtain ⟨blanks, blank, same⟩ := trims
    obtain rfl | ⟨others, d, rfl⟩ := List.eq_nil_or_concat blanks
    · rw [List.append_nil] at same
      rw [← same, h]
    · rw [List.concat_eq_append, ← List.append_assoc] at same
      have shorter : Trims (decimal n) kept := by
        refine ⟨others, fun e he => blank e ?_, (List.append_inj' same rfl).1⟩
        rw [List.concat_eq_append]
        exact List.mem_append_left _ he
      rw [shorter.eq visible, dropFinalNewline_decimal]

/-- **The blanks behind a value do not matter.** -/
theorem Describes.shorten (h : Describes path ps c) (shortens : List.Forall₂ Shortens ps qs) :
    Describes path qs c where
  fingerprint := h.fingerprint
  distinct := map_fst_of_shortens shortens ▸ h.distinct
  type := by
    obtain ⟨name, found, lower⟩ := h.type
    exact ⟨name, mem_of_shortens shortens found (visible_of_map_toLower lower), lower⟩
  cost := by
    obtain ⟨value, found, digits⟩ := h.cost
    obtain ⟨⟨name, value'⟩, hq, same, trims⟩ := exists_mem_of_forall₂ shortens _ found
    obtain rfl : "cost".toList = name := same
    exact ⟨value', hq, dropFinalNewline_of_trims digits trims⟩
  subtypes := by
    have names := map_fst_of_shortens shortens
    have described := h.subtypes
    cases hsubtypes : c.subtypes with
    | none =>
      rw [hsubtypes] at described
      intro value found
      have among : "subtypes".toList ∈ ps.map Prod.fst := names ▸ List.mem_map_of_mem found
      obtain ⟨⟨_, value'⟩, hp, rfl⟩ := List.mem_map.mp among
      exact described value' hp
    | some types =>
      rw [hsubtypes] at described
      obtain ⟨value, found, named⟩ := described
      exact ⟨value, mem_of_shortens shortens found (visible_of_items named), named⟩

/-! ### Parameters that are added -/

/-- Whether a text is made of letters, digits, hyphens and underscores. -/
def isWord (text : List Char) : Bool :=
  text.all fun d => d.isAlphanum || d == '-' || d == '_'

/-- Parameters that may be added to others: their names and values are words, and their names are
distinct, new and none of those that have a meaning. -/
structure Foreign (ps extra : List Parameter) : Prop where
  words : ∀ p ∈ extra, isWord p.1 = true ∧ isWord p.2 = true
  distinct : (extra.map Prod.fst).Nodup
  new : ∀ p ∈ extra, p.1 ∉ ps.map Prod.fst
  unused : ∀ p ∈ extra, p.1 ∉ ["fpt".toList, "cost".toList, "subtypes".toList]

theorem isPlain_of_isWord (h : isWord text = true) :
    ∀ d ∈ text, isPlain d = true ∧ d ≠ '=' ∧ d ≠ '&' := by
  intro d hd
  have char := List.all_eq_true.mp h d hd
  rw [Bool.or_eq_true, Bool.or_eq_true, beq_iff_eq, beq_iff_eq] at char
  obtain (alphanumeric | rfl) | rfl := char
  · have plain : isPlain d = true := by rw [isPlain, alphanumeric, Bool.true_or]
    refine ⟨plain, ?_, ?_⟩
    · rintro rfl
      exact absurd alphanumeric (by decide)
    · rintro rfl
      exact absurd alphanumeric (by decide)
  · exact ⟨by decide, by decide, by decide⟩
  · exact ⟨by decide, by decide, by decide⟩

theorem Foreign.writable (h : Foreign ps extra) : ∀ p ∈ extra, Writable p := by
  intro p hp
  have name := isPlain_of_isWord (h.words p hp).1
  have value := isPlain_of_isWord (h.words p hp).2
  exact ⟨fun d hd => (name d hd).1, fun d hd => (value d hd).1, fun among => (name _ among).2.1 rfl,
    fun among => (name _ among).2.2 rfl, fun among => (value _ among).2.2 rfl⟩

/-- **Neither the order of parameters matters nor those that have no meaning.** -/
theorem Describes.rearrange (h : Describes path ps c) (foreign : Foreign ps extra)
    (perm : qs.Perm (ps ++ extra)) : Describes path qs c where
  fingerprint := h.fingerprint
  distinct := by
    rw [(perm.map Prod.fst).nodup_iff, List.map_append, List.nodup_append]
    refine ⟨h.distinct, foreign.distinct, ?_⟩
    rintro name known _ added rfl
    obtain ⟨p, hp, rfl⟩ := List.mem_map.mp added
    exact foreign.new p hp known
  type := by
    obtain ⟨name, found, lower⟩ := h.type
    exact ⟨name, perm.mem_iff.mpr (List.mem_append_left extra found), lower⟩
  cost := by
    obtain ⟨value, found, digits⟩ := h.cost
    exact ⟨value, perm.mem_iff.mpr (List.mem_append_left extra found), digits⟩
  subtypes := by
    have described := h.subtypes
    cases hsubtypes : c.subtypes with
    | none =>
      rw [hsubtypes] at described
      intro value found
      obtain known | added := List.mem_append.mp (perm.mem_iff.mp found)
      · exact described value known
      · exact foreign.unused _ added (by simp)
    | some types =>
      rw [hsubtypes] at described
      obtain ⟨value, found, named⟩ := described
      exact ⟨value, perm.mem_iff.mpr (List.mem_append_left extra found), named⟩

/-! ### Fields -/

/-- A field that loses blanks at its end spells a parameter that does. -/
theorem Spells.trim (formed : keepPercent = true → Encoded (fun _ => true) field)
    (h : Spells (normal keepPercent field) p) (trims : Trims field kept) :
    ∃ q, Spells (normal keepPercent kept) q ∧ Shortens p q := by
  have shorter := fun keep => (encoded_iff_of_trims trims).mp (formed keep)
  obtain ⟨blanks, blank, rfl⟩ := trims
  obtain ⟨name, value, first, whole, rfl⟩ := h
  have absent : '=' ∉ normal keepPercent blanks := by
    refine not_mem_normal (by decide) (by decide) (fun _ => ?_) fun among => ?_
    · exact encoded_of_forall_ne fun d hd => ne_of_isBlank (by decide) (blank d hd)
    · exact ne_of_isBlank (by decide) (blank '=' among) rfl
  rw [normal_append shorter] at whole
  obtain ⟨tail, -, behind⟩ | ⟨tail, front, behind⟩ := List.append_eq_append_iff.mp whole
  · exact absurd (behind ▸ List.mem_append_right tail List.mem_cons_self) absent
  · cases tail with
    | nil =>
      have start : '=' :: value = normal keepPercent blanks := behind
      exact absurd (start ▸ List.mem_cons_self) absent
    | cons d tail =>
      obtain ⟨rfl, rfl⟩ := List.cons.inj behind
      have parts : Encoded (fun _ => true) (name ++ '=' :: tail) :=
        front ▸ encoded_normal shorter fun _ _ => rfl
      have end_formed := ((encoded_append_cons_iff (by decide) (by decide) rfl).mp parts).2
      refine ⟨_, ⟨name, tail, first, front, rfl⟩, rfl, blanks, blank, ?_⟩
      exact decode_append_normal end_formed blank

theorem exists_forall₂_trim {fs' : List (List Char)} (trims : List.Forall₂ Trims fs fs')
    (formed : keepPercent = true → ∀ field ∈ fs, Encoded (fun _ => true) field)
    (h : List.Forall₂ (fun field => Spells (normal keepPercent field)) fs ps) :
    ∃ qs, List.Forall₂ (fun field => Spells (normal keepPercent field)) fs' qs ∧
      List.Forall₂ Shortens ps qs := by
  induction trims generalizing ps with
  | nil =>
    cases h
    exact ⟨[], .nil, .nil⟩
  | cons first _ ih =>
    cases h with
    | cons spells rest =>
      obtain ⟨q, hq, shortens⟩ :=
        spells.trim (fun keep => formed keep _ List.mem_cons_self) first
      obtain ⟨qs, hqs, others⟩ :=
        ih (fun keep field among => formed keep field (List.mem_cons_of_mem _ among)) rest
      exact ⟨q :: qs, .cons hq hqs, .cons shortens others⟩

/-- A word in a query stays as it is. -/
theorem spells_of_writable (h : Writable p) :
    Spells (normal keepPercent (writeParameter p)) p := by
  rw [normal_of_plain h.plain_field]
  exact parameter_eq_ok_iff.mp (parameter_written h)

/-- The fields of a query in normal form, where there are any. -/
theorem forall₂_spells_fields_iff (filled : ps ≠ [])
    (formed : keepPercent = true → Encoded (fun _ => true) query) :
    List.Forall₂ Spells (fields (normal keepPercent query)) ps ↔
      List.Forall₂ (fun field => Spells (normal keepPercent field)) (query.splitOn '&') ps := by
  have mapped : List.Forall₂ (fun field => Spells (normal keepPercent field))
      (query.splitOn '&') ps ↔ List.Forall₂ Spells ((normal keepPercent query).splitOn '&') ps := by
    rw [splitOn_normal formed, List.forall₂_map_left_iff]
  rw [mapped, fields]
  cases normal keepPercent query with
  | nil =>
    constructor
    · intro h
      cases h
      exact absurd rfl filled
    · intro h
      cases h with
      | cons spells _ =>
        obtain ⟨name, value, -, none, -⟩ := spells
        simp at none
  | cons d text => rfl

/-! ### Texts -/

/-- Two texts with other queries at the same place have the same other components. -/
theorem required_of_queryAt {changed : List Char} (h : QueryAt text front query rest)
    (h' : QueryAt changed front other rest) {normalized : List Char}
    (components : required (split text).normalize = .ok (path, normalized)) :
    normalized = normal (wellFormed query) query ∧
      required (split changed).normalize = .ok (path, normal (wellFormed other) other) := by
  rw [h.split_eq, required_eq_ok_iff] at components
  rw [h'.split_eq, required_eq_ok_iff]
  obtain ⟨scheme, authority, fragment, hpath, hquery⟩ := components
  rw [← capitalize_encode, ← capitalize_encode]
  exact ⟨(Option.some.inj hquery).symm, scheme, authority, fragment, hpath, rfl⟩

/-- A text whose query has the fields of another one's in any order, and among them fields that were
added. -/
inductive Rearranged (text : List Char) : List Char → Prop
  | intro {front query rest path : List Char} {ps extra : List Parameter} {fs : List (List Char)}
      (place : QueryAt text front query rest) (parts : HasParts text path ps)
      (foreign : Foreign ps extra)
      (perm : fs.Perm (query.splitOn '&' ++ extra.map writeParameter)) :
      Rearranged text (front ++ '?' :: (['&'].intercalate fs ++ rest))

/-- A query can be put together from any fields of another one and from words. -/
theorem queryAt_intercalate (place : QueryAt text front query rest) (foreign : Foreign ps extra)
    (perm : fs.Perm (query.splitOn '&' ++ extra.map writeParameter)) :
    QueryAt (front ++ '?' :: (['&'].intercalate fs ++ rest)) front (['&'].intercalate fs) rest ∧
      (['&'].intercalate fs).splitOn '&' = fs := by
  have apart : ∀ field ∈ fs, '&' ∉ field ∧ '#' ∉ field := by
    intro field among
    obtain known | added := List.mem_append.mp (perm.mem_iff.mp among)
    · obtain ⟨absent, inside⟩ := of_mem_splitOn known
      exact ⟨absent, fun hash => place.inside (inside '#' hash)⟩
    · obtain ⟨p, hp, rfl⟩ := List.mem_map.mp added
      have writable := foreign.writable p hp
      exact ⟨writable.field_and, writable.plain_field.not_mem (by decide)⟩
  have filled : fs ≠ [] := by
    rintro rfl
    exact List.splitOn_ne_nil '&' query (List.append_eq_nil_iff.mp perm.symm.eq_nil).1
  refine ⟨⟨rfl, place.question, place.early, fun hash => ?_, place.behind⟩,
    List.splitOn_intercalate '&' (fun field among => (apart field among).1) filled⟩
  obtain clash | ⟨field, among, inside⟩ := mem_intercalate hash
  · exact absurd clash (by decide)
  · exact (apart field among).2 inside

/-- The parts of a text that is read are those that describe its condition. -/
theorem describes_of_hasParts (h : read text = .ok c) (parts : HasParts text path ps) :
    ∃ normalized, required (split (Text.strip text)).normalize = .ok (path, normalized) ∧
      List.Forall₂ Spells (fields normalized) ps ∧ Describes path ps c := by
  obtain ⟨path', normalized, qs, components, spelled, described⟩ := read_eq_ok_iff.mp h
  obtain ⟨-, -, -, hpath, hquery⟩ := required_eq_ok_iff.mp components
  obtain ⟨path_eq, normalized', query_eq, spelled'⟩ := parts
  obtain rfl : path' = path := Option.some.inj (hpath.symm.trans path_eq)
  obtain rfl : normalized = normalized' := Option.some.inj (hquery.symm.trans query_eq)
  have same : Except.ok qs = Except.ok ps :=
    (mapM_parameter_eq_ok_iff.mpr spelled).symm.trans (mapM_parameter_eq_ok_iff.mpr spelled')
  cases same
  exact ⟨normalized, components, spelled, described⟩

theorem Describes.ne_nil (h : Describes path ps c) : ps ≠ [] := by
  rintro rfl
  obtain ⟨name, none, -⟩ := h.type
  exact absurd none List.not_mem_nil

/-- The percent signs of a query are treated alike if fields change places, words are added and
blanks at the end are dropped. -/
theorem wellFormed_of_perm (foreign : Foreign ps extra)
    (perm : (other.splitOn '&').Perm (query.splitOn '&' ++ extra.map writeParameter)) :
    Encoded (fun _ => true) other ↔ Encoded (fun _ => true) query := by
  have added : ∀ field ∈ extra.map writeParameter, Encoded (fun _ => true) field := by
    intro field hfield
    obtain ⟨p, hp, rfl⟩ := List.mem_map.mp hfield
    refine encoded_of_forall_ne fun d hd => ?_
    rintro rfl
    exact (foreign.writable p hp).plain_field.not_mem (by decide) hd
  rw [encoded_iff_forall_splitOn, encoded_iff_forall_splitOn]
  constructor
  · intro all field among
    exact all field (perm.mem_iff.mpr (List.mem_append_left _ among))
  · intro all field among
    obtain known | new := List.mem_append.mp (perm.mem_iff.mp among)
    · exact all field known
    · exact added field new

/-- A text that is rearranged is read as the same condition. -/
theorem read_rearranged {changed : List Char} (h : read text = .ok c)
    (bare : Text.strip text = text) (arranged : Rearranged text changed) :
    read changed = .ok c := by
  obtain ⟨place, parts, foreign, perm⟩ := arranged
  rename_i front query rest path ps extra fs
  obtain ⟨place', fields_eq⟩ := queryAt_intercalate place foreign perm
  rw [← fields_eq] at perm
  obtain ⟨normalized, components, spelled, described⟩ := describes_of_hasParts h parts
  obtain ⟨kept, trims, stripped⟩ := place.strip bare place'
  rw [bare] at components
  obtain ⟨rfl, components'⟩ := required_of_queryAt place stripped components
  -- Percent signs are treated as before, field by field.
  have formed : wellFormed query = true → Encoded (fun _ => true) query := wellFormed_iff.mp
  have formed_other := wellFormed_of_perm foreign perm
  have formed_kept : wellFormed kept = wellFormed query := by
    rw [Bool.eq_iff_iff, wellFormed_iff, wellFormed_iff, ← encoded_iff_of_trims trims]
    exact formed_other
  -- The fields spell the parameters in their new order, and those that were added.
  have all : List.Forall₂ (fun field => Spells (normal (wellFormed query) field))
      (query.splitOn '&' ++ extra.map writeParameter) (ps ++ extra) := by
    refine List.rel_append ((forall₂_spells_fields_iff described.ne_nil formed).mp spelled) ?_
    rw [List.forall₂_map_left_iff, List.forall₂_same]
    exact fun p hp => spells_of_writable (foreign.writable p hp)
  obtain ⟨qs, reordered, perm'⟩ := List.perm_comp_forall₂ perm all
  obtain ⟨rs, shorter, shortens⟩ := exists_forall₂_trim (trims.splitOn (by decide))
    (fun keep => encoded_iff_forall_splitOn.mp (formed_other.mpr (formed keep))) reordered
  have described' := (described.rearrange foreign perm').shorten shortens
  refine read_eq_ok_iff.mpr ⟨path, _, rs, components', ?_, described'⟩
  rw [formed_kept]
  refine (forall₂_spells_fields_iff described'.ne_nil fun keep => ?_).mpr shorter
  exact (encoded_iff_of_trims trims).mp (formed_other.mpr (formed keep))

/-- The texts that are read have a query, and no field has to change its place. -/
theorem rearranged_self (h : read text = .ok c) (bare : Text.strip text = text) :
    Rearranged text text := by
  obtain ⟨path, ps, parts, -⟩ := exists_describes h
  obtain ⟨normalized, query_eq, -⟩ := parts.spelled
  rw [bare] at query_eq
  obtain ⟨query, hquery, -⟩ := Option.map_eq_some_iff.mp query_eq
  obtain ⟨front, rest, place⟩ := exists_queryAt hquery
  have none : Foreign ps [] :=
    ⟨fun _ none => absurd none List.not_mem_nil, .nil, fun _ none => absurd none List.not_mem_nil,
      fun _ none => absurd none List.not_mem_nil⟩
  have same : (query.splitOn '&').Perm
      (query.splitOn '&' ++ ([] : List Parameter).map writeParameter) := by
    rw [List.map_nil, List.append_nil]
  have arranged := Rearranged.intro place parts none same
  rw [List.intercalate_splitOn, ← place.whole] at arranged
  exact arranged

end Uri

namespace Condition

open Uri Text

variable {text : String} {c : Condition}

/-- **Neither the order of fields matters nor those that are unknown.** An accepted text without
blanks at its ends has a query. Its fields may stand in any order, with words as further parameters
anywhere between them, and the text still is the URI of the same condition. -/
theorem ofUri_rearranged (h : ofUri text = .ok c) (bare : strip text.toList = text.toList) :
    Rearranged text.toList text.toList ∧
      ∀ changed : String, Rearranged text.toList changed.toList → ofUri changed = .ok c :=
  ⟨rearranged_self h bare, fun _ arranged => read_rearranged h bare arranged⟩

/-- A URI with a line feed behind its cost and a percent sign that starts no encoded octet. -/
def strayUri : String :=
  "ni:///sha-256;AAAAAAAAAAAAAAAAAAAAAAAAAAAAAAAAAAAAAAAAAAA?fpt=preimage-sha-256&cost=5\n&%6=%"

/-- The same fields in another order, with one that has no value among them. -/
def rearrangedUri : String :=
  "ni:///sha-256;AAAAAAAAAAAAAAAAAAAAAAAAAAAAAAAAAAAAAAAAAAA" ++
    "?%6=%&-x_1=&fpt=preimage-sha-256&cost=5\n"

/-- The line feed behind the cost is inside of one text and at the end of the other. -/
theorem ofUri_rearranged_stray : ∃ c, ofUri strayUri = .ok c ∧
    strip strayUri.toList = strayUri.toList ∧ Rearranged strayUri.toList rearrangedUri.toList ∧
    ofUri rearrangedUri = .ok c := by
  have accepted : (ofUri strayUri).toOption.map cost = some 5 := by
    decide +kernel
  obtain ⟨c, read, -⟩ := exists_ok_of_map_toOption accepted
  have bare : strip strayUri.toList = strayUri.toList := by
    decide +kernel
  have path : (split (strip strayUri.toList)).normalize.path =
      some "/sha-256;AAAAAAAAAAAAAAAAAAAAAAAAAAAAAAAAAAAAAAAAAAA".toList := by
    decide +kernel
  have query : (split (strip strayUri.toList)).normalize.query =
      some "fpt=preimage-sha-256&cost=5%0A&%256=%25".toList := by
    decide +kernel
  have spelled : (fields "fpt=preimage-sha-256&cost=5%0A&%256=%25".toList).mapM parameter =
      .ok [("fpt".toList, "preimage-sha-256".toList), ("cost".toList, "5\n".toList),
        ("%6".toList, "%".toList)] := by
    decide +kernel
  have place : QueryAt strayUri.toList
      "ni:///sha-256;AAAAAAAAAAAAAAAAAAAAAAAAAAAAAAAAAAAAAAAAAAA".toList
      "fpt=preimage-sha-256&cost=5\n&%6=%".toList [] := by
    refine ⟨?_, ?_, ?_, ?_, fun _ none => by cases none⟩ <;> decide +kernel
  have foreign : Foreign [("fpt".toList, "preimage-sha-256".toList), ("cost".toList, "5\n".toList),
      ("%6".toList, "%".toList)] [("-x_1".toList, [])] := by
    constructor <;> decide +kernel
  have perm : ["%6=%".toList, "-x_1=".toList, "fpt=preimage-sha-256".toList,
      "cost=5\n".toList].Perm (("fpt=preimage-sha-256&cost=5\n&%6=%".toList).splitOn '&' ++
        [("-x_1".toList, [])].map writeParameter) := by
    decide +kernel
  have arranged :=
    Rearranged.intro place ⟨path, _, query, mapM_parameter_eq_ok_iff.mp spelled⟩ foreign perm
  have whole : "ni:///sha-256;AAAAAAAAAAAAAAAAAAAAAAAAAAAAAAAAAAAAAAAAAAA".toList ++ '?' ::
      (['&'].intercalate ["%6=%".toList, "-x_1=".toList, "fpt=preimage-sha-256".toList,
        "cost=5\n".toList] ++ []) = rearrangedUri.toList := by
    decide +kernel
  rw [whole] at arranged
  exact ⟨c, read, bare, arranged, (ofUri_rearranged read bare).2 rearrangedUri arranged⟩

end Condition

end HashConditions
