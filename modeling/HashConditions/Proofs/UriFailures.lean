import HashConditions.Proofs.UriCodec

/-!
# How reading a condition URI fails

Reading the URI of a condition takes one part after the other, and a part that is not as it should
be is a fault of the URI. There is one exception, and only one. The digits of the cost are converted
to a number by a means that takes no more than 4300 of them, and it fails in its own way. So a URI
whose fingerprint, parameters and type have been accepted, and whose cost is written in more
digits, fails with a failure that is none of URIs.

A cost that is too large but has fewer digits is a fault of the URI like any other, since it is
converted and turned down by the condition.

## Main results

* `Uri.read_eq` — what comes before the cost, and what comes after
* `Uri.read_eq_digits_iff` — when the digits are too many
* `Condition.ofUri_fails_as_uri_or_digits` — no other failure
* `Condition.ofUri_costUri` — a URI that fails otherwise, for every number of digits above 4300
-/

namespace HashConditions

theorem mapError_bind {ε δ α β : Type} (x : Except ε α) (f : α → Except ε β) (g : ε → δ) :
    (x >>= f).mapError g = x.mapError g >>= fun a => (f a).mapError g := by
  cases x with
  | error e => rfl
  | ok a => rfl

theorem mapError_mapError {ε δ η α : Type} (x : Except ε α) (f : ε → δ) (g : δ → η) :
    (x.mapError f).mapError g = x.mapError fun e => g (f e) := by
  cases x with
  | error e => rfl
  | ok a => rfl

namespace Uri

open Text

variable {text : List Char} {ps : List Parameter} {n : Nat} {e : Failure}

/-! ### Before and after the cost -/

/-- What a URI says besides the cost and the subtypes. -/
structure Head where
  fingerprint : Bytes
  parameters : List Parameter
  type : ConditionType

/-- What is read before the cost. -/
def readHead (text : List Char) : Except UriFault Head := do
  let (path, query) ← required (split (strip text)).normalize
  let fingerprint ← fingerprintOfPath path
  let parameters ← parameters query
  let type ← typeOf parameters
  return ⟨fingerprint, parameters, type⟩

/-- What is made of the parts when the cost is known. -/
def conclude (head : Head) (cost : Nat) : Except UriFault Condition := do
  let subtypes ← subtypesOf head.type head.parameters
  (Condition.make head.type head.fingerprint cost subtypes).mapError .invalid

/-- Only the cost can fail otherwise than as a fault of the URI. -/
theorem read_eq (text : List Char) :
    read text = (readHead text).mapError .uri >>= fun head =>
      costOf head.parameters >>= fun cost => (conclude head cost).mapError .uri := by
  rw [read, readHead]
  cases required (split (strip text)).normalize with
  | error fault => rfl
  | ok components =>
    obtain ⟨path, query⟩ := components
    show (fingerprintOfPath path).mapError Failure.uri >>= _ =
      (fingerprintOfPath path >>= _).mapError Failure.uri >>= _
    cases fingerprintOfPath path with
    | error fault => rfl
    | ok fingerprint =>
      show (parameters query).mapError Failure.uri >>= _ =
        (parameters query >>= _).mapError Failure.uri >>= _
      cases parameters query with
      | error fault => rfl
      | ok ps =>
        show (typeOf ps).mapError Failure.uri >>= _ = (typeOf ps >>= _).mapError Failure.uri >>= _
        cases typeOf ps with
        | error fault => rfl
        | ok type =>
          show costOf ps >>= _ =
            costOf ps >>= fun cost => (conclude ⟨fingerprint, ps, type⟩ cost).mapError Failure.uri
          simp only [conclude, mapError_bind, mapError_mapError]

/-! ### The digits of the cost -/

/-- The cost is given in `n` digits, as a number is written, and these are too many. -/
def LongCost (ps : List Parameter) (n : Nat) : Prop :=
  ∃ value, ps.lookup "cost".toList = some value ∧
    canonicalDigits (Authority.dropFinalNewline value) = true ∧
    (Authority.dropFinalNewline value).length = n ∧ maxDigits < n

/-- What is wrong with a cost is wrong with the URI, unless the digits are too many. -/
theorem costOf_fails (h : costOf ps = .error e) :
    (∃ why, e = .uri why) ∨ ∃ n, LongCost ps n ∧ e = .unrepresentable (.digits n) := by
  rw [costOf] at h
  split at h
  · cases h
    exact .inl ⟨_, rfl⟩
  · next value found =>
    simp only at h
    split at h
    · cases h
      exact .inl ⟨_, rfl⟩
    · next canonical =>
      rw [Bool.not_eq_true', Bool.not_eq_false] at canonical
      split at h
      · next long =>
        cases h
        exact .inr ⟨_, ⟨value, found, canonical, rfl, long⟩, rfl⟩
      · cases h

theorem costOf_of_long (h : LongCost ps n) : costOf ps = .error (.unrepresentable (.digits n)) := by
  obtain ⟨value, found, canonical, rfl, long⟩ := h
  rw [costOf, found]
  simp only [canonical, Bool.not_true, Bool.false_eq_true, if_false]
  exact if_pos long

/-! ### The whole text -/

/-- What is wrong with a text is wrong with it as a URI, unless the digits of the cost are too many.
Then everything before the cost has been accepted. -/
theorem read_fails (h : read text = .error e) :
    (∃ why, e = .uri why) ∨ ∃ head n, readHead text = .ok head ∧ LongCost head.parameters n ∧
      e = .unrepresentable (.digits n) := by
  rw [read_eq] at h
  obtain before | ⟨head, accepted, h⟩ := bind_eq_error_iff.mp h
  · obtain ⟨fault, -, rfl⟩ := mapError_eq_error_iff.mp before
    exact .inl ⟨fault, rfl⟩
  · obtain at_cost | ⟨cost, -, behind⟩ := bind_eq_error_iff.mp h
    · obtain fault | ⟨n, long, rfl⟩ := costOf_fails at_cost
      · exact .inl fault
      · exact .inr ⟨head, n, mapError_eq_ok_iff.mp accepted, long, rfl⟩
    · obtain ⟨fault, -, rfl⟩ := mapError_eq_error_iff.mp behind
      exact .inl ⟨fault, rfl⟩

theorem read_eq_digits_iff : read text = .error (.unrepresentable (.digits n)) ↔
    ∃ head, readHead text = .ok head ∧ LongCost head.parameters n := by
  constructor
  · intro h
    obtain ⟨_, ⟨⟩⟩ | ⟨head, _, accepted, long, ⟨⟩⟩ := read_fails h
    exact ⟨head, accepted, long⟩
  · rintro ⟨head, accepted, long⟩
    rw [read_eq]
    exact bind_eq_error_iff.mpr (.inr ⟨head, mapError_eq_ok_iff.mpr accepted,
      bind_eq_error_iff.mpr (.inl (costOf_of_long long))⟩)

/-! ### Long costs -/

/-- The URI that has the path of a condition and the given parameters. -/
def writeWith (c : Condition) (ps : List Parameter) : List Char :=
  schemeName ++ ':' :: '/' :: '/' :: '/' :: (writtenSegment c ++ '?' :: writeQuery ps)

/-- Such a URI is accepted up to the cost if the parameters announce a type. -/
theorem readHead_writeWith (c : Condition) {t : ConditionType} (some : ps ≠ [])
    (writable : ∀ p ∈ ps, Writable p) (distinct : firstRepeated [] ps = none)
    (type : typeOf ps = .ok t) : readHead (writeWith c ps) = .ok ⟨c.fingerprint, ps, t⟩ := by
  obtain ⟨hs, slash, question⟩ := writtenSegment_spec c
  have hq := plain_writeQuery writable
  have start : Plain (schemeName ++ [':', '/', '/', '/']) := plain_of_all (by decide)
  have plain : Plain (writeWith c ps) := by
    have all := start.append (hs.append (hq.cons (c := '?') (by decide)))
    rw [List.append_assoc] at all
    exact all
  have stripped : strip (writeWith c ps) = writeWith c ps :=
    strip_of_forall fun d hd => isBlank_of_isPlain (plain d hd)
  have split := split_written question (hs.not_mem (by decide)) (hq.not_mem (by decide))
  rw [readHead, stripped, writeWith, split, normalize_written slash hs hq]
  refine bind_eq_ok_iff.mpr ⟨_, rfl, ?_⟩
  refine bind_eq_ok_iff.mpr ⟨_, fingerprintOfPath_written c, ?_⟩
  refine bind_eq_ok_iff.mpr ⟨_, parameters_written some writable distinct, ?_⟩
  exact bind_eq_ok_iff.mpr ⟨_, type, rfl⟩

theorem forall_isDigit_of_canonicalDigits {digits : List Char}
    (canonical : canonicalDigits digits = true) : ∀ d ∈ digits, isDigit d = true := by
  rw [canonicalDigits.eq_def] at canonical
  split at canonical
  · cases canonical
  · next rest =>
    obtain rfl := List.isEmpty_iff.mp canonical
    exact forall_mem_of_all (by decide)
  · exact List.all_eq_true.mp canonical

theorem isPlain_of_isDigit {d : Char} (h : isDigit d = true) :
    isPlain d = true ∧ d ≠ '&' ∧ d ≠ '\n' :=
  forall_of_isDigit (p := fun d => isPlain d = true ∧ d ≠ '&' ∧ d ≠ '\n') (by decide) h

/-- The parameters that announce a type and a cost. -/
def costParameters (t : ConditionType) (cost : List Char) : List Parameter :=
  [("fpt".toList, t.name.toList), ("cost".toList, cost)]

theorem typeOf_costParameters (t : ConditionType) (cost : List Char) :
    typeOf (costParameters t cost) = .ok t := by
  have found : (costParameters t cost).lookup "fpt".toList = some t.name.toList := rfl
  rw [typeOf, found]
  simp only [ofLetters?_name]

/-- Whatever the fingerprint and the type, a cost of too many digits fails as such. -/
theorem read_writeWith_long (c : Condition) (t : ConditionType) {digits : List Char}
    (canonical : canonicalDigits digits = true) (long : maxDigits < digits.length) :
    read (writeWith c (costParameters t digits)) =
      .error (.unrepresentable (.digits digits.length)) := by
  have plain : ∀ d ∈ digits, isPlain d = true ∧ d ≠ '&' ∧ d ≠ '\n' :=
    fun d hd => isPlain_of_isDigit (forall_isDigit_of_canonicalDigits canonical d hd)
  have writable : ∀ p ∈ costParameters t digits, Writable p := by
    intro p hp
    rw [costParameters, List.mem_cons, List.mem_singleton] at hp
    obtain rfl | rfl := hp
    · exact writable_of_value (by decide) (plain_name t) (separator_not_mem_name t).1
    · exact writable_of_value (by decide) (fun d hd => (plain d hd).1)
        fun h => (plain '&' h).2.1 rfl
  have line : Authority.dropFinalNewline digits = digits :=
    Authority.dropFinalNewline_of_not_mem fun h => (plain '\n' h).2.2 rfl
  have head := readHead_writeWith c (List.cons_ne_nil _ _) writable rfl
    (typeOf_costParameters t digits)
  refine read_eq_digits_iff.mpr ⟨_, head, digits, rfl, ?_, ?_, long⟩
  · rw [line, canonical]
  · rw [line]

end Uri

namespace Condition

/-- **Reading fails as a URI, or on the digits of the cost.** Whatever the text, it is the URI of a
condition, or a fault of the URI is reported, or its cost has too many digits to be converted. The
last happens exactly if all that is read before the cost is accepted and the cost is a number of
more than 4300 digits. -/
theorem ofUri_fails_as_uri_or_digits (text : String) :
    (∀ e, ofUri text = .error e →
        (∃ why, e = .uri why) ∨ ∃ n, e = .unrepresentable (.digits n)) ∧
      ∀ n, ofUri text = .error (.unrepresentable (.digits n)) ↔
        ∃ head, Uri.readHead text.toList = .ok head ∧ Uri.LongCost head.parameters n := by
  refine ⟨fun e failed => ?_, fun n => Uri.read_eq_digits_iff⟩
  obtain fault | ⟨head, n, -, -, rfl⟩ := Uri.read_fails failed
  · exact .inl fault
  · exact .inr ⟨n, rfl⟩

/-- The URI of a condition of preimages with other characters in the place of its cost. -/
def costUri (cost : List Char) : String :=
  "ni:///sha-256;AAAAAAAAAAAAAAAAAAAAAAAAAAAAAAAAAAAAAAAAAAA?fpt=preimage-sha-256&cost=" ++
    String.ofList cost

theorem exists_toList_costUri : ∃ c : Condition, ∀ cost,
    (costUri cost).toList = Uri.writeWith c (Uri.costParameters .preimageSha256 cost) := by
  let c : Condition :=
    ⟨.preimageSha256, List.replicate 32 0, 0, none, List.length_replicate, Nat.zero_le _, rfl⟩
  have front :
      "ni:///sha-256;AAAAAAAAAAAAAAAAAAAAAAAAAAAAAAAAAAAAAAAAAAA?fpt=preimage-sha-256&cost=".toList =
        Uri.writeWith c (Uri.costParameters .preimageSha256 []) := by
    decide +kernel
  refine ⟨c, fun cost => ?_⟩
  have ends : Uri.writeWith c (Uri.costParameters .preimageSha256 []) ++ cost =
      Uri.writeWith c (Uri.costParameters .preimageSha256 cost) := by
    simp only [Uri.writeWith, Uri.costParameters, Uri.writeQuery, Uri.writeParameter,
      List.map_cons, List.map_nil, List.intercalate_cons_cons, List.intercalate_singleton,
      List.append_assoc, List.cons_append, List.nil_append]
  calc (costUri cost).toList
    _ = _ ++ (String.ofList cost).toList := String.toList_append
    _ = _ ++ cost := congrArg₂ (· ++ ·) front String.toList_ofList
    _ = _ := ends

/-- However many digits there are, no fault of the URI is reported if it is more than 4300. -/
theorem ofUri_costUri {digits : List Char} (canonical : Text.canonicalDigits digits = true)
    (long : Text.maxDigits < digits.length) :
    ofUri (costUri digits) = .error (.unrepresentable (.digits digits.length)) := by
  obtain ⟨c, text⟩ := exists_toList_costUri
  rw [ofUri, text]
  exact Uri.read_writeWith_long c .preimageSha256 canonical long

theorem canonicalDigits_ones (n : Nat) :
    Text.canonicalDigits (List.replicate (n + 1) '1') = true := by
  show (List.replicate (n + 1) '1').all Text.isDigit = true
  rw [List.all_replicate]
  rfl

/-- A cost of 4301 ones is no fault of the URI, and the URI is none of a condition. -/
theorem ofUri_costUri_ones :
    ofUri (costUri (List.replicate 4301 '1')) = .error (.unrepresentable (.digits 4301)) ∧
      ¬((∃ c, ofUri (costUri (List.replicate 4301 '1')) = .ok c) ∨
        ∃ why, ofUri (costUri (List.replicate 4301 '1')) = .error (.uri why)) := by
  have fails : ofUri (costUri (List.replicate 4301 '1')) =
      .error (.unrepresentable (.digits 4301)) := by
    have long : Text.maxDigits < (List.replicate 4301 '1').length := by
      rw [List.length_replicate]
      decide
    rw [ofUri_costUri (canonicalDigits_ones 4300) long, List.length_replicate]
  refine ⟨fails, ?_⟩
  rintro (⟨c, read⟩ | ⟨why, read⟩)
  · rw [fails] at read
    cases read
  · rw [fails] at read
    cases read

end Condition

end HashConditions
