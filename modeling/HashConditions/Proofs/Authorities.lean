import HashConditions.Proofs.Cutting
import HashConditions.Proofs.Decimals
import HashConditions.Uri.Authority

/-!
# Which authorities are left

Taking an authority apart is a chain of greedy readers: user information up to the first at sign,
the longest host, an optional colon and digits up to the end. Here the form that they look for is
stated without them, as a text that is put together from parts, and an authority survives exactly if
it has that form with parts that name something. A host may be empty, and so may the number behind a
colon, so the form alone does not keep an authority.

Greed leaves one trace in the form. A number without a colon can only stand behind a bracket, since
behind a name its digits belong to the name.

## Main definitions

* `Authority.Encoded` — a text of given characters and encoded octets
* `Authority.Form` — an authority and the parts that it is put together from
* `Authority.Named` — an authority whose parts name something

## Main results

* `Authority.survives_iff` — what is left is what names something
-/

namespace HashConditions

namespace Authority

open Text

variable {allowed : Char → Bool} {c : Char}
  {text front back user host number tail authority : List Char}

/-! ### Encoded text -/

/-- A text of the given characters and of encoded octets. -/
inductive Encoded (allowed : Char → Bool) : List Char → Prop
  | nil : Encoded allowed []
  | char {c : Char} {rest : List Char} (other : c ≠ '%') (allows : allowed c = true)
      (h : Encoded allowed rest) : Encoded allowed (c :: rest)
  | octet {high low : Char} {rest : List Char} (first : isHexDigit high = true)
      (second : isHexDigit low = true) (h : Encoded allowed rest) :
      Encoded allowed ('%' :: high :: low :: rest)

/-- A start of a text is as long as it can be if what follows is no allowed character. -/
theorem spanEncoded_append (h : Encoded allowed front)
    (stop : ∀ c ∈ back.head?, c ≠ '%' ∧ allowed c = false) :
    spanEncoded allowed (front ++ back) = (front, back) := by
  induction h with
  | nil =>
    cases back with
    | nil => rfl
    | cons c back =>
      obtain ⟨other, ends⟩ := stop c rfl
      rw [List.nil_append, spanEncoded]
      · simp [ends]
      · rintro high low rest rfl
        exact absurd rfl other
  | char other allows _ ih =>
    rw [List.cons_append, spanEncoded]
    · simp [other, allows, ih]
    · rintro high low rest rfl
      exact absurd rfl other
  | octet first second _ ih =>
    rw [List.cons_append, List.cons_append, List.cons_append, spanEncoded]
    simp [first, second, ih]

/-- A text is cut behind its longest encoded start. -/
theorem encoded_of_spanEncoded (h : spanEncoded allowed text = (front, back)) :
    text = front ++ back ∧ Encoded allowed front ∧
      ∀ c ∈ back.head?, c = '%' ∨ allowed c = false := by
  induction text using spanEncoded.induct allowed generalizing front back with
  | case1 high low rest digits front' back' spans ih =>
    obtain ⟨rfl, encoded, stop⟩ := ih spans
    rw [spanEncoded, if_pos digits, spans] at h
    cases h
    rw [Bool.and_eq_true] at digits
    exact ⟨rfl, .octet digits.1 digits.2 encoded, stop⟩
  | case2 high low rest digits =>
    rw [spanEncoded, if_neg digits] at h
    cases h
    exact ⟨rfl, .nil, fun c hc => .inl (Option.some.inj hc).symm⟩
  | case3 c rest other allows front' back' spans ih =>
    obtain ⟨rfl, encoded, stop⟩ := ih spans
    rw [spanEncoded, if_pos allows, spans] at h
    · cases h
      rw [Bool.and_eq_true, bne_iff_ne] at allows
      exact ⟨rfl, .char allows.1 allows.2 encoded, stop⟩
    · exact other
  | case4 c rest other allows =>
    rw [spanEncoded, if_neg allows] at h
    · cases h
      refine ⟨rfl, .nil, fun d hd => ?_⟩
      obtain rfl := Option.some.inj hd
      by_cases percent : c = '%'
      · exact .inl percent
      · exact .inr (by simpa [percent] using allows)
    · exact other
  | case5 =>
    cases h
    exact ⟨rfl, .nil, fun c hc => nomatch hc⟩

theorem Encoded.not_mem (h : Encoded allowed text) (percent : c ≠ '%')
    (digit : isHexDigit c = false) (other : allowed c = false) : c ∉ text := by
  induction h with
  | nil => exact List.not_mem_nil
  | char _ allows _ ih =>
    rw [List.mem_cons, not_or]
    refine ⟨?_, ih⟩
    rintro rfl
    exact absurd allows (Bool.eq_false_iff.mp other)
  | octet first second _ ih =>
    simp only [List.mem_cons, not_or]
    refine ⟨percent, ?_, ?_, ih⟩
    · rintro rfl
      exact absurd first (Bool.eq_false_iff.mp digit)
    · rintro rfl
      exact absurd second (Bool.eq_false_iff.mp digit)

theorem isEncoded_iff : isEncoded allowed text = true ↔ text ≠ [] ∧ Encoded allowed text := by
  rw [isEncoded, Bool.and_eq_true, Bool.not_eq_true', List.isEmpty_eq_false_iff,
    List.isEmpty_iff]
  refine and_congr_right fun _ => ⟨fun whole => ?_, fun encoded => ?_⟩
  · have spans := (Prod.eta (spanEncoded allowed text)).symm
    obtain ⟨same, encoded, -⟩ := encoded_of_spanEncoded spans
    rw [whole, List.append_nil] at same
    exact same ▸ encoded
  · have spans : spanEncoded allowed (text ++ []) = (text, []) :=
      spanEncoded_append encoded fun c hc => nomatch hc
    rw [List.append_nil] at spans
    rw [spans]

/-! ### Parts -/

/-- The characters of user information. -/
def isUserChar (c : Char) : Bool :=
  isNameChar c || c == ':'

/-- A host in brackets: a numeric address of version 6 or later. -/
def IsLiteral (host : List Char) : Prop :=
  ∃ address, ']' ∉ address ∧ (isZoned address = true ∨ isFuture address = true) ∧
    host = '[' :: (address ++ [']'])

theorem isDigit_spec {d : Char} (h : isDigit d = true) :
    isNameChar d = true ∧ d ≠ '%' ∧ d ≠ ':' ∧ d ≠ '@' ∧ d ≠ '\n' :=
  forall_of_isDigit (p := fun d => isNameChar d = true ∧ d ≠ '%' ∧ d ≠ ':' ∧ d ≠ '@' ∧ d ≠ '\n')
    (by decide) h

/-- User information ends at the first at sign, and without one there is none. -/
theorem userinfo?_eq_some_iff : userinfo? text = some (user, tail) ↔ Encoded isUserChar user ∧
    (user = [] ∧ '@' ∉ text ∧ tail = text ∨ user ≠ [] ∧ text = user ++ '@' :: tail) := by
  rw [userinfo?]
  by_cases sign : '@' ∈ text
  · obtain ⟨front, back, rfl, first⟩ := List.eq_append_cons_of_mem sign
    have behind : (front ++ '@' :: back).drop (front.length + 1) = back := by
      rw [← List.drop_drop, List.drop_left]
      rfl
    rw [if_pos (List.contains_iff_mem.mpr sign)]
    simp only [takeWhile_bne first, behind]
    constructor
    · intro h
      split at h
      · next encoded =>
        cases h
        obtain ⟨filled, encoded⟩ := isEncoded_iff.mp encoded
        exact ⟨encoded, .inr ⟨filled, rfl⟩⟩
      · cases h
    · rintro ⟨encoded, ⟨-, missing, -⟩ | ⟨filled, same⟩⟩
      · exact absurd sign missing
      · have other := encoded.not_mem (c := '@') (by decide) (by decide) (by decide)
        have cut : (user ++ '@' :: tail).takeWhile (· != '@') = user := takeWhile_bne other
        rw [← same, takeWhile_bne first] at cut
        subst cut
        rw [List.append_cancel_left_eq, List.cons.injEq] at same
        rw [← same.2]
        exact if_pos (isEncoded_iff.mpr ⟨filled, encoded⟩)
  · rw [if_neg (mt List.contains_iff_mem.mp sign), Option.some.injEq, Prod.mk.injEq]
    constructor
    · rintro ⟨rfl, rfl⟩
      exact ⟨.nil, .inl ⟨rfl, sign, rfl⟩⟩
    · rintro ⟨-, ⟨rfl, -, rfl⟩ | ⟨-, rfl⟩⟩
      · exact ⟨rfl, rfl⟩
      · exact absurd (List.mem_append_right user List.mem_cons_self) sign

theorem host?_of_name (name : Encoded isNameChar host) (stop : ∀ c ∈ tail.head?, c = ':') :
    host? (host ++ tail) = some (host, tail) := by
  have bracket : '[' ∉ host := name.not_mem (by decide) (by decide) (by decide)
  have spans : spanEncoded isNameChar (host ++ tail) = (host, tail) := by
    refine spanEncoded_append name fun c hc => ?_
    rw [stop c hc]
    exact ⟨by decide, by decide⟩
  rw [host?.eq_def]
  split
  · next rest starts =>
    cases host with
    | nil => exact absurd (stop '[' (by rw [← List.nil_append tail, starts]; rfl)) (by decide)
    | cons c host =>
      rw [List.cons_append, List.cons.injEq] at starts
      exact absurd (starts.1 ▸ List.mem_cons_self) bracket
  · rw [spans]

theorem host?_of_literal (literal : IsLiteral host) : host? (host ++ tail) = some (host, tail) := by
  obtain ⟨address, single, known, rfl⟩ := literal
  have numeric : (isZoned address || isFuture address) = true := by
    rwa [Bool.or_eq_true]
  rw [List.cons_append, List.append_assoc, List.singleton_append, host?]
  simp only [takeWhile_bne single, List.drop_left, numeric]
  rfl

theorem of_host? (h : host? text = some (host, tail)) : text = host ++ tail ∧
    (Encoded isNameChar host ∧ (∀ c ∈ tail.head?, c = '%' ∨ isNameChar c = false) ∨
      IsLiteral host) := by
  rw [host?.eq_def] at h
  split at h
  · next rest =>
    by_cases closed : ']' ∈ rest
    · obtain ⟨address, back, rfl, single⟩ := List.eq_append_cons_of_mem closed
      simp only [takeWhile_bne single, List.drop_left, List.isEmpty_cons, Bool.false_or] at h
      split at h
      · cases h
      · next known =>
        rw [Bool.not_eq_true', Bool.not_eq_false, Bool.or_eq_true] at known
        cases h
        refine ⟨?_, .inr ⟨address, single, known, rfl⟩⟩
        rw [List.cons_append, List.append_assoc]
        rfl
    · simp only [takeWhile_bne_of_not_mem closed, List.drop_length] at h
      cases h
  · obtain ⟨same, encoded, stop⟩ := encoded_of_spanEncoded (Option.some.inj h)
    exact ⟨same, .inl ⟨encoded, stop⟩⟩

theorem number?_eq_some_iff : number? text = some number ↔ number.length ≤ 5 ∧
    (∀ d ∈ number, isDigit d = true) ∧ (text = ':' :: number ∨ text = number) := by
  have fits : ∀ digits : List Char,
      (if digits.length ≤ 5 && digits.all isDigit then some digits else none) = some number ↔
        number.length ≤ 5 ∧ (∀ d ∈ number, isDigit d = true) ∧ digits = number := by
    intro digits
    rw [Option.ite_none_right_eq_some, Option.some.injEq, Bool.and_eq_true, decide_eq_true_eq,
      List.all_eq_true]
    constructor
    · rintro ⟨⟨short, digital⟩, rfl⟩
      exact ⟨short, digital, rfl⟩
    · rintro ⟨short, digital, rfl⟩
      exact ⟨⟨short, digital⟩, rfl⟩
  refine (fits _).trans (and_congr_right fun _ => and_congr_right fun digital => ?_)
  by_cases colon : text.head? = some ':'
  · obtain ⟨digits, rfl⟩ := List.head?_eq_some_iff.mp colon
    constructor
    · rintro rfl
      exact .inl rfl
    · rintro (same | rfl)
      · exact (List.cons.inj same).2
      · exact absurd rfl (isDigit_spec (digital ':' List.mem_cons_self)).2.2.1
  · rw [if_neg (mt beq_iff_eq.mp colon)]
    constructor
    · exact .inr
    · rintro (rfl | same)
      · exact absurd rfl colon
      · exact same

/-- Without a line feed at its end, a text is what it was or one line feed shorter. -/
theorem eq_or_eq_of_dropFinalNewline (h : dropFinalNewline text = front) :
    text = front ∨ text = front ++ ['\n'] := by
  rw [dropFinalNewline] at h
  split at h
  · next last =>
    obtain ⟨start, rfl⟩ := List.getLast?_eq_some_iff.mp (beq_iff_eq.mp last)
    rw [List.dropLast_concat] at h
    exact .inr (h ▸ rfl)
  · exact .inl h

theorem dropFinalNewline_of_not_mem (h : '\n' ∉ text) : dropFinalNewline text = text := by
  refine if_neg fun last => h ?_
  exact List.mem_of_getLast? (beq_iff_eq.mp last)

theorem dropFinalNewline_append_lineFeed (text : List Char) :
    dropFinalNewline (text ++ ['\n']) = text := by
  rw [dropFinalNewline, List.getLast?_concat, List.dropLast_concat]
  rfl

/-! ### The form of an authority -/

/-- User information with the at sign behind it. -/
def userPart (user : List Char) : List Char :=
  if user = [] then [] else user ++ ['@']

/-- An authority is put together from user information, a host and a number. Between host and number
stands a colon, unless there is no number or the host is in brackets; a line feed may stand behind
them. -/
structure Form (authority user host number : List Char) : Prop where
  encoded_user : Encoded isUserChar user
  host_spec : Encoded isNameChar host ∨ IsLiteral host
  single : user = [] → '@' ∉ host
  short : number.length ≤ 5
  digital : ∀ d ∈ number, isDigit d = true
  whole : ∃ tail feed, authority = userPart user ++ (host ++ tail) ++ feed ∧
    (tail = ':' :: number ∨ tail = number ∧ (number = [] ∨ IsLiteral host)) ∧
    (feed = [] ∨ feed = ['\n'])

theorem getLast?_append_ne {front back : List Char} {c : Char} (hf : front.getLast? ≠ some c)
    (hb : back.getLast? ≠ some c) : (front ++ back).getLast? ≠ some c := by
  rw [List.getLast?_append]
  cases hl : back.getLast? with
  | none => exact hf
  | some d =>
    rw [hl] at hb
    exact hb

theorem getLast?_ne_of_not_mem {c : Char} (h : c ∉ text) : text.getLast? ≠ some c :=
  fun last => h (List.mem_of_getLast? last)

theorem Form.dropFinalNewline_eq {authority : List Char} (h : Form authority user host number) :
    ∃ tail, dropFinalNewline authority = userPart user ++ (host ++ tail) ∧
      (tail = ':' :: number ∨ tail = number ∧ (number = [] ∨ IsLiteral host)) := by
  obtain ⟨tail, feed, rfl, shape, ending⟩ := h.whole
  refine ⟨tail, ?_, shape⟩
  have line_number : number.getLast? ≠ some '\n' :=
    getLast?_ne_of_not_mem fun among => (isDigit_spec (h.digital '\n' among)).2.2.2.2 rfl
  have line_tail : tail.getLast? ≠ some '\n' := by
    obtain rfl | ⟨rfl, -⟩ := shape
    · rw [← List.singleton_append]
      exact getLast?_append_ne (by decide) line_number
    · exact line_number
  have line_host : host.getLast? ≠ some '\n' := by
    obtain name | ⟨address, -, -, rfl⟩ := h.host_spec
    · exact getLast?_ne_of_not_mem (name.not_mem (by decide) (by decide) (by decide))
    · rw [← List.cons_append, List.getLast?_concat]
      decide
  have line_user : (userPart user).getLast? ≠ some '\n' := by
    rw [userPart]
    split
    · decide
    · rw [List.getLast?_concat]
      decide
  have line := getLast?_append_ne line_user (getLast?_append_ne line_host line_tail)
  obtain rfl | rfl := ending
  · rw [List.append_nil, dropFinalNewline, if_neg (by rwa [beq_iff_eq])]
  · exact dropFinalNewline_append_lineFeed _

/-- An authority names something if it has the form of one, its host is no dotted address out of
range, and not all of its parts are empty. -/
def Named (authority : List Char) : Prop :=
  ∃ user host number, Form authority user host number ∧ isBadDotted host = false ∧
    ¬(user = [] ∧ host = [] ∧ number = [])

theorem survives_eq_true_iff : survives authority = true ↔
    ∃ user rest host tail number, userinfo? (dropFinalNewline authority) = some (user, rest) ∧
      host? rest = some (host, tail) ∧ number? tail = some number ∧ isBadDotted host = false ∧
      ¬(user = [] ∧ host = [] ∧ number = []) := by
  have filled : ∀ user host number : List Char,
      (!(user.isEmpty && host.isEmpty && number.isEmpty)) = true ↔
        ¬(user = [] ∧ host = [] ∧ number = []) := by
    intro user host number
    rw [Bool.not_eq_true', ← Bool.not_eq_true, Bool.and_eq_true, Bool.and_eq_true,
      List.isEmpty_iff, List.isEmpty_iff, List.isEmpty_iff, and_assoc]
  rw [survives]
  constructor
  · intro h
    split at h
    · cases h
    · next user rest information =>
      split at h
      · cases h
      · next host tail named =>
        split at h
        · cases h
        · next number counted =>
          rw [Bool.and_eq_true, Bool.not_eq_true', filled] at h
          exact ⟨user, rest, host, tail, number, information, named, counted, h.1, h.2⟩
  · rintro ⟨user, rest, host, tail, number, information, named, counted, fits, parts⟩
    simp only [information, named, counted]
    rw [Bool.and_eq_true, Bool.not_eq_true', filled]
    exact ⟨fits, parts⟩

theorem form_of_readers {rest : List Char}
    (information : userinfo? (dropFinalNewline authority) = some (user, rest))
    (named : host? rest = some (host, tail)) (counted : number? tail = some number) :
    Form authority user host number := by
  obtain ⟨encoded, information⟩ := userinfo?_eq_some_iff.mp information
  obtain ⟨rfl, hostly⟩ := of_host? named
  obtain ⟨short, digital, shape⟩ := number?_eq_some_iff.mp counted
  have front : dropFinalNewline authority = userPart user ++ (host ++ tail) := by
    obtain ⟨rfl, -, same⟩ | ⟨filled, same⟩ := information
    · exact same.symm
    · rw [userPart, if_neg filled, same, List.append_assoc]
      rfl
  constructor
  · exact encoded
  · exact hostly.imp_left And.left
  · intro empty sign
    obtain ⟨-, other, same⟩ | ⟨filled, -⟩ := information
    · exact other (same ▸ List.mem_append_left tail sign)
    · exact filled empty
  · exact short
  · exact digital
  · -- The host is as long as it can be, so digits right behind a name would belong to it.
    have apart : tail = ':' :: number ∨ tail = number ∧ (number = [] ∨ IsLiteral host) := by
      refine shape.imp_right fun same => ⟨same, ?_⟩
      obtain ⟨-, stop⟩ | literal := hostly
      · cases number with
        | nil => exact .inl rfl
        | cons d number =>
          obtain ⟨name, other, -⟩ := isDigit_spec (digital d List.mem_cons_self)
          obtain percent | ends := stop d (same ▸ rfl)
          · exact absurd percent other
          · exact absurd name (Bool.eq_false_iff.mp ends)
      · exact .inr literal
    obtain same | same := eq_or_eq_of_dropFinalNewline front
    · exact ⟨tail, [], by rw [List.append_nil, same], apart, .inl rfl⟩
    · exact ⟨tail, ['\n'], same, apart, .inr rfl⟩

/-- **What is left of an authority is left because it names something.** -/
theorem survives_iff : survives authority = true ↔ Named authority := by
  rw [survives_eq_true_iff]
  constructor
  · rintro ⟨user, rest, host, tail, number, information, named, counted, fits, parts⟩
    exact ⟨user, host, number, form_of_readers information named counted, fits, parts⟩
  · rintro ⟨user, host, number, form, fits, parts⟩
    obtain ⟨tail, front, shape⟩ := form.dropFinalNewline_eq
    have no_sign : '@' ∉ tail := by
      intro sign
      have digit : '@' ∉ number :=
        fun among => (isDigit_spec (form.digital '@' among)).2.2.2.1 rfl
      obtain rfl | ⟨rfl, -⟩ := shape
      · exact digit (List.mem_of_ne_of_mem (by decide) sign)
      · exact digit sign
    have information :
        userinfo? (userPart user ++ (host ++ tail)) = some (user, host ++ tail) := by
      refine userinfo?_eq_some_iff.mpr ⟨form.encoded_user, ?_⟩
      rw [userPart]
      split
      · next empty =>
        refine .inl ⟨empty, ?_, rfl⟩
        rw [List.nil_append, List.mem_append, not_or]
        exact ⟨form.single empty, no_sign⟩
      · next filled =>
        refine .inr ⟨filled, ?_⟩
        rw [List.append_assoc]
        rfl
    have named : host? (host ++ tail) = some (host, tail) := by
      by_cases literal : IsLiteral host
      · exact host?_of_literal literal
      · refine host?_of_name (form.host_spec.resolve_right literal) fun c hc => ?_
        obtain rfl | ⟨rfl, rfl | numeric⟩ := shape
        · exact (Option.some.inj hc).symm
        · cases hc
        · exact absurd numeric literal
    have counted : number? tail = some number :=
      number?_eq_some_iff.mpr ⟨form.short, form.digital, shape.imp_right And.left⟩
    rw [front]
    exact ⟨user, host ++ tail, host, tail, number, information, named, counted, fits, parts⟩

end Authority

end HashConditions
