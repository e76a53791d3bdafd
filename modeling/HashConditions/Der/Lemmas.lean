import HashConditions.Bytes.Lemmas
import HashConditions.Der.Cursor

/-!
# Elements in context

Reading and writing are inverse to one another for lengths and for elements, whatever stands
behind them: what is written is read back (`length_encodeLength`, `next_encodeElement`), and what
is read is written in the only way it could have been (`eq_encodeLength_of_length`,
`eq_encodeElement_of_next`). Lengths go up to four octets, and tags are those of one octet.

What is accepted as the content of an integer is exactly what is written for it
(`decodeInteger_eq_ok_iff`). So an integer has one form, and a content that is no such form is
refused.
-/

namespace HashConditions

namespace Der

open Region

/-! ### Lengths -/

theorem toNat_or_128 {k : Nat} (h : k < 128) : (UInt8.ofNat (128 ||| k)).toNat = 128 + k := by
  have sum : 128 + k = 128 ||| k := Nat.two_pow_add_eq_or_of_lt (i := 7) h 1
  rw [← sum, UInt8.toNat_ofNat', Nat.mod_eq_of_lt (by omega)]

/-- A number written with as few digits as possible starts with none that is zero. -/
theorem head?_ofNat_octetLength_ne (n : Nat) :
    (Bytes.ofNat (octetLength n) n).head? ≠ some 0 := by
  intro h0
  obtain ⟨rest, hr⟩ := List.head?_eq_some_iff.1 h0
  have hl := congrArg List.length hr
  have hn := congrArg Bytes.toNat hr
  rw [Bytes.toNat_ofNat_of_lt (lt_pow_octetLength n)] at hn
  simp at hl hn
  have := Bytes.toNat_lt rest
  have := lt_octetLength_iff.1 (show rest.length < octetLength n by omega)
  omega

theorem longLength_ofNat {n : Nat} (o : Nat) (s : Bytes) (field : String) (hn : 128 ≤ n) :
    longLength (⟨o, Bytes.ofNat (octetLength n) n ++ s⟩ : Cursor) (octetLength n) field =
      .ok (n, ⟨o + octetLength n, s⟩) := by
  have ht : (Bytes.ofNat (octetLength n) n ++ s).take (octetLength n) =
      Bytes.ofNat (octetLength n) n := by
    simp
  have hd : (Bytes.ofNat (octetLength n) n ++ s).drop (octetLength n) = s := by
    simp
  have hv := Bytes.toNat_ofNat_of_lt (lt_pow_octetLength n)
  have h0 := head?_ofNat_octetLength_ne n
  simp only [longLength, Cursor.fits_eq, Cursor.within_eq, Cursor.digits_eq, Cursor.skip_eq, ht, hd,
    hv]
  rw [if_pos (by simp), if_neg]
  rintro (h | h)
  · exact h0 h
  · omega

/-- The length at a cursor is read back, whatever follows it. -/
theorem length_encodeLength {n : Nat} (o : Nat) (s : Bytes) (field : String) (hn : n < 256 ^ 4) :
    length (⟨o, encodeLength n ++ s⟩ : Cursor) field =
      .ok (n, ⟨o + (encodeLength n).length, s⟩) := by
  rw [encodeLength]
  split
  · next h =>
    have : UInt8.ofNat n < 128 := by
      rw [UInt8.lt_iff_toNat_lt, UInt8.toNat_ofNat', Nat.mod_eq_of_lt (by omega)]
      exact h
    simp only [length, List.singleton_append, Cursor.first?_eq, List.head?_cons, Cursor.skip_eq,
      List.drop_succ_cons, List.drop_zero, if_pos this, List.length_singleton, UInt8.toNat_ofNat',
      Nat.reducePow]
    rw [Nat.mod_eq_of_lt (by omega)]
  · next h =>
    have h4 : octetLength n ≤ 4 := octetLength_le_iff.2 hn
    have h1 : 0 < octetLength n := by
      rw [lt_octetLength_iff]; omega
    have hf := toNat_or_128 (Nat.lt_of_le_of_lt h4 (by decide))
    generalize UInt8.ofNat (128 ||| octetLength n) = first at hf
    simp only [length, Cursor.first?_eq, List.cons_append, List.head?_cons]
    rw [if_neg (by rw [UInt8.lt_iff_toNat_lt, hf]; exact Nat.not_lt.2 (Nat.le_add_right _ _)),
      if_neg (by rw [← UInt8.toNat_inj, hf]; show ¬ 128 + octetLength n = 128; omega),
      if_neg (by omega), hf, Nat.add_sub_cancel_left]
    simp only [Cursor.skip_eq, List.drop_succ_cons, List.drop_zero]
    rw [longLength_ofNat _ _ _ (by omega)]
    simp only [List.length_cons, Bytes.length_ofNat]
    rw [Nat.add_assoc, Nat.add_comm 1]

/-- What is read as a length is that length as it is written. -/
theorem eq_encodeLength_of_length {c body : Cursor} {n : Nat} {field : String}
    (h : length c field = .ok (n, body)) :
    c.rest = encodeLength n ++ body.rest ∧ body.offset = c.offset + (encodeLength n).length ∧
      n < 256 ^ 4 := by
  obtain ⟨o, rest⟩ := c
  cases rest with
  | nil => simp [length] at h
  | cons first rest =>
    simp only [length, Cursor.first?_eq, List.head?_cons] at h
    split at h
    · next small =>
      have hn : first.toNat < 128 := UInt8.lt_iff_toNat_lt.1 small
      cases h
      rw [encodeLength]
      rw [if_pos hn]
      simp
      omega
    · next large =>
      have hge : 128 ≤ first.toNat := UInt8.le_iff_toNat_le.1 (UInt8.not_lt.1 large)
      split at h
      · simp at h
      · next hne =>
        have hne : first.toNat ≠ 128 := fun h => hne (UInt8.toNat_inj.1 h)
        split at h
        · simp at h
        · next hle =>
          simp only [Cursor.skip_eq, List.drop_succ_cons, List.drop_zero, longLength,
            Cursor.fits_eq, decide_eq_true_eq, Cursor.within_eq, Cursor.digits_eq] at h
          split at h
          · next hlen =>
            split at h
            · simp at h
            · next hmin =>
              simp only [Except.ok.injEq, Prod.mk.injEq] at h
              obtain ⟨rfl, rfl⟩ := h
              have hk : (rest.take (first.toNat - 128)).length = first.toNat - 128 := by
                rw [List.length_take]; omega
              generalize hd : rest.take (first.toNat - 128) = digits at *
              have hlow : 128 ≤ Bytes.toNat digits := by
                apply Nat.le_of_not_lt
                exact fun h => hmin (.inr h)
              have hlt := Bytes.toNat_lt digits
              have hoct : octetLength (Bytes.toNat digits) = digits.length := by
                cases digits with
                | nil => rfl
                | cons b bs =>
                  apply Bytes.octetLength_toNat_cons
                  intro hb
                  exact hmin (.inl (congrArg some hb))
              have hfirst : UInt8.ofNat (128 ||| octetLength (Bytes.toNat digits)) = first := by
                apply UInt8.toNat_inj.1
                rw [toNat_or_128 (by omega)]
                omega
              refine ⟨?_, ?_, ?_⟩
              · rw [encodeLength]
                rw [if_neg (by omega), hfirst, hoct, Bytes.ofNat_toNat, ← hd]
                simp
              · rw [encodeLength]
                rw [if_neg (by omega), hoct, Bytes.ofNat_toNat]
                simp only [List.length_cons]
                omega
              · exact Nat.lt_of_lt_of_le hlt (Nat.pow_le_pow_right (by decide) (by omega))
          · simp at h

/-! ### Elements -/

/-- The next element is read back, whatever follows it. -/
theorem next_encodeElement {tag : UInt8} {content : Bytes} (o : Nat) (s : Bytes) (field : String)
    (ht : tag &&& 0x1F ≠ 0x1F) (hl : content.length < 256 ^ 4) :
    next (⟨o, encodeElement tag content ++ s⟩ : Cursor) field =
      .ok ⟨tag, ⟨o + 1 + (encodeLength content.length).length, content⟩,
        ⟨o + (encodeElement tag content).length, s⟩⟩ := by
  have fit : content.length ≤ content.length + s.length := Nat.le_add_right ..
  simp only [next, encodeElement, List.cons_append, peek, Cursor.first?_eq, List.head?_cons,
    if_neg ht, Cursor.skip_eq, List.drop_succ_cons, List.drop_zero, List.append_assoc,
    length_encodeLength _ _ _ hl, close, Cursor.fits_eq, decide_eq_true_eq, List.length_append,
    if_pos fit, Cursor.within_eq, List.take_left, List.drop_left, List.length_cons]
  congr 3
  omega

/-- What is read as an element is that element as it is written. -/
theorem eq_encodeElement_of_next {c : Cursor} {field : String} {e : Element Cursor}
    (h : next c field = .ok e) :
    c.rest = encodeElement e.tag e.content ++ e.after.rest ∧
      e.inside.offset = c.offset + 1 + (encodeLength e.content.length).length ∧
      e.after.offset = c.offset + (encodeElement e.tag e.content).length ∧
      e.content.length < 256 ^ 4 ∧ e.tag &&& 0x1F ≠ 0x1F := by
  obtain ⟨o, rest⟩ := c
  cases rest with
  | nil => simp [next, peek] at h
  | cons tag rest =>
    simp only [next, peek, Cursor.first?_eq, List.head?_cons] at h
    split at h
    · simp at h
    · next ht =>
      split at h
      · simp at h
      · next n body hlen =>
        obtain ⟨h1, h2, h3⟩ := eq_encodeLength_of_length hlen
        simp only [Cursor.skip_eq, List.drop_succ_cons, List.drop_zero] at h1 h2
        simp only [close, Cursor.fits_eq, decide_eq_true_eq, Cursor.within_eq, Cursor.skip_eq] at h
        split at h
        · next hfit =>
          cases h
          have hn : (body.rest.take n).length = n := by
            rw [List.length_take]; omega
          simp only [Element.content, Cursor.contents_eq]
          refine ⟨?_, ?_, ?_, by omega, ht⟩
          · rw [encodeElement, hn, h1]
            simp
          · rw [hn, h2]
          · rw [encodeElement, List.length_cons, List.length_append, hn, h2]
            omega
        · simp at h

/-! ### Integers -/

/-- A content is accepted if it has one octet per eight bits of its number and one for the bits
left over, of which the sign bit is one. -/
theorem decodeInteger_cons_eq_ok_iff {b : UInt8} {bs : Bytes} {n : Nat} :
    decodeInteger (b :: bs) = .ok n ↔
      Bytes.toNat (b :: bs) = n ∧ bitLength n / 8 = bs.length := by
  have high := Bytes.toNat_cons_lt_half_iff b bs
  have low : (b = 0 ∧ bs.head?.any (· < 128) = true) ↔
      0 < bs.length ∧ bitLength (Bytes.toNat (b :: bs)) < 8 * bs.length := by
    cases bs with
    | nil => simp
    | cons c cs =>
      have hc := Bytes.toNat_cons_lt_half_iff c cs
      have hb : b = 0 ↔ Bytes.toNat (b :: c :: cs) < 1 * 256 ^ (c :: cs).length := by
        rw [Bytes.toNat_cons_lt_iff, ← UInt8.toNat_inj]
        simp
      rw [Nat.one_mul, pow_256_eq, ← bitLength_le_iff] at hb
      simp only [List.head?_cons, Option.any_some, decide_eq_true_eq, List.length_cons]
      constructor
      · rintro ⟨rfl, h⟩
        have : Bytes.toNat (0 :: c :: cs) = Bytes.toNat (c :: cs) := by simp
        rw [this]
        have := hc.1 h
        omega
      · rintro ⟨-, h⟩
        have b0 := hb.2 (by simp only [List.length_cons]; omega)
        subst b0
        have : Bytes.toNat (0 :: c :: cs) = Bytes.toNat (c :: cs) := by simp
        rw [this] at h
        exact ⟨rfl, hc.2 (by omega)⟩
  simp only [decodeInteger]
  split
  · next h =>
    have : ¬ b < 128 := UInt8.not_lt.2 h
    rw [high] at this
    constructor
    · intro h; simp at h
    · rintro ⟨rfl, h⟩; omega
  · next h =>
    have := high.1 (UInt8.not_le.1 h)
    split
    · next h =>
      have := low.1 h
      constructor
      · intro h; simp at h
      · rintro ⟨rfl, h⟩; omega
    · next h =>
      rw [low] at h
      constructor
      · intro h
        cases h
        exact ⟨rfl, by omega⟩
      · rintro ⟨rfl, h⟩
        rfl

/-- Integers have exactly one form. -/
theorem decodeInteger_eq_ok_iff {content : Bytes} {n : Nat} :
    decodeInteger content = .ok n ↔ content = encodeInteger n := by
  cases content with
  | nil =>
    constructor
    · intro h; simp [decodeInteger] at h
    · intro h
      have := congrArg List.length h
      simp [encodeInteger] at this
  | cons b bs =>
    rw [decodeInteger_cons_eq_ok_iff]
    constructor
    · rintro ⟨rfl, h⟩
      rw [encodeInteger, h]
      exact (Bytes.ofNat_toNat (b :: bs)).symm
    · intro h
      have hl := congrArg List.length h
      simp only [encodeInteger, Bytes.length_ofNat, List.length_cons,
        Nat.add_right_cancel_iff] at hl
      refine ⟨?_, hl.symm⟩
      rw [h, encodeInteger]
      refine Bytes.toNat_ofNat_of_lt ?_
      rw [pow_256_eq, ← bitLength_le_iff]
      omega

end Der

end HashConditions
