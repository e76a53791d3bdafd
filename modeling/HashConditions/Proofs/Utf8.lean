import HashConditions.Text.Utf8

/-!
# Text is read back from its octets

Decoding replaces what is no UTF-8, and a character that has begun may swallow octets that follow.
Of an encoded character it swallows none: the first octet of a character is never one that another
character could go on with. So encoded text is decoded as it was, whatever stands in front of it,
and what stands in front of it is decoded as if it were at the end.

## Main definitions

* `Text.IsFirst` — the octets that no character goes on with
* `Text.Pending.Continues` — a character that has begun goes on with other octets

## Main results

* `Text.decodeUtf8_encodeUtf8` — text is read back from its octets
* `Text.decodeUtf8_append` — and that behind any octets
-/

namespace HashConditions

namespace Text

variable {b : UInt8} {bs : Bytes} {p : Pending} {n v : Nat}

/-! ### First octets and others -/

/-- Whether an octet is out of the range of those that a character goes on with. -/
def IsFirst (b : UInt8) : Prop :=
  b < 0x80 ∨ 0xC0 ≤ b

/-- A character that has begun goes on with an octet that is in that range. -/
structure Pending.Continues (p : Pending) : Prop where
  low : 0x80 ≤ p.low
  high : p.high ≤ 0xBF

theorem Pending.Continues.stop (h : p.Continues) (first : IsFirst b) :
    ¬(p.low ≤ b ∧ b ≤ p.high) := by
  rintro ⟨above, below⟩
  obtain small | large := first
  · exact UInt8.lt_irrefl _ (UInt8.lt_of_lt_of_le small (UInt8.le_trans h.low above))
  · have range : 0xC0 ≤ (0xBF : UInt8) := UInt8.le_trans large (UInt8.le_trans below h.high)
    exact absurd range (by decide)

theorem continues_startOctet (h : p ∈ (startOctet b).2) : p.Continues := by
  have within : ∀ (q : Prop) [Decidable q] (x y : UInt8), 0x80 ≤ x ∧ x ≤ 0xBF →
      0x80 ≤ y ∧ y ≤ 0xBF → 0x80 ≤ (if q then x else y) ∧ (if q then x else y) ≤ 0xBF := by
    intro q _ x y hx hy
    split
    · exact hx
    · exact hy
  have any : (0x80 : UInt8) ≤ 0x80 ∧ (0x80 : UInt8) ≤ 0xBF := by decide
  have last : (0x80 : UInt8) ≤ 0xBF ∧ (0xBF : UInt8) ≤ 0xBF := by decide
  rw [startOctet] at h
  split at h
  · cases h
  split at h
  · cases h
  split at h
  · cases h
    exact ⟨any.1, last.2⟩
  split at h
  · cases h
    exact ⟨(within _ _ _ (by decide) any).1, (within _ _ _ (by decide) last).2⟩
  split at h
  · cases h
    exact ⟨(within _ _ _ (by decide) any).1, (within _ _ _ (by decide) last).2⟩
  · cases h

/-- An octet that a character does not go on with is read as if nothing had begun. -/
theorem decodeUtf8From_of_stop (h : ¬(p.low ≤ b ∧ b ≤ p.high)) :
    decodeUtf8From (some p) (b :: bs) = replacement :: decodeUtf8From none (b :: bs) := by
  rw [decodeUtf8From.eq_def]
  exact if_neg h

theorem decodeUtf8From_last {low high : UInt8} (h : low ≤ b ∧ b ≤ high) (bits : Nat) :
    decodeUtf8From (some ⟨low, high, 1, bits⟩) (b :: bs) =
      Char.ofNat (bits * 64 + b.toNat % 64) :: decodeUtf8From none bs := by
  rw [decodeUtf8From.eq_def]
  exact if_pos h

theorem decodeUtf8From_more {low high : UInt8} {left : Nat} (h : low ≤ b ∧ b ≤ high)
    (several : left ≠ 1) (bits : Nat) :
    decodeUtf8From (some ⟨low, high, left, bits⟩) (b :: bs) =
      decodeUtf8From (some ⟨0x80, 0xBF, left - 1, bits * 64 + b.toNat % 64⟩) bs := by
  rw [decodeUtf8From.eq_def]
  exact (if_pos h).trans (if_neg several)

theorem decodeUtf8From_cons (b : UInt8) (bs : Bytes) : decodeUtf8From none (b :: bs) =
    (startOctet b).1 ++ decodeUtf8From (startOctet b).2 bs := by
  rw [decodeUtf8From]

/-! ### The octets of a character -/

theorem toNat_ofNat_of_lt (h : n < 256) : (UInt8.ofNat n).toNat = n := by
  rw [UInt8.toNat_ofNat']
  omega

theorem utf8EncodeChar_of_lt {c : Char} (h : c.toNat < 128) :
    String.utf8EncodeChar c = [UInt8.ofNat c.toNat] := by
  have low : c.val.toNat ≤ 127 := Nat.le_of_lt_succ h
  rw [String.utf8EncodeChar]
  simp only [if_pos low]
  rfl

theorem decodeUtf8From_one (h : v < 0x80) :
    decodeUtf8From none (UInt8.ofNat v :: bs) = Char.ofNat v :: decodeUtf8From none bs := by
  have number := toNat_ofNat_of_lt (show v < 256 by omega)
  have small : UInt8.ofNat v < 0x80 := by
    rw [UInt8.lt_iff_toNat_lt, number]
    exact h
  rw [decodeUtf8From_cons, startOctet, if_pos small, number]
  rfl

theorem startOctet_two (low : 0xC2 ≤ n) (high : n < 0xE0) :
    startOctet (UInt8.ofNat n) = ([], some ⟨0x80, 0xBF, 1, n - 0xC0⟩) := by
  have number := toNat_ofNat_of_lt (show n < 256 by omega)
  rw [startOctet]
  simp only [UInt8.lt_iff_toNat_lt, number]
  rw [if_neg, if_neg, if_pos]
  · exact high
  · exact Nat.not_lt.mpr low
  · exact Nat.not_lt.mpr (Nat.le_trans (by decide) low)

theorem startOctet_three (low : 0xE0 ≤ n) (high : n < 0xF0) :
    startOctet (UInt8.ofNat n) = ([], some ⟨if n = 0xE0 then 0xA0 else 0x80,
      if n = 0xED then 0x9F else 0xBF, 2, n - 0xE0⟩) := by
  have number := toNat_ofNat_of_lt (show n < 256 by omega)
  rw [startOctet]
  simp only [UInt8.lt_iff_toNat_lt, ← UInt8.toNat_inj, number]
  rw [if_neg, if_neg, if_neg, if_pos]
  · rfl
  · exact high
  · exact Nat.not_lt.mpr low
  · exact Nat.not_lt.mpr (Nat.le_trans (by decide) low)
  · exact Nat.not_lt.mpr (Nat.le_trans (by decide) low)

theorem startOctet_four (low : 0xF0 ≤ n) (high : n < 0xF5) :
    startOctet (UInt8.ofNat n) = ([], some ⟨if n = 0xF0 then 0x90 else 0x80,
      if n = 0xF4 then 0x8F else 0xBF, 3, n - 0xF0⟩) := by
  have number := toNat_ofNat_of_lt (show n < 256 by omega)
  rw [startOctet]
  simp only [UInt8.lt_iff_toNat_lt, ← UInt8.toNat_inj, number]
  rw [if_neg, if_neg, if_neg, if_neg, if_pos]
  · rfl
  · exact high
  · exact Nat.not_lt.mpr low
  · exact Nat.not_lt.mpr (Nat.le_trans (by decide) low)
  · exact Nat.not_lt.mpr (Nat.le_trans (by decide) low)
  · exact Nat.not_lt.mpr (Nat.le_trans (by decide) low)

/-- The six bits of an octet that is not the first of its character. -/
theorem toNat_tail_mod (v : Nat) : (UInt8.ofNat (v % 64 + 128)).toNat % 64 = v % 64 := by
  rw [toNat_ofNat_of_lt (by omega)]
  omega

theorem le_tail {low : UInt8} (h : low.toNat ≤ v % 64 + 128) :
    low ≤ UInt8.ofNat (v % 64 + 128) := by
  rw [UInt8.le_iff_toNat_le, toNat_ofNat_of_lt (by omega)]
  exact h

theorem tail_le {high : UInt8} (h : v % 64 + 128 ≤ high.toNat) :
    UInt8.ofNat (v % 64 + 128) ≤ high := by
  rw [UInt8.le_iff_toNat_le, toNat_ofNat_of_lt (by omega)]
  exact h

theorem tail_range (v : Nat) :
    0x80 ≤ UInt8.ofNat (v % 64 + 128) ∧ UInt8.ofNat (v % 64 + 128) ≤ 0xBF := by
  constructor
  · exact le_tail (show 128 ≤ _ by omega)
  · exact tail_le (show _ ≤ 191 by omega)

theorem decodeUtf8From_two (low : 0x80 ≤ v) (high : v < 0x800) :
    decodeUtf8From none (UInt8.ofNat (v / 64 % 32 + 0xC0) :: UInt8.ofNat (v % 64 + 0x80) :: bs) =
      Char.ofNat v :: decodeUtf8From none bs := by
  have bits : (v / 64 % 32 + 0xC0 - 0xC0) * 64 + v % 64 = v := by omega
  rw [decodeUtf8From_cons, startOctet_two (by omega) (by omega), List.nil_append,
    decodeUtf8From_last (tail_range v), toNat_tail_mod, bits]

/-- The second of three octets says that they are neither too many nor a surrogate. -/
theorem decodeUtf8From_three (low : 0x800 ≤ v) (high : v < 0x10000)
    (valid : v < 0xD800 ∨ 0xDFFF < v) :
    decodeUtf8From none (UInt8.ofNat (v / 4096 % 16 + 0xE0) ::
        UInt8.ofNat (v / 64 % 64 + 0x80) :: UInt8.ofNat (v % 64 + 0x80) :: bs) =
      Char.ofNat v :: decodeUtf8From none bs := by
  have bits : ((v / 4096 % 16 + 0xE0 - 0xE0) * 64 + v / 64 % 64) * 64 + v % 64 = v := by omega
  have several : 2 ≠ 1 := by decide
  rw [decodeUtf8From_cons, startOctet_three (by omega) (by omega), List.nil_append,
    decodeUtf8From_more _ several, toNat_tail_mod, decodeUtf8From_last (tail_range v),
    toNat_tail_mod, bits]
  constructor
  · apply le_tail
    split
    · show 0xA0 ≤ v / 64 % 64 + 128
      omega
    · exact Nat.le_add_left _ _
  · apply tail_le
    split
    · show v / 64 % 64 + 128 ≤ 0x9F
      omega
    · show v / 64 % 64 + 128 ≤ 0xBF
      omega

/-- The second of four octets says that they are neither too many nor beyond the last character. -/
theorem decodeUtf8From_four (low : 0x10000 ≤ v) (high : v < 0x110000) :
    decodeUtf8From none (UInt8.ofNat (v / 262144 % 8 + 0xF0) ::
        UInt8.ofNat (v / 4096 % 64 + 0x80) :: UInt8.ofNat (v / 64 % 64 + 0x80) ::
        UInt8.ofNat (v % 64 + 0x80) :: bs) =
      Char.ofNat v :: decodeUtf8From none bs := by
  have bits : (((v / 262144 % 8 + 0xF0 - 0xF0) * 64 + v / 4096 % 64) * 64 + v / 64 % 64) * 64 +
      v % 64 = v := by omega
  have several : 3 ≠ 1 ∧ 2 ≠ 1 := by decide
  rw [decodeUtf8From_cons, startOctet_four (by omega) (by omega), List.nil_append,
    decodeUtf8From_more _ several.1, toNat_tail_mod,
    decodeUtf8From_more (tail_range (v / 64)) several.2, toNat_tail_mod,
    decodeUtf8From_last (tail_range v), toNat_tail_mod, bits]
  constructor
  · apply le_tail
    split
    · show 0x90 ≤ v / 4096 % 64 + 128
      omega
    · exact Nat.le_add_left _ _
  · apply tail_le
    split
    · show v / 4096 % 64 + 128 ≤ 0x8F
      omega
    · show v / 4096 % 64 + 128 ≤ 0xBF
      omega

/-- A character is read back from its octets. -/
theorem decodeUtf8From_utf8EncodeChar (c : Char) (bs : Bytes) :
    decodeUtf8From none (String.utf8EncodeChar c ++ bs) = c :: decodeUtf8From none bs := by
  have valid : c.val.toNat < 0xD800 ∨ 0xDFFF < c.val.toNat ∧ c.val.toNat < 0x110000 := c.valid
  have same : Char.ofNat c.val.toNat = c := Char.ofNat_toNat c
  by_cases one : c.val.toNat < 0x80
  · rw [utf8EncodeChar_of_lt one, List.singleton_append]
    exact (decodeUtf8From_one one).trans (congrArg (· :: _) same)
  · rw [Nat.not_lt] at one
    rw [String.utf8EncodeChar, if_neg (Nat.not_le.mpr one)]
    split
    · next two =>
      exact (decodeUtf8From_two one (Nat.lt_succ_of_le two)).trans (congrArg (· :: _) same)
    split
    · next two three =>
      have legal : c.val.toNat < 0xD800 ∨ 0xDFFF < c.val.toNat := valid.imp_right And.left
      exact (decodeUtf8From_three (Nat.not_le.mp two) (Nat.lt_succ_of_le three) legal).trans
        (congrArg (· :: _) same)
    · next two three =>
      have legal : c.val.toNat < 0x110000 := by omega
      exact (decodeUtf8From_four (Nat.not_le.mp three) legal).trans (congrArg (· :: _) same)

theorem exists_utf8EncodeChar (c : Char) :
    ∃ b bs, IsFirst b ∧ String.utf8EncodeChar c = b :: bs := by
  have lead : ∀ n, 0xC0 ≤ n → n < 256 → IsFirst (UInt8.ofNat n) := by
    intro n low high
    right
    rw [UInt8.le_iff_toNat_le, toNat_ofNat_of_lt high]
    exact low
  by_cases one : c.val.toNat < 0x80
  · have number := toNat_ofNat_of_lt (show c.val.toNat < 256 by omega)
    refine ⟨_, _, .inl ?_, utf8EncodeChar_of_lt one⟩
    rw [UInt8.lt_iff_toNat_lt]
    exact Nat.lt_of_le_of_lt (Nat.le_of_eq number) one
  · rw [Nat.not_lt] at one
    rw [String.utf8EncodeChar, if_neg (Nat.not_le.mpr one)]
    split
    · exact ⟨_, _, lead _ (by omega) (by omega), rfl⟩
    split
    · exact ⟨_, _, lead _ (by omega) (by omega), rfl⟩
    · exact ⟨_, _, lead _ (by omega) (by omega), rfl⟩

/-! ### Text -/

/-- Text is read back from its octets. -/
theorem decodeUtf8_encodeUtf8 (text : List Char) : decodeUtf8 (encodeUtf8 text) = text := by
  induction text with
  | nil => rfl
  | cons c text ih =>
    rw [encodeUtf8, List.flatMap_cons, decodeUtf8, decodeUtf8From_utf8EncodeChar]
    exact congrArg (c :: ·) ih

/-- Encoded text is no part of a character that has begun. -/
theorem decodeUtf8From_some_encodeUtf8 (h : p.Continues) (text : List Char) :
    decodeUtf8From (some p) (encodeUtf8 text) = replacement :: text := by
  cases text with
  | nil => rfl
  | cons c text =>
    have whole := decodeUtf8_encodeUtf8 (c :: text)
    obtain ⟨b, bs, first, octets⟩ := exists_utf8EncodeChar c
    rw [decodeUtf8] at whole
    rw [encodeUtf8, List.flatMap_cons, octets, List.cons_append] at whole ⊢
    rw [decodeUtf8From_of_stop (h.stop first), whole]

theorem decodeUtf8From_append {state : Option Pending} (h : ∀ p ∈ state, p.Continues)
    (bs : Bytes) (text : List Char) :
    decodeUtf8From state (bs ++ encodeUtf8 text) = decodeUtf8From state bs ++ text := by
  induction bs generalizing state with
  | nil =>
    cases state with
    | none => exact decodeUtf8_encodeUtf8 text
    | some p => exact decodeUtf8From_some_encodeUtf8 (h p rfl) text
  | cons b bs ih =>
    have start : decodeUtf8From none (b :: (bs ++ encodeUtf8 text)) =
        decodeUtf8From none (b :: bs) ++ text := by
      rw [decodeUtf8From_cons, decodeUtf8From_cons, ih fun p => continues_startOctet,
        List.append_assoc]
    rw [List.cons_append]
    cases state with
    | none => exact start
    | some p =>
      by_cases goes : p.low ≤ b ∧ b ≤ p.high
      · obtain ⟨low, high, left, bits⟩ := p
        by_cases last : left = 1
        · subst last
          rw [decodeUtf8From_last goes, decodeUtf8From_last goes, ih fun p none => by cases none]
          rfl
        · rw [decodeUtf8From_more goes last, decodeUtf8From_more goes last, ih]
          intro p hp
          cases hp
          exact ⟨UInt8.le_refl _, UInt8.le_refl _⟩
      · rw [decodeUtf8From_of_stop goes, decodeUtf8From_of_stop goes, start]
        rfl

/-- **Encoded text is decoded as it was**, whatever octets stand in front of it. -/
theorem decodeUtf8_append (bs : Bytes) (text : List Char) :
    decodeUtf8 (bs ++ encodeUtf8 text) = decodeUtf8 bs ++ text :=
  decodeUtf8From_append (fun p none => by cases none) bs text

end Text

end HashConditions
