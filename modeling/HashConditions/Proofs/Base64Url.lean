import HashConditions.Proofs.Authorities
import HashConditions.Proofs.Bits
import HashConditions.Proofs.PlainText
import HashConditions.Uri.Base64Url

/-!
# Base 64 is read back

The characters of a text are numbers of six bits, and the octets that it carries are the same bits
in eights, with fewer than six zeros left over. This determines the text, so writing can be
described by it (`carries_iff`).

A tolerant reader cannot be described that way, since it accepts many texts for the same octets.
But it neither drops nor invents a bit while it goes from character to character: the bits that it
has been given are those of the octets it has completed and those its group still holds
(`Group.held_run`). A group holds less than an octet, so what was written is completed to the octets
it was written for. That nothing else is read is due to the comparison with what writing gives.

## Main definitions

* `Base64Url.Word` — one or more characters of the alphabet
* `Base64Url.Carries` — a text and the octets that its bits make up
* `Base64Url.Group.run` — the octets that numbers complete, and the group behind them

## Main results

* `Base64Url.carries_iff` — a text carries octets exactly if it is what writing them gives
* `Base64Url.decode_map_letter` — what is made of a text of the alphabet
* `Base64Url.decode_encode` — reading undoes writing
* `Base64Url.decode_eq_ok_iff` — and what is read is what would be written
-/

namespace HashConditions

namespace Base64Url

open Bits

variable {c : Char} {n k : Nat} {ns ms : List Nat} {text tail : List Char} {bs : Bytes} {g : Group}

/-! ### Characters -/

theorem value?_letter (h : n < 64) : value? (letter n) = some n := by
  have check : ∀ n < 64, value? (letter n) = some n := by
    decide
  exact check n h

/-- A character of the alphabet stands for its number in either alphabet, is no padding, and is
ASCII. -/
theorem letter_spec (h : n < 64) :
    isLetter (letter n) = true ∧ anyValue? (letter n) = some n ∧ letter n ≠ '=' ∧
      (letter n).toNat < 128 := by
  have check : ∀ n < 64, isLetter (letter n) = true ∧ anyValue? (letter n) = some n ∧
      letter n ≠ '=' ∧ (letter n).toNat < 128 := by
    decide
  exact check n h

theorem isPlain_of_isLetter (h : isLetter c = true) : Text.isPlain c = true := by
  rw [isLetter, Bool.or_eq_true, Bool.or_eq_true, beq_iff_eq, beq_iff_eq] at h
  obtain (alphanumeric | rfl) | rfl := h
  · rw [Text.isPlain, alphanumeric, Bool.true_or]
  · decide
  · decide

theorem isLetter_iff : isLetter c = true ↔ ∃ n < 64, letter n = c := by
  constructor
  · intro h
    have found : isLetter c = true → (value? c).getD 0 < 64 ∧ letter ((value? c).getD 0) = c :=
      Text.forall_of_isPlain
        (p := fun d => isLetter d = true → (value? d).getD 0 < 64 ∧ letter ((value? d).getD 0) = d)
        (by decide) (isPlain_of_isLetter h)
    exact ⟨_, found h⟩
  · rintro ⟨n, small, rfl⟩
    exact (letter_spec small).1

/-- Texts of the alphabet are the texts of numbers. -/
theorem forall_isLetter_iff : (∀ c ∈ text, isLetter c = true) ↔
    ∃ ns : List Nat, (∀ n ∈ ns, n < 64) ∧ text = ns.map letter := by
  constructor
  · intro h
    induction text with
    | nil => exact ⟨[], List.forall_mem_nil _, rfl⟩
    | cons c text ih =>
      obtain ⟨first, others⟩ := List.forall_mem_cons.mp h
      obtain ⟨n, small, rfl⟩ := isLetter_iff.mp first
      obtain ⟨ns, rest, rfl⟩ := ih others
      exact ⟨n :: ns, List.forall_mem_cons.mpr ⟨small, rest⟩, rfl⟩
  · rintro ⟨ns, small, rfl⟩ c hc
    obtain ⟨n, hn, rfl⟩ := List.mem_map.mp hc
    exact (letter_spec (small n hn)).1

/-- One or more characters of the alphabet. -/
def Word (text : List Char) : Prop :=
  text ≠ [] ∧ ∀ c ∈ text, isLetter c = true

theorem word_iff : Word text ↔
    ∃ ns : List Nat, (∀ n ∈ ns, n < 64) ∧ ns ≠ [] ∧ text = ns.map letter := by
  rw [Word, forall_isLetter_iff]
  constructor
  · rintro ⟨filled, ns, small, rfl⟩
    exact ⟨ns, small, mt (fun none => by rw [none, List.map_nil]) filled, rfl⟩
  · rintro ⟨ns, small, filled, rfl⟩
    exact ⟨mt List.map_eq_nil_iff.mp filled, ns, small, rfl⟩

theorem isWord_iff : isWord text = true ↔ Word (Authority.dropFinalNewline text) := by
  rw [isWord, Word]
  simp only [Bool.and_eq_true, Bool.not_eq_true', List.isEmpty_eq_false_iff, List.all_eq_true]

theorem map_letter_inj (hn : ∀ n ∈ ns, n < 64) (hm : ∀ m ∈ ms, m < 64)
    (h : ns.map letter = ms.map letter) : ns = ms := by
  have back : ∀ {ns : List Nat}, (∀ n ∈ ns, n < 64) →
      (ns.map letter).map value? = ns.map some := fun small => by
    rw [List.map_map]
    exact List.map_congr_left fun n hn => value?_letter (small n hn)
  have same : ns.map some = ms.map some := by
    rw [← back hn, ← back hm, h]
  exact (List.map_inj_right fun _ _ => Option.some.inj).mp same

/-! ### Writing -/

theorem sextets_lt (bs : Bytes) : ∀ n ∈ sextets bs, n < 64 := by
  induction bs using sextets.induct with
  | case1 a b c rest ih =>
    have ha := a.toNat_lt
    have hb := b.toNat_lt
    have hc := c.toNat_lt
    simp only [sextets, List.forall_mem_cons]
    exact ⟨by omega, by omega, by omega, by omega, ih⟩
  | case2 a b =>
    have ha := a.toNat_lt
    have hb := b.toNat_lt
    simp only [sextets, List.forall_mem_cons]
    exact ⟨by omega, by omega, by omega, List.forall_mem_nil _⟩
  | case3 a =>
    have ha := a.toNat_lt
    simp only [sextets, List.forall_mem_cons]
    exact ⟨by omega, by omega, List.forall_mem_nil _⟩
  | case4 => exact List.forall_mem_nil _

/-- What holds for the characters of the alphabet holds in every text that is written. -/
theorem forall_mem_encode {p : Char → Prop}
    (check : ∀ n < 64, p (letter n)) (bs : Bytes) : ∀ c ∈ encode bs, p c := by
  intro c hc
  obtain ⟨n, hn, rfl⟩ := List.mem_map.mp hc
  exact check n (sextets_lt bs n hn)

/-- The bits of the numbers are those of the octets, and fewer than six zeros. -/
theorem concat_sextets (bs : Bytes) :
    ∃ k < 6, concat 6 (sextets bs) = bs.bits ++ List.replicate k false := by
  -- an octet is cut after its first six, four or two bits, and the parts are joined to numbers
  have six : ∀ m, ofNat 8 m = ofNat 6 (m / 4) ++ ofNat 2 m := ofNat_add 6 2
  have four : ∀ m, ofNat 8 m = ofNat 4 (m / 16) ++ ofNat 4 m := ofNat_add 4 4
  have two : ∀ m, ofNat 8 m = ofNat 2 (m / 64) ++ ofNat 6 m := ofNat_add 2 6
  have join_four : ∀ a b, b < 16 → ofNat 6 (a % 4 * 16 + b) = ofNat 2 a ++ ofNat 4 b :=
    fun a _ => ofNat_mod_mul_add 2 4 a
  have join_two : ∀ a b, b < 4 → ofNat 6 (a % 16 * 4 + b) = ofNat 4 a ++ ofNat 2 b :=
    fun a _ => ofNat_mod_mul_add 4 2 a
  have upper_four : ∀ b : UInt8, b.toNat / 16 < 16 := fun b => by
    have hb := b.toNat_lt
    omega
  have upper_two : ∀ c : UInt8, c.toNat / 64 < 4 := fun c => by
    have hc := c.toNat_lt
    omega
  induction bs using sextets.induct with
  | case1 a b c rest ih =>
    obtain ⟨k, few, zeros⟩ := ih
    have last : ofNat 6 (c.toNat % 64) = ofNat 6 c.toNat := ofNat_mod 6 _
    refine ⟨k, few, ?_⟩
    simp only [sextets, concat_cons, Bytes.bits_cons, zeros, List.append_assoc]
    rw [join_four _ _ (upper_four b), join_two _ _ (upper_two c), last, six a.toNat, four b.toNat,
      two c.toNat]
    simp only [List.append_assoc]
  | case2 a b =>
    have last := join_two b.toNat 0 (by decide)
    rw [Nat.add_zero] at last
    refine ⟨2, by decide, ?_⟩
    simp only [sextets, concat_cons, concat_nil, Bytes.bits_cons, Bytes.bits_nil]
    rw [join_four _ _ (upper_four b), last, six a.toNat, four b.toNat, ofNat_zero]
    simp only [List.append_assoc, List.append_nil]
  | case3 a =>
    have last := join_four a.toNat 0 (by decide)
    rw [Nat.add_zero] at last
    refine ⟨4, by decide, ?_⟩
    simp only [sextets, concat_cons, concat_nil, Bytes.bits_cons, Bytes.bits_nil]
    rw [last, six a.toNat, ofNat_zero]
    simp only [List.append_assoc, List.append_nil]
  | case4 => exact ⟨0, by decide, rfl⟩

/-- A single character never is a group of its own. -/
theorem length_sextets_mod (bs : Bytes) : (sextets bs).length % 4 ≠ 1 := by
  obtain ⟨k, few, zeros⟩ := concat_sextets bs
  have length := congrArg List.length zeros
  rw [length_concat, List.length_append, Bytes.length_bits, List.length_replicate] at length
  omega

/-- The bits of a text are those of octets, with zeros behind them that are too few for a
character. -/
def Carries (text : List Char) (bs : Bytes) : Prop :=
  ∃ ns : List Nat, (∀ n ∈ ns, n < 64) ∧ text = ns.map letter ∧
    ∃ k < 6, concat 6 ns = bs.bits ++ List.replicate k false

/-- Writing is described by the bits. -/
theorem carries_iff : Carries text bs ↔ text = encode bs := by
  constructor
  · rintro ⟨ns, small, rfl, k, few, zeros⟩
    obtain ⟨k', few', zeros'⟩ := concat_sextets bs
    have length := congrArg List.length zeros
    have length' := congrArg List.length zeros'
    simp only [length_concat, List.length_append, Bytes.length_bits, List.length_replicate]
      at length length'
    obtain rfl : k = k' := by omega
    have same : ns.length = (sextets bs).length := by omega
    rw [encode, concat_inj small (sextets_lt bs) same (zeros.trans zeros'.symm)]
  · rintro rfl
    exact ⟨sextets bs, sextets_lt bs, rfl, concat_sextets bs⟩

theorem encode_ne_nil (h : bs ≠ []) : encode bs ≠ [] := by
  intro none
  obtain ⟨k, -, zeros⟩ := concat_sextets bs
  rw [encode, List.map_eq_nil_iff] at none
  rw [none, concat_nil, eq_comm, List.append_eq_nil_iff, ← List.length_eq_zero_iff,
    Bytes.length_bits] at zeros
  exact h (List.length_eq_zero_iff.mp (by omega))

namespace Group

/-! ### Groups -/

/-- The octets that numbers complete, and the group behind them. -/
def run : Group → List Nat → Bytes × Group
  | g, [] => ([], g)
  | g, n :: ns => ((g.add n).1 ++ ((g.add n).2.run ns).1, ((g.add n).2.run ns).2)

theorem run_concat (g : Group) (ns : List Nat) (n : Nat) :
    (g.run (ns ++ [n])).2 = ((g.run ns).2.add n).2 := by
  induction ns generalizing g with
  | nil => rfl
  | cons m ns ih => exact ih _

theorem read?_letter (h : n < 64) :
    g.read? (letter n :: text) = ((g.add n).2.read? text).map ((g.add n).1 ++ ·) := by
  obtain ⟨-, value, noPadding, -⟩ := letter_spec h
  rw [read?, if_neg noPadding, value]

theorem read?_map_letter (small : ∀ n ∈ ns, n < 64) :
    g.read? (ns.map letter ++ text) = ((g.run ns).2.read? text).map ((g.run ns).1 ++ ·) := by
  induction ns generalizing g with
  | nil =>
    show g.read? text = (g.read? text).map fun rest => rest
    exact Option.map_id'.symm
  | cons n ns ih =>
    obtain ⟨first, others⟩ := List.forall_mem_cons.mp small
    rw [List.map_cons, List.cons_append, read?_letter first, ih others, Option.map_map, run]
    refine congrArg (Option.map · _) (funext fun rest => ?_)
    exact (List.append_assoc _ _ _).symm

/-- The bits that no octet holds yet. -/
def held : Group → List Bool
  | empty => []
  | one bits => ofNat 6 bits
  | two bits _ => ofNat 4 bits
  | three bits => ofNat 2 bits

/-- No bit is dropped or invented by a number. -/
theorem held_add (g : Group) (h : n < 64) :
    g.held ++ ofNat 6 n = (g.add n).1.bits ++ (g.add n).2.held := by
  cases g with
  | empty => rfl
  | one bits =>
    have rest : ofNat 4 (n % 16) = ofNat 4 n := ofNat_mod 4 n
    have cut : ofNat 6 bits ++ ofNat 6 n = ofNat 8 (bits * 4 + n / 16) ++ ofNat 4 n :=
      ofNat_append_ofNat 6 2 4 bits h
    rw [held, cut, add, held, rest, Bytes.bits_singleton_ofNat]
  | two bits padded =>
    have rest : ofNat 2 (n % 4) = ofNat 2 n := ofNat_mod 2 n
    have cut : ofNat 4 bits ++ ofNat 6 n = ofNat 8 (bits * 16 + n / 4) ++ ofNat 2 n :=
      ofNat_append_ofNat 4 4 2 bits h
    rw [held, cut, add, held, rest, Bytes.bits_singleton_ofNat]
  | three bits =>
    have cut : ofNat 2 bits ++ ofNat 6 n = ofNat 8 (bits * 64 + n) := ofNat_append 2 6 bits h
    rw [held, cut, add, held, List.append_nil, Bytes.bits_singleton_ofNat]

/-- **No bit is dropped or invented.** The bits held before and those of the numbers are those of
the octets that are completed and those held behind them. -/
theorem held_run (g : Group) (small : ∀ n ∈ ns, n < 64) :
    g.held ++ concat 6 ns = (g.run ns).1.bits ++ (g.run ns).2.held := by
  induction ns generalizing g with
  | nil => rw [concat_nil, List.append_nil, run, Bytes.bits_nil, List.nil_append]
  | cons n ns ih =>
    obtain ⟨first, others⟩ := List.forall_mem_cons.mp small
    rw [concat_cons, ← List.append_assoc, held_add g first, List.append_assoc, ih _ others, run,
      Bytes.bits_append, List.append_assoc]

/-- As many characters of a group have been read, and no padding behind them. -/
inductive Holds : Group → Nat → Prop
  | empty : Holds empty 0
  | one (bits : Nat) : Holds (one bits) 1
  | two (bits : Nat) : Holds (two bits false) 2
  | three (bits : Nat) : Holds (three bits) 3

theorem Holds.add (h : Holds g k) (n : Nat) : Holds (g.add n).2 ((k + 1) % 4) := by
  cases h with
  | empty => exact .one n
  | one bits => exact .two _
  | two bits => exact .three _
  | three bits => exact .empty

theorem Holds.lt (h : Holds g k) : k < 4 := by
  cases h with
  | empty => decide
  | one bits => decide
  | two bits => decide
  | three bits => decide

theorem Holds.run (h : Holds g k) (ns : List Nat) : Holds (g.run ns).2 ((k + ns.length) % 4) := by
  induction ns generalizing g k with
  | nil =>
    rw [List.length_nil, Nat.add_zero, Nat.mod_eq_of_lt h.lt]
    exact h
  | cons n ns ih =>
    have next := ih (h.add n)
    rw [Nat.mod_add_mod, Nat.add_assoc, Nat.add_comm 1] at next
    exact next

theorem holds_run (ns : List Nat) : Holds (empty.run ns).2 (ns.length % 4) := by
  have all := Holds.empty.run ns
  rwa [Nat.zero_add] at all

theorem Holds.length_held (h : Holds g k) : g.held.length = 2 * ((4 - k) % 4) := by
  cases h with
  | empty => rfl
  | one bits => exact length_ofNat 6 bits
  | two bits => exact length_ofNat 4 bits
  | three bits => exact length_ofNat 2 bits

/-- Padding ends a text, unless the last group has a single character. -/
theorem Holds.read?_padding (h : Holds g k) :
    g.read? (List.replicate ((4 - k) % 4) '=') = if k = 1 then none else some [] := by
  cases h with
  | empty => rfl
  | one bits => rfl
  | two bits => rfl
  | three bits => rfl

/-- The numbers of octets complete these, and only zeros are held behind them. -/
theorem run_sextets (bs : Bytes) :
    (empty.run (sextets bs)).1 = bs ∧
      ∃ k, (empty.run (sextets bs)).2.held = List.replicate k false := by
  obtain ⟨k, few, zeros⟩ := concat_sextets bs
  have kept : concat 6 (sextets bs) = (empty.run (sextets bs)).1.bits ++
      (empty.run (sextets bs)).2.held := held_run empty (sextets_lt bs)
  have small : (empty.run (sextets bs)).2.held.length < 8 := by
    rw [(holds_run (sextets bs)).length_held]
    omega
  have small' : (List.replicate k false).length < 8 := by
    rw [List.length_replicate]
    omega
  obtain ⟨octets, held⟩ := Bytes.bits_append_inj small small' (kept.symm.trans zeros)
  exact ⟨octets, k, held⟩

end Group

/-! ### Reading -/

theorem octets?_map_letter_append (small : ∀ n ∈ ns, n < 64) (ascii : ∀ c ∈ tail, c.toNat < 128) :
    octets? (ns.map letter ++ tail) =
      ((Group.empty.run ns).2.read? tail).map ((Group.empty.run ns).1 ++ ·) := by
  have all : (ns.map letter ++ tail).all (·.toNat < 128) = true := by
    simp only [List.all_eq_true, decide_eq_true_eq, List.forall_mem_append]
    refine ⟨fun c hc => ?_, ascii⟩
    obtain ⟨n, hn, rfl⟩ := List.mem_map.mp hc
    exact (letter_spec (small n hn)).2.2.2
  rw [octets?, if_pos all, Group.read?_map_letter small]

theorem toNat_lt_of_mem_replicate (h : c ∈ List.replicate k '=') : c.toNat < 128 := by
  rw [List.eq_of_mem_replicate h]
  decide

theorem octets?_map_letter (small : ∀ n ∈ ns, n < 64) :
    octets? (ns.map letter ++ padding (ns.map letter)) =
      if ns.length % 4 = 1 then none else some (Group.empty.run ns).1 := by
  rw [padding, List.length_map, octets?_map_letter_append small fun c => toNat_lt_of_mem_replicate,
    (Group.holds_run ns).read?_padding]
  split
  · rfl
  · exact congrArg some (List.append_nil _)

theorem lineFeed_not_mem_map_letter (small : ∀ n ∈ ns, n < 64) : '\n' ∉ ns.map letter := by
  intro h
  exact absurd (forall_isLetter_iff.mpr ⟨ns, small, rfl⟩ '\n' h) (by decide)

theorem isWord_map_letter (small : ∀ n ∈ ns, n < 64) (filled : ns ≠ []) :
    isWord (ns.map letter) = true := by
  rw [isWord_iff, Authority.dropFinalNewline_of_not_mem (lineFeed_not_mem_map_letter small)]
  exact word_iff.mpr ⟨ns, small, filled, rfl⟩

/-- What is made of a text of the alphabet: the octets that it completes, if writing them gives the
text. -/
theorem decode_map_letter (small : ∀ n ∈ ns, n < 64) (filled : ns ≠ []) :
    decode (ns.map letter) =
      if ns.length % 4 = 1 then .error .fingerprintGroups
      else if encode (Group.empty.run ns).1 = ns.map letter then .ok (Group.empty.run ns).1
      else .error .fingerprintBits := by
  rw [decode, isWord_map_letter small filled, Bool.not_true, if_neg Bool.false_ne_true,
    octets?_map_letter small]
  by_cases single : ns.length % 4 = 1
  · rw [if_pos single, if_pos single]
  · rw [if_neg single, if_neg single]

/-- **Reading undoes writing.** -/
theorem decode_encode (h : bs ≠ []) : decode (encode bs) = .ok bs := by
  have filled : sextets bs ≠ [] := mt List.map_eq_nil_iff.mpr (encode_ne_nil h)
  have read := decode_map_letter (sextets_lt bs) filled
  rw [if_neg (length_sextets_mod bs), (Group.run_sextets bs).1] at read
  exact read.trans (if_pos rfl)

/-- **Reading accepts exactly what is written.** -/
theorem decode_eq_ok_iff : decode text = .ok bs ↔ bs ≠ [] ∧ text = encode bs := by
  constructor
  · intro h
    rw [decode] at h
    split at h
    · cases h
    · next word =>
      split at h
      · cases h
      · split at h
        · next same =>
          cases h
          refine ⟨?_, same.symm⟩
          rintro rfl
          subst same
          exact word rfl
        · cases h
  · rintro ⟨some, rfl⟩
    exact decode_encode some

end Base64Url

end HashConditions
