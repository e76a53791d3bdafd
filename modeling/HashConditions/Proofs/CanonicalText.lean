import HashConditions.Proofs.Base64Url

/-!
# Which texts are refused

An octet string has one text. Every other text is refused although the reader is a tolerant one,
and which texts these are can be said without writing anything: they are empty, or have a character
outside the alphabet, or end in a group of a single character, or have a bit set that no octet
takes.

Two checks share the work. The first looks at characters only and overlooks a line feed at the end.
The tolerant reader skips such a line feed, but it takes the place of a padding character, so a last
group of two or three characters is not completed; and if no group has been begun, the text differs
from what writing gives. So what is reported depends on the number of characters in front of the
line feed (`decode_append_lineFeed`), but something always is.

## Main definitions

* `Base64Url.Stray` — a bit that no octet takes is set
* `Base64Url.Flawed` — what is wrong with a text
* `Base64Url.Refusal` — what is reported

## Main results

* `Base64Url.decode_eq_error_iff` — what is reported, and when
* `Base64Url.decode_canonical` — texts without flaws are read, and they are what is written
-/

namespace HashConditions

namespace Base64Url

open Bits

variable {n k : Nat} {ns front : List Nat} {text : List Char} {bs : Bytes} {g : Group}
  {fault : UriFault}

/-! ### Stray bits -/

/-- Of the last character, a bit is set that no octet takes. If it is the second of its group, only
its first two bits are taken, and if it is the third, only its first four. -/
def Stray (text : List Char) : Prop :=
  ∃ n ∈ text.getLast?.bind value?,
    text.length % 4 = 2 ∧ n % 16 ≠ 0 ∨ text.length % 4 = 3 ∧ n % 4 ≠ 0

theorem stray_map_letter_concat (small : n < 64) :
    Stray ((front ++ [n]).map letter) ↔
      (front.length + 1) % 4 = 2 ∧ n % 16 ≠ 0 ∨ (front.length + 1) % 4 = 3 ∧ n % 4 ≠ 0 := by
  rw [Stray, List.map_append, List.map_singleton, List.getLast?_concat, Option.bind_some,
    value?_letter small, List.length_append, List.length_map, List.length_singleton]
  simp only [Option.mem_def, Option.some.injEq, exists_eq_left']

/-- What is held behind a number that does not stand alone in its group is zero, unless the number
has stray bits. -/
theorem Group.Holds.held_add_iff (h : Group.Holds g k) (companions : k ≠ 0) :
    (∃ j, (g.add n).2.held = List.replicate j false) ↔
      ¬((k + 1) % 4 = 2 ∧ n % 16 ≠ 0 ∨ (k + 1) % 4 = 3 ∧ n % 4 ≠ 0) := by
  cases h with
  | empty => exact absurd rfl companions
  | one bits =>
    have clear : (∃ j, ofNat 4 (n % 16) = List.replicate j false) ↔ n % 16 = 0 :=
      ofNat_eq_zeros_iff (Nat.mod_lt n (by decide))
    simpa [Group.add, Group.held] using clear
  | two bits =>
    have clear : (∃ j, ofNat 2 (n % 4) = List.replicate j false) ↔ n % 4 = 0 :=
      ofNat_eq_zeros_iff (Nat.mod_lt n (by decide))
    simpa [Group.add, Group.held] using clear
  | three bits =>
    simp [Group.add, Group.held]

/-- Behind the numbers of a text whose last group is not a single character, zeros are held exactly
if no bit is stray. -/
theorem held_run_eq_zeros_iff (small : ∀ n ∈ ns, n < 64) (closed : ns.length % 4 ≠ 1) :
    (∃ j, (Group.empty.run ns).2.held = List.replicate j false) ↔ ¬Stray (ns.map letter) := by
  obtain rfl | ⟨front, n, rfl⟩ := List.eq_nil_or_concat ns
  · refine iff_of_true ⟨0, rfl⟩ ?_
    rintro ⟨n, ⟨⟩, -⟩
  · rw [List.concat_eq_append] at small closed ⊢
    have companions : front.length % 4 ≠ 0 := by
      rw [List.length_append, List.length_singleton] at closed
      omega
    have last : n < 64 := small n (List.mem_append_right front List.mem_cons_self)
    rw [Group.run_concat, (Group.holds_run front).held_add_iff companions,
      stray_map_letter_concat last, Nat.mod_add_mod]

/-- A text of the alphabet is what writing the octets gives that it completes, exactly if its last
group is not a single character and no bit is stray. -/
theorem encode_run_iff (small : ∀ n ∈ ns, n < 64) :
    encode (Group.empty.run ns).1 = ns.map letter ↔
      ns.length % 4 ≠ 1 ∧ ¬Stray (ns.map letter) := by
  constructor
  · intro written
    have same : sextets (Group.empty.run ns).1 = ns := map_letter_inj (sextets_lt _) small written
    have closed := length_sextets_mod (Group.empty.run ns).1
    have zeros := (Group.run_sextets (Group.empty.run ns).1).2
    rw [same] at closed zeros
    exact ⟨closed, (held_run_eq_zeros_iff small closed).mp zeros⟩
  · rintro ⟨closed, clean⟩
    obtain ⟨k, zeros⟩ := (held_run_eq_zeros_iff small closed).mpr clean
    have few := (Group.holds_run ns).length_held
    rw [zeros, List.length_replicate] at few
    have kept : concat 6 ns = (Group.empty.run ns).1.bits ++ (Group.empty.run ns).2.held :=
      Group.held_run Group.empty small
    rw [zeros] at kept
    exact (carries_iff.mp ⟨ns, small, rfl, k, by omega, kept⟩).symm

/-! ### Flaws -/

/-- What is wrong with a text. -/
inductive Flawed : List Char → Prop
  /-- It is empty. -/
  | empty : Flawed []
  /-- There is a character outside the alphabet, such as padding, a character beyond ASCII or a line
  feed, wherever it stands. -/
  | foreign {text : List Char} {c : Char} (mem : c ∈ text) (other : isLetter c = false) :
      Flawed text
  /-- The last group is a single character. -/
  | single {text : List Char} (length : text.length % 4 = 1) : Flawed text
  /-- A bit is stray. -/
  | stray {text : List Char} (set : Stray text) : Flawed text

theorem word_of_not_flawed (h : ¬Flawed text) : Word text := by
  refine ⟨?_, fun c hc => eq_true_of_ne_false fun other => h (.foreign hc other)⟩
  rintro rfl
  exact h .empty

/-- Writing gives no flawed text. -/
theorem Flawed.ne_encode (h : Flawed text) (filled : bs ≠ []) : text ≠ encode bs := by
  rintro rfl
  generalize same : encode bs = text at h
  cases h with
  | empty => exact encode_ne_nil filled same
  | @foreign _ c mem other =>
    subst same
    have letter : isLetter c = true :=
      forall_mem_encode (p := fun d => isLetter d = true) (fun n hn => (letter_spec hn).1) bs c mem
    rw [letter] at other
    cases other
  | single length =>
    rw [← same, encode, List.length_map] at length
    exact length_sextets_mod bs length
  | stray set =>
    have written : encode (Group.empty.run (sextets bs)).1 = (sextets bs).map letter := by
      rw [(Group.run_sextets bs).1, encode]
    rw [← same] at set
    exact ((encode_run_iff (sextets_lt bs)).mp written).2 set

/-- The flawed texts are those that writing does not give. -/
theorem flawed_iff : Flawed text ↔ ¬∃ bs, bs ≠ [] ∧ text = encode bs := by
  constructor
  · rintro h ⟨bs, filled, same⟩
    exact h.ne_encode filled same
  · intro none
    by_contra h
    obtain ⟨ns, small, filled, rfl⟩ := word_iff.mp (word_of_not_flawed h)
    have closed : ns.length % 4 ≠ 1 := fun single =>
      h (.single (by rw [List.length_map, single]))
    have written := (encode_run_iff small).mpr ⟨closed, fun set => h (.stray set)⟩
    refine none ⟨(Group.empty.run ns).1, ?_, written.symm⟩
    intro octets
    rw [octets] at written
    exact filled (List.map_eq_nil_iff.mp written.symm)

/-! ### Faults -/

/-- What is reported of a text, if it is refused. -/
inductive Refusal : List Char → UriFault → Prop
  /-- In front of a line feed at the end, there is something else than characters of the alphabet,
  or nothing. -/
  | foreign {text : List Char} (other : ¬Word (Authority.dropFinalNewline text)) :
      Refusal text .fingerprintAlphabet
  /-- The last group is a single character. -/
  | single {text : List Char} (word : Word text) (length : text.length % 4 = 1) :
      Refusal text .fingerprintGroups
  /-- A bit is stray. -/
  | stray {text : List Char} (word : Word text) (set : Stray text) : Refusal text .fingerprintBits
  /-- A line feed stands behind a group that is not complete. -/
  | within {text : List Char} (word : Word text) (length : text.length % 4 ≠ 0) :
      Refusal (text ++ ['\n']) .fingerprintGroups
  /-- A line feed stands behind complete groups. -/
  | behind {text : List Char} (word : Word text) (length : text.length % 4 = 0) :
      Refusal (text ++ ['\n']) .fingerprintBits

/-- Padding is measured as if a line feed were a character of the group, and so completes none that
has been begun. -/
theorem Group.Holds.read?_lineFeed (h : Group.Holds g k) :
    g.read? ('\n' :: List.replicate ((4 - (k + 1) % 4) % 4) '=') =
      if k = 0 then some [] else none := by
  cases h with
  | empty => rfl
  | one bits => rfl
  | two bits => rfl
  | three bits => rfl

/-- With a line feed behind it, no text of the alphabet is read. -/
theorem decode_append_lineFeed (word : Word text) :
    decode (text ++ ['\n']) =
      .error (if text.length % 4 = 0 then .fingerprintBits else .fingerprintGroups) := by
  have front : Authority.dropFinalNewline (text ++ ['\n']) = text :=
    Authority.dropFinalNewline_append_lineFeed text
  have accepted : isWord (text ++ ['\n']) = true := isWord_iff.mpr (front.symm ▸ word)
  obtain ⟨ns, small, filled, rfl⟩ := word_iff.mp word
  have ascii : ∀ c ∈ '\n' :: List.replicate ((4 - (ns.length % 4 + 1) % 4) % 4) '=',
      c.toNat < 128 :=
    List.forall_mem_cons.mpr ⟨by decide, fun c => toNat_lt_of_mem_replicate⟩
  have octets := octets?_map_letter_append small ascii
  rw [(Group.holds_run ns).read?_lineFeed, Nat.mod_add_mod] at octets
  rw [decode, accepted, Bool.not_true, if_neg Bool.false_ne_true, padding, List.length_append,
    List.length_map, List.length_singleton, List.append_assoc, List.singleton_append, octets]
  by_cases whole : ns.length % 4 = 0
  · have differs : encode ((Group.empty.run ns).1 ++ []) ≠ ns.map letter ++ ['\n'] := by
      intro same
      have feed : '\n' ∈ encode ((Group.empty.run ns).1 ++ []) :=
        same ▸ List.mem_append_right _ List.mem_cons_self
      exact lineFeed_not_mem_map_letter (sextets_lt _) feed
    rw [if_pos whole, if_pos whole]
    exact if_neg differs
  · rw [if_neg whole, if_neg whole]
    rfl

example : decode "AAAA\n".toList = .error .fingerprintBits ∧
    decode "AA\n".toList = .error .fingerprintGroups :=
  ⟨rfl, rfl⟩

theorem decode_of_single (word : Word text) (single : text.length % 4 = 1) :
    decode text = .error .fingerprintGroups := by
  obtain ⟨ns, small, filled, rfl⟩ := word_iff.mp word
  rw [List.length_map] at single
  rw [decode_map_letter small filled, if_pos single]

theorem Stray.length (h : Stray text) : text.length % 4 ≠ 1 := by
  obtain ⟨n, -, ⟨second, -⟩ | ⟨third, -⟩⟩ := h
  · omega
  · omega

theorem decode_of_stray (word : Word text) (set : Stray text) :
    decode text = .error .fingerprintBits := by
  have closed := set.length
  obtain ⟨ns, small, filled, rfl⟩ := word_iff.mp word
  have differs : encode (Group.empty.run ns).1 ≠ ns.map letter := fun written =>
    ((encode_run_iff small).mp written).2 set
  rw [List.length_map] at closed
  rw [decode_map_letter small filled, if_neg closed, if_neg differs]

/-- A text of the alphabet is read, or one of its flaws is reported. -/
theorem decode_word (word : Word text) :
    (∃ bs, decode text = .ok bs) ∨ ∃ fault, Refusal text fault := by
  by_cases single : text.length % 4 = 1
  · exact .inr ⟨_, .single word single⟩
  · by_cases set : Stray text
    · exact .inr ⟨_, .stray word set⟩
    · obtain ⟨ns, small, filled, rfl⟩ := word_iff.mp word
      have written : encode (Group.empty.run ns).1 = ns.map letter :=
        (encode_run_iff small).mpr ⟨by rwa [List.length_map] at single, set⟩
      rw [List.length_map] at single
      exact .inl ⟨_, by rw [decode_map_letter small filled, if_neg single, if_pos written]⟩

/-- Every text is read, or there is something to report of it. -/
theorem decode_total (text : List Char) :
    (∃ bs, decode text = .ok bs) ∨ ∃ fault, Refusal text fault := by
  by_cases word : Word (Authority.dropFinalNewline text)
  · generalize dropped : Authority.dropFinalNewline text = letters at word
    obtain rfl | rfl := Authority.eq_or_eq_of_dropFinalNewline dropped
    · exact decode_word word
    · by_cases whole : letters.length % 4 = 0
      · exact .inr ⟨_, .behind word whole⟩
      · exact .inr ⟨_, .within word whole⟩
  · exact .inr ⟨_, .foreign word⟩

/-- **What is reported, and when.** -/
theorem decode_eq_error_iff : decode text = .error fault ↔ Refusal text fault := by
  have reported : ∀ {text fault}, Refusal text fault → decode text = .error fault := by
    intro text fault h
    cases h with
    | foreign other =>
      have refused : isWord text = false := eq_false_of_ne_true (mt isWord_iff.mp other)
      rw [decode, refused]
      rfl
    | single word length => exact decode_of_single word length
    | stray word set => exact decode_of_stray word set
    | within word length => rw [decode_append_lineFeed word, if_neg length]
    | behind word length => rw [decode_append_lineFeed word, if_pos length]
  refine ⟨fun h => ?_, reported⟩
  obtain ⟨bs, read⟩ | ⟨fault', refusal⟩ := decode_total text
  · rw [read] at h
    cases h
  · have same := reported refusal
    rw [h] at same
    cases same
    exact refusal

theorem Refusal.field?_eq (h : Refusal text fault) : fault.field? = some "fingerprint" := by
  cases h with
  | foreign other => rfl
  | single word length => rfl
  | stray word set => rfl
  | within word length => rfl
  | behind word length => rfl

/-- **Texts of octets are canonical.** The text of an octet string that is not empty is read as that
string, and no other text is read as any. What is written is described by the bits alone. Every
other text is refused with a fault of the fingerprint, and these are the texts that are empty, have
a character outside the alphabet, end in a group of a single character, or have a stray bit. -/
theorem decode_canonical (text : List Char) :
    (∀ bs, decode text = .ok bs ↔ bs ≠ [] ∧ text = encode bs) ∧
      (∀ bs, text = encode bs ↔ Carries text bs) ∧
      ((∃ fault, decode text = .error fault ∧ fault.field? = some "fingerprint") ↔
        ¬∃ bs, bs ≠ [] ∧ text = encode bs) ∧
      ((¬∃ bs, bs ≠ [] ∧ text = encode bs) ↔ Flawed text) := by
  refine ⟨fun bs => decode_eq_ok_iff, fun bs => carries_iff.symm, ⟨?_, ?_⟩, flawed_iff.symm⟩
  · rintro ⟨fault, refused, -⟩ ⟨bs, written⟩
    rw [decode_eq_ok_iff.mpr written] at refused
    cases refused
  · intro none
    obtain ⟨bs, read⟩ | ⟨fault, refusal⟩ := decode_total text
    · exact absurd ⟨bs, decode_eq_ok_iff.mp read⟩ none
    · exact ⟨fault, decode_eq_error_iff.mpr refusal, refusal.field?_eq⟩

end Base64Url

end HashConditions
