import HashConditions.Proofs.Correspondence
import HashConditions.Proofs.FulfillmentCodec

/-!
# Reading back from a window

Conditions and fulfillments are read in the same way at corresponding places: each reader is a chain
of the steps of `HashConditions.Proofs.Correspondence`, and a reader inside a reader occupies a
smaller region. So what holds at a cursor holds in a window that lies in its string, among other
things that reading undoes writing.

## Main results

* `Corresponds.like_readCondition`, `Corresponds.like_readFulfillment` — readers at corresponding
  places
* `Window.readCondition_eq`, `Window.readFulfillment_eq` — a window is read like its cursor
* `Condition.reads_exactly_encode` — a condition is read back, and from its encoding only
* `Fulfillment.read_encode_append` — a fulfillment is read back, whatever follows it
-/

namespace HashConditions

open Der Region

namespace Der.Region.Corresponds

variable {ρ ε σ δ : Type} [Region ρ ε] [Region σ δ] {R : ρ → σ → Prop} {E : ε → δ → Prop}
  {c : ρ} {d : σ} {a : Choice ρ} {b : Choice σ}

/-! ### Conditions -/

theorem agree_readSubtypes (like : Corresponds R E) (h : R c d) (type : ConditionType) :
    Agree E (fun x y => x.1 = y.1 ∧ R x.2 y.2) (Condition.readSubtypes type c)
      (Condition.readSubtypes type d) := by
  rw [Condition.readSubtypes, Condition.readSubtypes]
  split
  · rcases like.agree_element h (primitiveTag 2) "subtypes" with
      ⟨e, e', he, he', hE⟩ | ⟨e, e', he, he', -, inside, after⟩
    · rw [he, he']
      exact .error hE
    · rw [he, he']
      simp only [Element.content, like.contents_eq inside]
      cases TypeSet.decode (contents e'.inside) with
      | error fault => exact .error (like.fail h _ _)
      | ok subtypes => exact .ok ⟨rfl, after⟩
  · exact .ok ⟨rfl, h⟩

theorem agree_conditionOfChoice (like : Corresponds R E) (h : Choice.Like R a b) :
    Agree E Eq (Condition.ofChoice a) (Condition.ofChoice b) := by
  rw [Condition.ofChoice, Condition.ofChoice, ← h.type]
  refine (like.like_readOctets h.inside _ _).agree_value.bind ?_
  rintro ⟨fingerprint, c₁⟩ ⟨_, d₁⟩ ⟨rfl, h₁⟩
  simp only
  split
  · refine (like.like_readInteger h₁ _ _).agree_value.bind ?_
    rintro ⟨cost, c₂⟩ ⟨_, d₂⟩ ⟨rfl, h₂⟩
    refine (like.agree_readSubtypes h₂ _).bind ?_
    rintro ⟨subtypes, c₃⟩ ⟨_, d₃⟩ ⟨rfl, h₃⟩
    refine (like.agree_finish h₃ _).bind ?_
    rintro _ _ -
    cases Condition.make a.type fingerprint cost subtypes with
    | error why => exact .error (like.fail h.start _ _)
    | ok condition => exact .ok rfl
  · exact .error (like.fail h.inside _ _)

/-- A condition is read in the same way at corresponding places. -/
theorem like_readCondition (like : Corresponds R E) (h : R c d) :
    Reading.Like R E Eq (Condition.read c) (Condition.read d) :=
  like_reading h (like.agree_choice h .condition) (fun _ _ found => found.after)
    fun _ _ found => like.agree_conditionOfChoice found

/-! ### Fulfillments -/

theorem agree_conclude (like : Corresponds R E) (h : Choice.Like R a b) (hc : R c d)
    (built : Except Invalid Fulfillment) :
    Agree E Eq (Fulfillment.conclude a c built) (Fulfillment.conclude b d built) := by
  cases built with
  | error why =>
    rw [Fulfillment.conclude, Fulfillment.conclude, h.type]
    exact .error (like.fail h.start _ _)
  | ok f =>
    rw [Fulfillment.conclude, Fulfillment.conclude, ← h.type]
    rcases like.agree_finish hc a.type.name with ⟨e, e', he, he', hE⟩ | ⟨_, _, hu, hu', -⟩
    · rw [he, he']
      exact .error hE
    · rw [hu, hu']
      exact .ok rfl

theorem agree_readPreimage (like : Corresponds R E) (h : Choice.Like R a b) :
    Agree E Eq (Fulfillment.readPreimage a) (Fulfillment.readPreimage b) := by
  refine (like.like_readOctets h.inside _ _).agree_value.bind ?_
  rintro ⟨bs, c₁⟩ ⟨_, d₁⟩ ⟨rfl, h₁⟩
  exact like.agree_conclude h h₁ _

theorem agree_readRsa (like : Corresponds R E) (h : Choice.Like R a b) :
    Agree E Eq (Fulfillment.readRsa a) (Fulfillment.readRsa b) := by
  refine (like.like_readOctets h.inside _ _).agree_value.bind ?_
  rintro ⟨modulus, c₁⟩ ⟨_, d₁⟩ ⟨rfl, h₁⟩
  simp only
  split
  · exact .error (like.fail h.inside _ _)
  · refine (like.like_readOctets h₁ _ _).agree_value.bind ?_
    rintro ⟨signature, c₂⟩ ⟨_, d₂⟩ ⟨rfl, h₂⟩
    exact like.agree_conclude h h₂ _

theorem agree_readEd25519 (like : Corresponds R E) (h : Choice.Like R a b) :
    Agree E Eq (Fulfillment.readEd25519 a) (Fulfillment.readEd25519 b) := by
  refine (like.like_readOctets h.inside _ _).agree_value.bind ?_
  rintro ⟨publicKey, c₁⟩ ⟨_, d₁⟩ ⟨rfl, h₁⟩
  refine (like.like_readOctets h₁ _ _).agree_value.bind ?_
  rintro ⟨signature, c₂⟩ ⟨_, d₂⟩ ⟨rfl, h₂⟩
  exact like.agree_conclude h h₂ _

theorem agree_readPrefixParts (like : Corresponds R E) (h : R c d) :
    Agree E (fun p q => p.lead = q.lead ∧ p.maxMessageLength = q.maxMessageLength ∧
      R p.wrapper.after q.wrapper.after ∧ Choice.Like R p.sub q.sub)
      (Fulfillment.readPrefixParts c) (Fulfillment.readPrefixParts d) := by
  refine (like.like_readOctets h _ _).agree_value.bind ?_
  rintro ⟨lead, c₁⟩ ⟨_, d₁⟩ ⟨rfl, h₁⟩
  refine (like.like_readInteger h₁ _ _).agree_value.bind ?_
  rintro ⟨limit, c₂⟩ ⟨_, d₂⟩ ⟨rfl, h₂⟩
  refine (like.agree_element h₂ _ _).bind ?_
  rintro wrapper wrapper' ⟨-, inside, after⟩
  refine (like.agree_choice inside _).bind ?_
  intro sub sub' hsub
  exact .ok ⟨rfl, rfl, after, hsub⟩

theorem agree_fulfillmentOfChoice [CountsOctets ρ] [CountsOctets σ] (like : Corresponds R E)
    (h : Choice.Like R a b) : Agree E Eq (Fulfillment.ofChoice a) (Fulfillment.ofChoice b) := by
  -- Fulfillments inside the content occupy smaller regions, so the induction is on the size.
  induction hn : size a.inside using Nat.strongRecOn generalizing a b with
  | ind n ih =>
  subst hn
  have types := h.type
  obtain ⟨ofPreimage, ofRsa, ofEd25519⟩ := Fulfillment.ofChoice_simple a
  obtain ⟨ofPreimage', ofRsa', ofEd25519'⟩ := Fulfillment.ofChoice_simple b
  cases htype : a.type with
  | preimageSha256 =>
    rw [ofPreimage htype, ofPreimage' (types ▸ htype)]
    exact like.agree_readPreimage h
  | prefixSha256 =>
    rw [Fulfillment.ofChoice_prefixed htype, Fulfillment.ofChoice_prefixed (types ▸ htype)]
    rcases like.agree_readPrefixParts h.inside with
      ⟨e, e', he, he', hE⟩ | ⟨p, q, hp, hq, hlead, hlimit, hafter, hsub⟩
    · rw [he, he']
      exact .error hE
    · rw [hp, hq]
      refine (ih _ (Fulfillment.size_of_readPrefixParts hp) hsub rfl).bind ?_
      rintro sub _ rfl
      refine (like.agree_finish hsub.after _).bind ?_
      rintro _ _ -
      rw [hlead, hlimit]
      exact like.agree_conclude h hafter _
  | thresholdSha256 =>
    rw [Fulfillment.ofChoice_threshold htype, Fulfillment.ofChoice_threshold (types ▸ htype)]
    rcases like.agree_element h.inside (constructedTag 0) "subfulfillments" with
      ⟨e, e', he, he', hE⟩ | ⟨e, e', he, he', -, inside, after⟩
    · rw [he, he']
      exact .error hE
    · rw [he, he']
      have smaller := (size_of_element he).1
      refine (like.agree_setOf ?_ inside).bind ?_
      · intro child child' within _ hchild
        exact ih _ (Nat.lt_trans within smaller) hchild rfl
      rintro subfulfillments _ rfl
      refine (like.agree_element after _ _).bind ?_
      rintro second second' ⟨-, inside', after'⟩
      refine (like.agree_setOf ?_ inside').bind ?_
      · intro child child' _ _ hchild
        exact like.agree_conditionOfChoice hchild
      rintro subconditions _ rfl
      exact like.agree_conclude h after' _
  | rsaSha256 =>
    rw [ofRsa htype, ofRsa' (types ▸ htype)]
    exact like.agree_readRsa h
  | ed25519Sha256 =>
    rw [ofEd25519 htype, ofEd25519' (types ▸ htype)]
    exact like.agree_readEd25519 h

/-- A fulfillment is read in the same way at corresponding places. -/
theorem like_readFulfillment [CountsOctets ρ] [CountsOctets σ] (like : Corresponds R E)
    (h : R c d) : Reading.Like R E Eq (Fulfillment.read c) (Fulfillment.read d) :=
  like_reading h (like.agree_choice h .fulfillment) (fun _ _ found => found.after)
    fun _ _ found => like.agree_fulfillmentOfChoice found

end Der.Region.Corresponds

/-! ### Readers in windows -/

namespace Der.Window

variable {data : Bytes} {w : Window} {c : Cursor}

theorem readCondition_eq (h : At data w c) :
    Condition.read w =
      ⟨(Condition.read c).result.mapError .malformed, ofCursor data (Condition.read c).after⟩ :=
  reading_eq_of_like ((corresponds_cursor data).like_readCondition h)

theorem readFulfillment_eq (h : At data w c) :
    Fulfillment.read w =
      ⟨(Fulfillment.read c).result.mapError .malformed, ofCursor data (Fulfillment.read c).after⟩ :=
  reading_eq_of_like ((corresponds_cursor data).like_readFulfillment h)

end Der.Window

/-! ### Reading back -/

namespace Condition

/-- **Conditions and their encodings correspond one to one.** A condition is read back from the
front of any octets, and the octets behind it are left. An octet string is read as that condition if
and only if it is its encoding. -/
theorem reads_exactly_encode (c : Condition) (s : Bytes) :
    read (Window.ofBytes (c.encode ++ s)) =
        ⟨.ok c, ⟨c.encode ++ s, c.encode.length, (c.encode ++ s).length⟩⟩ ∧
      read (Cursor.ofBytes (c.encode ++ s)) = ⟨.ok c, ⟨c.encode.length, s⟩⟩ ∧
      ∀ bs, decode bs = .ok c ↔ bs = c.encode := by
  have at_cursor : read (Cursor.ofBytes (c.encode ++ s)) = ⟨.ok c, ⟨c.encode.length, s⟩⟩ :=
    value_eq_ok_iff.mp (read_eq_ok_iff.mpr (Cursor.spans_ofBytes _ _))
  refine ⟨?_, at_cursor, fun _ => decode_eq_ok_iff⟩
  rw [Window.readCondition_eq (Window.at_ofBytes _), at_cursor, Window.ofCursor,
    List.length_append, Int.natCast_add]
  rfl

end Condition

namespace Fulfillment

/-- **Reading undoes writing.** A fulfillment is read back from the front of any octets, and the
octets behind it are left. -/
theorem read_encode_append {f : Fulfillment} (made : Constructible f)
    (short : f.encode.length < 2 ^ 32) (s : Bytes) :
    read (Window.ofBytes (f.encode ++ s)) =
        ⟨.ok f, ⟨f.encode ++ s, f.encode.length, (f.encode ++ s).length⟩⟩ ∧
      read (Cursor.ofBytes (f.encode ++ s)) = ⟨.ok f, ⟨f.encode.length, s⟩⟩ ∧
      decode f.encode = .ok f := by
  have body_short : f.body.length < 256 ^ 4 := by
    have shorter := f.length_body_lt
    omega
  have at_cursor : read (Cursor.ofBytes (f.encode ++ s)) = ⟨.ok f, ⟨f.encode.length, s⟩⟩ :=
    value_eq_ok_iff.mp (read_eq_ok_iff.mpr ⟨made, body_short, Cursor.spans_ofBytes _ _⟩)
  refine ⟨?_, at_cursor, decode_eq_ok_iff.mpr ⟨made, body_short, rfl⟩⟩
  have start := Window.at_ofBytes (f.encode ++ s)
  have like := (Window.corresponds_cursor _).like_readFulfillment start
  rw [at_cursor] at like
  generalize read (Window.ofBytes (f.encode ++ s)) = reading at like
  obtain ⟨result, after⟩ := reading
  obtain ⟨agrees, place⟩ := like
  obtain ⟨g, rfl, rfl⟩ := agrees.ok_of_ok rfl
  have place : after = _ := place.eq
  rw [place, List.length_append, Int.natCast_add]

/-- A prefix over a preimage, both of them empty, in front of one more octet. -/
theorem read_encode_append_prefixed :
    ∃ f, Constructible f ∧ f.encode.length < 2 ^ 32 ∧ f.type = .prefixSha256 ∧
      read (Window.ofBytes (f.encode ++ [0xFF])) =
        ⟨.ok f, ⟨f.encode ++ [0xFF], f.encode.length, (f.encode ++ [0xFF]).length⟩⟩ ∧
      decode f.encode = .ok f := by
  obtain ⟨f, hf, htype, -⟩ := exists_decode_prefixedSample
  obtain ⟨made, -, written⟩ := decode_eq_ok_iff.mp hf
  have short : f.encode.length < 2 ^ 32 := by
    rw [written]
    decide
  obtain ⟨in_window, -, decoded⟩ := read_encode_append made short [0xFF]
  exact ⟨f, made, short, htype, in_window, decoded⟩

end Fulfillment

end HashConditions
