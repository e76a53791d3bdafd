import HashConditions.Der.Window
import HashConditions.Proofs.SetReading

/-!
# Corresponding regions

Readers are written once for all kinds of regions, so what they do is determined by what a region
answers to the questions of `Region`. Two regions correspond if they answer alike, up to a relation
between the failures, and if the regions that reading goes on with correspond again. Then every
reader does the same in both: `Agree` says that two results are related values or related failures.

The correspondence that matters most is the one between a window that lies in its string and the
cursor at its start. It carries every law of reading at a cursor over to windows.

## Main results

* `Corresponds.agree_choice`, `Corresponds.agree_element` — headers
* `Corresponds.like_readOctets`, `Corresponds.like_readInteger` — whole elements
* `Corresponds.agree_setOf` — sets of elements
* `Window.corresponds_cursor` — windows and cursors
-/

namespace HashConditions

namespace Der

/-! ### Results that agree -/

section Agree

variable {ε δ α β α' β' : Type} {E : ε → δ → Prop} {V : α → β → Prop} {W : α' → β' → Prop}

/-- Both results are failures that `E` relates, or both are values that `V` relates. -/
def Agree (E : ε → δ → Prop) (V : α → β → Prop) (x : Except ε α) (y : Except δ β) : Prop :=
  (∃ e e', x = .error e ∧ y = .error e' ∧ E e e') ∨ ∃ a b, x = .ok a ∧ y = .ok b ∧ V a b

theorem Agree.error {e : ε} {e' : δ} (h : E e e') : Agree E V (.error e) (.error e') :=
  .inl ⟨e, e', rfl, rfl, h⟩

theorem Agree.ok {a : α} {b : β} (h : V a b) : Agree E V (.ok a) (.ok b) :=
  .inr ⟨a, b, rfl, rfl, h⟩

theorem Agree.bind {x : Except ε α} {y : Except δ β} {f : α → Except ε α'} {g : β → Except δ β'}
    (h : Agree E V x y) (hfg : ∀ a b, V a b → Agree E W (f a) (g b)) :
    Agree E W (x >>= f) (y >>= g) := by
  rcases h with ⟨e, e', rfl, rfl, he⟩ | ⟨a, b, rfl, rfl, hab⟩
  · exact .error he
  · exact hfg a b hab

theorem Agree.map {x : Except ε α} {y : Except δ β} {f : α → α'} {g : β → β'}
    (h : Agree E V x y) (hfg : ∀ a b, V a b → W (f a) (g b)) : Agree E W (x.map f) (y.map g) := by
  rcases h with ⟨e, e', rfl, rfl, he⟩ | ⟨a, b, rfl, rfl, hab⟩
  · exact .error he
  · exact .ok (hfg a b hab)

/-- A value on one side is a value on the other. -/
theorem Agree.ok_of_ok {x : Except ε α} {y : Except δ β} {b : β} (h : Agree E V x y)
    (hy : y = .ok b) : ∃ a, x = .ok a ∧ V a b := by
  rcases h with ⟨e, e', -, he', -⟩ | ⟨a, b', ha, hb', hab⟩
  · rw [hy] at he'
    exact nomatch he'
  · obtain rfl : b = b' := Except.ok.inj (hy.symm.trans hb')
    exact ⟨a, ha, hab⟩

/-- Where the failures on one side are made from those on the other, so is the result. -/
theorem Agree.eq_mapError {φ : δ → ε} {x : Except ε α} {y : Except δ α}
    (h : Agree (fun e e' => e = φ e') Eq x y) : x = y.mapError φ := by
  rcases h with ⟨_, e', rfl, rfl, rfl⟩ | ⟨a, _, rfl, rfl, rfl⟩
  · rfl
  · rfl

end Agree

/-! ### Reading on keeps the end -/

/-- Positions in a region are counted in octets. -/
class CountsOctets (ρ : Type) {ε : Type} [Region ρ ε] : Prop where
  offset_skip : ∀ (c : ρ) (n : Nat), Region.offset (Region.skip c n) = Region.offset c + n

instance : CountsOctets Cursor where
  offset_skip c n := Int.natCast_add c.offset n

instance : CountsOctets Window where
  offset_skip _ _ := rfl

namespace Region

section End

variable {ρ ε : Type} [Region ρ ε] [CountsOctets ρ] {c : ρ} {tag : UInt8} {field : String} {n : Nat}

theorem stop_skip (h : n ≤ size c) : stop (skip c n) = stop c := by
  rw [stop, stop, size_skip, CountsOctets.offset_skip]
  omega

theorem stop_of_longLength {body : ρ} {count : Nat} (h : longLength c count field = .ok (n, body)) :
    stop body = stop c := by
  rw [longLength] at h
  split at h
  · next fit =>
    split at h
    · simp at h
    · split at h
      · simp at h
      · cases h
        exact stop_skip (le_size fit)
  · simp at h

theorem stop_of_length {body : ρ} (h : length c field = .ok (n, body)) : stop body = stop c := by
  rw [length] at h
  split at h
  · simp at h
  · simp at h
  · next first heq =>
    have step : stop (skip c 1) = stop c := stop_skip (size_pos heq)
    split at h
    · cases h
      exact step
    · split at h
      · simp at h
      · split at h
        · simp at h
        · exact (stop_of_longLength h).trans step

/-- The region behind an element ends where the region of the element ends. -/
theorem stop_of_next {e : Element ρ} (h : next c field = .ok e) : stop e.after = stop c := by
  rw [next] at h
  split at h
  · simp at h
  · next found hpeek =>
    split at h
    · simp at h
    · split at h
      · simp at h
      · next n body hlen =>
        rw [close] at h
        split at h
        · next fit =>
          cases h
          calc stop (skip body n) = stop body := stop_skip (le_size fit)
            _ = stop (skip c 1) := stop_of_length hlen
            _ = stop c := stop_skip (size_pos_of_peek hpeek)
        · simp at h

theorem stop_of_element {e : Element ρ} (h : element c tag field = .ok e) :
    stop e.after = stop c := by
  rw [element] at h
  split at h
  · simp at h
  · split at h
    · exact stop_of_next h
    · simp at h

theorem stop_of_choice {kind : Announced} {found : Choice ρ} (h : choice c kind = .ok found) :
    stop found.after = stop c := by
  rw [choice] at h
  split at h
  · simp at h
  · split at h
    · simp at h
    · split at h
      · simp at h
      · next e he =>
        cases h
        exact stop_of_element he

/-- A condition or a fulfillment, read or not, is followed by octets up to the same end. -/
theorem stop_after_reading {α : Type} (c : ρ) (kind : Announced) (make : Choice ρ → Except ε α) :
    stop (reading c (choice c kind) Choice.after make).after = stop c := by
  cases h : choice c kind with
  | error e => rfl
  | ok found => exact stop_of_choice h

/-- The octets before the region behind an element are as many as that region is smaller. -/
theorem upTo_of_choice {kind : Announced} {found : Choice ρ} (h : choice c kind = .ok found) :
    upTo c found.after = contents (within c (size c - size found.after)) := by
  have same := stop_of_choice h
  have smaller := (size_of_choice h).2
  rw [stop, stop] at same
  have count : (offset found.after - offset c).toNat = size c - size found.after := by omega
  rw [upTo, count]

end End

/-! ### Regions that correspond -/

variable {ρ ε σ δ : Type} [Region ρ ε] [Region σ δ]

/-- Regions that `R` relates answer alike, and so do the regions that reading goes on with. The
failures are related by `E`. -/
structure Corresponds (R : ρ → σ → Prop) (E : ε → δ → Prop) : Prop where
  size_eq : ∀ {c d}, R c d → size c = size d
  fits_eq : ∀ {c d}, R c d → ∀ n, fits c n = fits d n
  contents_eq : ∀ {c d}, R c d → contents c = contents d
  agree_first? : ∀ {c d}, R c d → Agree E Eq (first? c) (first? d)
  agree_digits : ∀ {c d}, R c d → 0 < size c → Agree E Eq (digits c) (digits d)
  skip : ∀ {c d n}, R c d → n ≤ size c → R (skip c n) (skip d n)
  within : ∀ {c d n}, R c d → n ≤ size c → R (within c n) (within d n)
  size_within : ∀ {c d n}, R c d → n ≤ size c → size (Region.within c n) = n
  fail : ∀ {c d}, R c d → ∀ fault field, E (fail c fault field) (fail d fault field)

end Region

/-- Elements with the same tag at corresponding places. -/
def Element.Like {ρ σ : Type} (R : ρ → σ → Prop) (e : Element ρ) (f : Element σ) : Prop :=
  e.tag = f.tag ∧ R e.inside f.inside ∧ R e.after f.after

/-- Headers of the same type at corresponding places. -/
structure Choice.Like {ρ σ : Type} (R : ρ → σ → Prop) (a : Choice ρ) (b : Choice σ) : Prop where
  type : a.type = b.type
  start : R a.start b.start
  inside : R a.inside b.inside
  after : R a.after b.after

/-- Readings that agree and go on from corresponding places. -/
def Reading.Like {ρ σ ε δ α β : Type} (R : ρ → σ → Prop) (E : ε → δ → Prop) (V : α → β → Prop)
    (r : Reading ρ ε α) (s : Reading σ δ β) : Prop :=
  Agree E V r.result s.result ∧ R r.after s.after

theorem Reading.Like.agree_value {ρ σ ε δ α β : Type} {R : ρ → σ → Prop} {E : ε → δ → Prop}
    {V : α → β → Prop} {r : Reading ρ ε α} {s : Reading σ δ β} (h : Reading.Like R E V r s) :
    Agree E (fun x y => V x.1 y.1 ∧ R x.2 y.2) r.value s.value := by
  obtain ⟨result, after⟩ := r
  obtain ⟨result', after'⟩ := s
  obtain ⟨⟨e, e', rfl, rfl, he⟩ | ⟨a, b, rfl, rfl, hab⟩, hafter⟩ := h
  · exact .error he
  · exact .ok ⟨hab, hafter⟩

/-- Where places and failures on one side are made from those on the other, so are readings. -/
theorem Reading.Like.eq_of_maps {ρ σ ε δ α : Type} {R : ρ → σ → Prop} {r : Reading ρ ε α}
    {s : Reading σ δ α} {place : σ → ρ} {failure : δ → ε}
    (h : Reading.Like R (fun e e' => e = failure e') Eq r s) (hR : ∀ c d, R c d → c = place d) :
    r = ⟨s.result.mapError failure, place s.after⟩ := by
  obtain ⟨result, after⟩ := r
  obtain ⟨agrees, next⟩ := h
  have same : result = s.result.mapError failure := agrees.eq_mapError
  have moved : after = place s.after := hR _ _ next
  rw [same, moved]

namespace Region

/-- What comes of corresponding elements by makers that agree. -/
theorem like_reading {ρ σ ε δ α β α' β' : Type} {R : ρ → σ → Prop} {E : ε → δ → Prop}
    {c : ρ} {d : σ} {U : α' → β' → Prop}
    {V : α → β → Prop} {found : Except ε α'} {found' : Except δ β'} {after : α' → ρ}
    {after' : β' → σ} {make : α' → Except ε α} {make' : β' → Except δ β} (h : R c d)
    (hfound : Agree E U found found') (hafter : ∀ a b, U a b → R (after a) (after' b))
    (hmake : ∀ a b, U a b → Agree E V (make a) (make' b)) :
    Reading.Like R E V (reading c found after make) (reading d found' after' make') := by
  rcases hfound with ⟨e, e', rfl, rfl, hE⟩ | ⟨a, b, rfl, rfl, hab⟩
  · exact ⟨.error hE, h⟩
  · exact ⟨hmake a b hab, hafter a b hab⟩

variable {ρ ε σ δ : Type} [Region ρ ε] [Region σ δ] {R : ρ → σ → Prop} {E : ε → δ → Prop}
  {c : ρ} {d : σ}

namespace Corresponds

/-! ### Headers -/

theorem atEnd_eq (like : Corresponds R E) (h : R c d) : atEnd c = atEnd d := by
  rw [atEnd, atEnd, like.size_eq h]

theorem agree_peek (like : Corresponds R E) (h : R c d) (field : String) :
    Agree E Eq (peek c field) (peek d field) := by
  rw [peek, peek]
  rcases like.agree_first? h with ⟨e, e', he, he', hE⟩ | ⟨a, b, ha, hb, rfl⟩
  · rw [he, he']
    exact .error hE
  · rw [ha, hb]
    cases a with
    | none => exact .error (like.fail h _ _)
    | some tag => exact .ok rfl

theorem agree_longLength (like : Corresponds R E) (h : R c d) {count : Nat} (pos : 0 < count)
    (field : String) :
    Agree E (fun x y => x.1 = y.1 ∧ R x.2 y.2) (longLength c count field)
      (longLength d count field) := by
  rw [longLength, longLength, ← like.fits_eq h]
  split
  · next fit =>
    have le := le_size fit
    have inner := like.within h le
    have some : 0 < size (Region.within c count) := by
      rw [like.size_within h le]
      exact pos
    rcases like.agree_digits inner some with ⟨e, e', he, he', hE⟩ | ⟨ds, _, hds, hds', rfl⟩
    · rw [he, he']
      exact .error hE
    · rw [hds, hds']
      simp only
      split
      · exact .error (like.fail h _ _)
      · exact .ok ⟨rfl, like.skip h le⟩
  · exact .error (like.fail h _ _)

theorem agree_length (like : Corresponds R E) (h : R c d) (field : String) :
    Agree E (fun x y => x.1 = y.1 ∧ R x.2 y.2) (length c field) (length d field) := by
  rw [length, length]
  rcases like.agree_first? h with ⟨e, e', he, he', hE⟩ | ⟨a, b, ha, hb, rfl⟩
  · rw [he, he']
    exact .error hE
  · rw [ha, hb]
    cases a with
    | none => exact .error (like.fail h _ _)
    | some first =>
      have next := like.skip h (size_pos ha)
      simp only
      split
      · exact .ok ⟨rfl, next⟩
      · split
        · exact .error (like.fail h _ _)
        · split
          · exact .error (like.fail h _ _)
          · next short indefinite _ =>
            have above : 128 < first.toNat := by
              have at_least : 128 ≤ first.toNat := Nat.le_of_not_lt short
              have other : first.toNat ≠ 128 := fun h => indefinite (UInt8.toNat_inj.mp h)
              omega
            exact like.agree_longLength next (Nat.sub_pos_of_lt above) field

theorem agree_next (like : Corresponds R E) (h : R c d) (field : String) :
    Agree E (Element.Like R) (next c field) (next d field) := by
  rw [next, next]
  rcases like.agree_peek h field with ⟨e, e', he, he', hE⟩ | ⟨tag, _, ht, ht', rfl⟩
  · rw [he, he']
    exact .error hE
  · rw [ht, ht']
    simp only
    split
    · exact .error (like.fail h _ _)
    · have next := like.skip h (size_pos_of_peek ht)
      rcases like.agree_length next field with
        ⟨e, e', he, he', hE⟩ | ⟨⟨n, body⟩, ⟨m, body'⟩, hn, hm, hnm, hbody⟩
      · rw [he, he']
        exact .error hE
      · obtain rfl : n = m := hnm
        rw [hn, hm]
        simp only
        rw [close, close, ← like.fits_eq hbody]
        split
        · next fit =>
          exact .ok ⟨rfl, like.within hbody (le_size fit), like.skip hbody (le_size fit)⟩
        · rw [like.size_eq hbody]
          exact .error (like.fail hbody _ _)

theorem agree_element (like : Corresponds R E) (h : R c d) (tag : UInt8) (field : String) :
    Agree E (Element.Like R) (element c tag field) (element d tag field) := by
  rw [element, element]
  rcases like.agree_peek h field with ⟨e, e', he, he', hE⟩ | ⟨found, _, hf, hf', rfl⟩
  · rw [he, he']
    exact .error hE
  · rw [hf, hf']
    simp only
    split
    · exact like.agree_next h field
    · exact .error (like.fail h _ _)

theorem agree_choice (like : Corresponds R E) (h : R c d) (kind : Announced) :
    Agree E (Choice.Like R) (choice c kind) (choice d kind) := by
  rw [choice, choice]
  rcases like.agree_peek h kind.field with ⟨e, e', he, he', hE⟩ | ⟨tag, _, ht, ht', rfl⟩
  · rw [he, he']
    exact .error hE
  · rw [ht, ht']
    simp only
    cases typeOfTag? tag with
    | none => exact .error (like.fail h _ _)
    | some type =>
      rcases like.agree_element h tag kind.field with
        ⟨e, e', he, he', hE⟩ | ⟨e, e', he, he', -, inside, after⟩
      · simp only [he, he']
        exact .error hE
      · simp only [he, he']
        exact .ok ⟨rfl, h, inside, after⟩

/-! ### Whole elements -/

theorem like_readOctets (like : Corresponds R E) (h : R c d) (tag : UInt8) (field : String) :
    Reading.Like R E Eq (readOctets c tag field) (readOctets d tag field) :=
  like_reading h (like.agree_element h tag field) (fun _ _ he => he.2.2)
    fun _ _ he => .ok (like.contents_eq he.2.1)

theorem like_readInteger (like : Corresponds R E) (h : R c d) (tag : UInt8) (field : String) :
    Reading.Like R E Eq (readInteger c tag field) (readInteger d tag field) := by
  refine like_reading h (like.agree_element h tag field) (fun _ _ he => he.2.2) ?_
  intro a b he
  rw [Element.content, Element.content, like.contents_eq he.2.1]
  cases decodeInteger (contents b.inside) with
  | error fault => exact .error (like.fail h _ _)
  | ok n => exact .ok rfl

/-! ### Sets -/

/-- Sets agree if what completes an element from its header agrees on corresponding headers. -/
theorem agree_setOf [CountsOctets ρ] [CountsOctets σ] (like : Corresponds R E) {α : Type}
    {n m : Nat} {kind : Announced} {field : String}
    {make : (found : Choice ρ) → size found.inside < n → Except ε α}
    {make' : (found : Choice σ) → size found.inside < m → Except δ α}
    (hmake : ∀ found found' h h', Choice.Like R found found' →
      Agree E Eq (make found h) (make' found' h'))
    {hc : size c ≤ n} {hd : size d ≤ m} {previous : Bytes} (h : R c d) :
    Agree E Eq (setOf kind field n make c hc previous)
      (setOf kind field m make' d hd previous) := by
  -- Each round leaves a smaller region, so the induction is on the size.
  induction hs : size c using Nat.strongRecOn generalizing c d previous with
  | ind s ih =>
  subst hs
  by_cases more : atEnd c = true
  · rw [setOf_of_atEnd more, setOf_of_atEnd (like.atEnd_eq h ▸ more)]
    exact .ok rfl
  · have more' : ¬atEnd d = true := like.atEnd_eq h ▸ more
    rcases like.agree_choice h kind with ⟨e, e', he, he', hE⟩ | ⟨a, b, ha, hb, hab⟩
    · rw [setOf_of_error more he, setOf_of_error more' he']
      exact .error hE
    · rw [setOf_of_choice more ha, setOf_of_choice more' hb]
      refine (hmake a b _ _ hab).bind ?_
      rintro value _ rfl
      have le : size c - size a.after ≤ size c := Nat.sub_le _ _
      have same : upTo c a.after = upTo d b.after := by
        rw [upTo_of_choice ha, upTo_of_choice hb, ← like.size_eq h, ← like.size_eq hab.after]
        exact like.contents_eq (like.within h le)
      rw [same]
      split
      · refine (ih _ (size_of_choice ha).2 hab.after rfl).map ?_
        rintro values _ rfl
        rfl
      · exact .error (like.fail h _ _)

theorem agree_finish (like : Corresponds R E) (h : R c d) (field : String) :
    Agree E Eq (finish c field) (finish d field) := by
  rw [finish, finish, like.atEnd_eq h]
  split
  · exact .ok rfl
  · rw [like.size_eq h]
    exact .error (like.fail h _ _)

end Corresponds

end Region

/-! ### Windows and cursors -/

namespace Window

open Region

/-- The window lies in the given string, and the cursor is the one at its start. -/
def At (data : Bytes) (w : Window) (c : Cursor) : Prop :=
  w.data = data ∧ w.Inside ∧ w.cursor = c

/-- A window in a string is given by its cursor. -/
theorem At.eq {data : Bytes} {w : Window} {c : Cursor} (h : At data w c) :
    w = ⟨data, c.offset, c.offset + c.rest.length⟩ := by
  obtain ⟨data, offset, stop⟩ := w
  obtain ⟨rfl, ⟨start, order, finish⟩, rfl⟩ := h
  simp only [cursor, Cursor.region, List.length_drop, List.length_take, mk.injEq, true_and] at *
  omega

/-- The window in a string from a cursor in it to the end of the cursor's region. -/
def ofCursor (data : Bytes) (c : Cursor) : Window :=
  ⟨data, c.offset, c.offset + c.rest.length⟩

/-- What is read in a window is what is read at its cursor. -/
theorem reading_eq_of_like {α : Type} {data : Bytes} {r : Der.Reading Window Error α}
    {s : Der.Reading Cursor Malformed α}
    (h : Reading.Like (At data) (fun e why => e = Error.malformed why) Eq r s) :
    r = ⟨s.result.mapError .malformed, ofCursor data s.after⟩ :=
  h.eq_of_maps fun _ _ place => place.eq

theorem at_ofBytes (bs : Bytes) : At bs (ofBytes bs) (Cursor.ofBytes bs) :=
  ⟨rfl, inside_ofBytes bs, cursor_ofBytes bs⟩

/-- **Windows are read like cursors.** A window that lies in its string answers like the cursor at
its start. -/
theorem corresponds_cursor (data : Bytes) :
    Corresponds (At data) fun e why => e = Error.malformed why where
  size_eq := by
    rintro w _ ⟨-, inside, rfl⟩
    exact size_eq_length inside
  fits_eq := by
    rintro w _ ⟨-, inside, rfl⟩ n
    show decide (n ≤ w.size) = decide (n ≤ w.cursor.rest.length)
    rw [size_eq_length inside]
  contents_eq := by
    rintro w _ ⟨-, inside, rfl⟩
    exact contents_eq_rest inside
  agree_first? := by
    rintro w _ ⟨-, inside, rfl⟩
    show Agree _ _ w.first? _
    rw [first?_eq_head? inside]
    exact .ok rfl
  agree_digits := by
    rintro w _ ⟨-, inside, rfl⟩ some
    show Agree _ _ w.digits _
    have length : 0 < w.cursor.rest.length := size_eq_length inside ▸ some
    rw [digits, contents_eq_rest inside, if_neg]
    · exact .ok rfl
    · rw [List.isEmpty_iff_length_eq_zero]
      exact Nat.ne_of_gt length
  skip := by
    rintro w _ n ⟨hdata, inside, rfl⟩ le
    exact ⟨hdata, inside.skip le, cursor_skip inside n⟩
  within := by
    rintro w _ n ⟨hdata, inside, rfl⟩ le
    exact ⟨hdata, inside.within le, cursor_within inside le⟩
  size_within := by
    rintro w _ n - -
    show (w.offset + n - w.offset).toNat = n
    omega
  fail := by
    rintro w _ ⟨-, ⟨start, -⟩, rfl⟩ fault field
    show Error.malformed ⟨fault, field, w.offset⟩ = .malformed ⟨fault, field, w.offset.toNat⟩
    rw [Int.toNat_of_nonneg start]

end Window

end Der

end HashConditions
