import HashConditions.Der.Session
import HashConditions.Proofs.Locating

/-!
# Sessions stay sound

A session reads one octet string in a growing family of regions, step by step and in any order, and
goes on after failures. Three things could go wrong with that. A region could leave the string, a
step could move a region to the middle of an element, and a step for one region could move another
one. None of them happens.

An action either leaves its region as it was or takes exactly one element off it (`Region.Sound`).
This is shown at cursors, where an element is a prefix of the octets, and it is carried over to
windows because every action does the same in a window of a string as at its cursor
(`Corresponds.like_perform`). A session whose regions all lie in the string therefore keeps them
there, and it only ever extends: no region gets another end or goes back (`Session.Extends`). Both
are laws of one step, and go over to every list of steps by induction on the list.

A nested region lies in the octets that were taken off for it, and the region they were taken off
never goes back to them. So no two regions that were opened in one region overlap.

## Main results

* `Corresponds.like_perform` — every action at corresponding regions
* `Region.sound_perform` — an action stays, or takes one element off
* `Session.exists_stepSound`, `Session.Extends.of_step` — one step
* `Session.run_sound` — every list of steps
-/

namespace HashConditions

namespace Der

/-! ### Actions at corresponding regions -/

/-- The same was found, or regions that `R` relates. -/
inductive Found.Like {ρ σ : Type} (R : ρ → σ → Prop) : Found ρ → Found σ → Prop
  | octets (bs : Bytes) : Like R (.octets bs) (.octets bs)
  | element (tag : UInt8) (bs : Bytes) : Like R (.element tag bs) (.element tag bs)
  | integer (n : Nat) : Like R (.integer n) (.integer n)
  | nested {c : ρ} {d : σ} (h : R c d) : Like R (.nested c) (.nested d)
  | tag (tag : UInt8) : Like R (.tag tag) (.tag tag)
  | flag (b : Bool) : Like R (.flag b) (.flag b)
  | nothing : Like R .nothing .nothing
  | condition (c : Condition) : Like R (.condition c) (.condition c)
  | fulfillment (f : Fulfillment) : Like R (.fulfillment f) (.fulfillment f)

section Like

variable {ρ ε σ δ α β α' β' : Type} {R : ρ → σ → Prop} {E : ε → δ → Prop}
  {V : α → β → Prop} {W : α' → β' → Prop}

theorem Agree.exists_error {x : Except ε α} {y : Except δ β} {e : ε} (h : Agree E V x y)
    (hx : x = .error e) : ∃ e', y = .error e' ∧ E e e' := by
  obtain ⟨e₁, e', he₁, he', related⟩ | ⟨a, _, ha, -⟩ := h
  · obtain rfl : e = e₁ := Except.error.inj (hx.symm.trans he₁)
    exact ⟨e', he', related⟩
  · rw [hx] at ha
    cases ha

theorem Agree.exists_ok {x : Except ε α} {y : Except δ β} {a : α} (h : Agree E V x y)
    (hx : x = .ok a) : ∃ b, y = .ok b ∧ V a b := by
  obtain ⟨_, _, he, -⟩ | ⟨a₁, b, ha₁, hb, related⟩ := h
  · rw [hx] at he
    cases he
  · obtain rfl : a = a₁ := Except.ok.inj (hx.symm.trans ha₁)
    exact ⟨b, hb, related⟩

theorem Reading.Like.map {r : Reading ρ ε α} {s : Reading σ δ β} {f : α → α'} {g : β → β'}
    (h : Reading.Like R E V r s) (hfg : ∀ a b, V a b → W (f a) (g b)) :
    Reading.Like R E W (r.map f) (s.map g) :=
  ⟨h.1.map hfg, h.2⟩

namespace Region.Corresponds

variable [Region ρ ε] [Region σ δ] {c : ρ} {d : σ}

theorem like_readAny (like : Corresponds R E) (h : R c d) (field : String) :
    Reading.Like R E Eq (readAny c field) (readAny d field) := by
  refine like_reading h (like.agree_next h field) (fun _ _ found => found.2.2) ?_
  intro a b found
  rw [Element.content, Element.content, found.1, like.contents_eq found.2.1]
  exact .ok rfl

theorem like_readNested (like : Corresponds R E) (h : R c d) (tag : UInt8) (field : String) :
    Reading.Like R E R (readNested c tag field) (readNested d tag field) :=
  like_reading h (like.agree_element h tag field) (fun _ _ found => found.2.2)
    fun _ _ found => .ok found.2.1

theorem like_under (like : Corresponds R E) (h : R c d) (tag : Int) (field : String)
    {read : UInt8 → Reading ρ ε α} {read' : UInt8 → Reading σ δ β}
    (hread : ∀ tag, Reading.Like R E V (read tag) (read' tag)) :
    Reading.Like R E V (under c tag field read) (under d tag field read') := by
  rw [under, under]
  split
  · exact hread _
  · refine ⟨(like.agree_peek h field).bind ?_, h⟩
    rintro found _ rfl
    exact .error (like.fail h _ _)

/-- Every action does the same in regions that correspond. -/
theorem like_perform [CountsOctets ρ] [CountsOctets σ] (like : Corresponds R E) (h : R c d)
    (action : Action) :
    Reading.Like R E (Found.Like R) (perform c action) (perform d action) := by
  cases action with
  | octets tag field =>
    refine like.like_under h tag field fun tag => (like.like_readOctets h tag field).map ?_
    rintro bs _ rfl
    exact .octets bs
  | any field =>
    refine (like.like_readAny h field).map ?_
    rintro ⟨tag, bs⟩ _ rfl
    exact .element tag bs
  | integer tag field =>
    refine like.like_under h tag field fun tag => (like.like_readInteger h tag field).map ?_
    rintro n _ rfl
    exact .integer n
  | nested tag field =>
    refine like.like_under h tag field fun tag => (like.like_readNested h tag field).map ?_
    intro inside inside' related
    exact .nested related
  | peek field =>
    refine ⟨(like.agree_peek h field).map ?_, h⟩
    rintro tag _ rfl
    exact .tag tag
  | atEnd =>
    refine ⟨.ok ?_, h⟩
    rw [like.atEnd_eq h]
    exact .flag _
  | finish field =>
    refine ⟨(like.agree_finish h field).map ?_, h⟩
    rintro _ _ -
    exact .nothing
  | condition =>
    refine (like.like_readCondition h).map ?_
    rintro condition _ rfl
    exact .condition condition
  | fulfillment =>
    refine (like.like_readFulfillment h).map ?_
    rintro f _ rfl
    exact .fulfillment f

end Region.Corresponds

end Like

/-! ### What an action does to its region -/

/-- Whether an action makes a value of the content of the element that it finds. Only then can it
fail after the element was found. -/
def Action.interprets : Action → Bool
  | .integer .. => true
  | .condition => true
  | .fulfillment => true
  | _ => false

namespace Region

section Passes

variable {ρ ε : Type} [Region ρ ε] {c d : ρ} {bs : Bytes}

/-- The octets `bs` lie between the first region and the second, which has the same end. -/
structure Passes (c : ρ) (bs : Bytes) (d : ρ) : Prop where
  contents_eq : contents c = bs ++ contents d
  offset_eq : offset d = offset c + bs.length
  stop_eq : stop d = stop c

/-- One element lies between the first region and the second. Its length has at most four octets. -/
def PassesElement (c d : ρ) : Prop :=
  ∃ tag content, content.length < 256 ^ 4 ∧ Passes c (encodeElement tag content) d

/-- What is to be expected of an action on the region `c`. The region stays as it is, or one element
is taken off it; after a failure it stays, unless a value was to be made of the element. If a region
is opened, it is the content of the element that is taken off. -/
structure Sound (action : Action) (c : ρ) (r : Reading ρ ε (Found ρ)) : Prop where
  after : r.after = c ∨ PassesElement c r.after
  stays : ∀ e, r.result = .error e → action.interprets = false → r.after = c
  opens : ∀ inside, r.result = .ok (.nested inside) →
    ∃ tag, Passes c (encodeElement tag (contents inside)) r.after ∧ stop inside = offset r.after

end Passes

/-! At a cursor, the octets that an action takes off are those that reading an element spans. -/

section Cursors

variable {c d : Cursor} {bs : Bytes} {tag : UInt8} {field : String} {action : Action}

theorem passes_of_spans (h : c.Spans bs d) : Passes c bs d := by
  obtain ⟨rest, moved⟩ := h
  refine ⟨rest, ?_, ?_⟩
  · rw [Cursor.offset_eq, Cursor.offset_eq, moved, Int.natCast_add]
  · rw [stop, stop, Cursor.offset_eq, Cursor.offset_eq, Cursor.size_eq, Cursor.size_eq, moved, rest,
      List.length_append]
    omega

theorem passes_of_next {e : Element Cursor} (h : next c field = .ok e) :
    Passes c (encodeElement e.tag (contents e.inside)) e.after ∧
      stop e.inside = offset e.after := by
  obtain ⟨spans, inside, -⟩ := spans_of_next h
  refine ⟨passes_of_spans spans, ?_⟩
  rw [stop, Cursor.offset_eq, Cursor.offset_eq, Cursor.size_eq, inside, spans.2,
    length_encodeElement]
  omega

theorem passesElement_of_next {e : Element Cursor} (h : next c field = .ok e) :
    PassesElement c e.after :=
  ⟨e.tag, contents e.inside, (spans_of_next h).2.2, (passes_of_next h).1⟩

theorem passesElement_of_element {e : Element Cursor} (h : element c tag field = .ok e) :
    PassesElement c e.after :=
  passesElement_of_next (next_of_element h)

theorem passesElement_of_choice {kind : Announced} {found : Choice Cursor}
    (h : choice c kind = .ok found) : PassesElement c found.after := by
  obtain ⟨-, spans, -, short⟩ := choice_eq_ok_iff.mp h
  exact ⟨_, _, short, passes_of_spans spans⟩

/-- An action that leaves its region as it is, and opens none. -/
theorem sound_stay {result : Except Malformed (Found Cursor)}
    (none : ∀ inside, result ≠ .ok (.nested inside)) : Sound action c ⟨result, c⟩ where
  after := .inl rfl
  stays _ _ _ := rfl
  opens inside h := absurd h (none inside)

/-- An action that takes one element off, if it finds one. -/
theorem sound_reading {α β : Type} {found : Except Malformed β} {after : β → Cursor}
    {make : β → Except Malformed α} {f : α → Found Cursor}
    (passes : ∀ b, found = .ok b → PassesElement c (after b))
    (makes : action.interprets = false → ∀ b, ∃ a, make b = .ok a)
    (opens : ∀ b a inside, found = .ok b → make b = .ok a → f a = .nested inside →
      ∃ tag, Passes c (encodeElement tag (contents inside)) (after b) ∧
        stop inside = offset (after b)) :
    Sound action c ((reading c found after make).map f) := by
  cases found with
  | error e =>
    refine sound_stay ?_
    intro inside opened
    cases opened
  | ok b =>
    refine ⟨.inr (passes b rfl), ?_, ?_⟩
    · intro e failed plain
      obtain ⟨a, made⟩ := makes plain b
      rw [reading, Reading.map, made] at failed
      cases failed
    · intro inside opened
      obtain ⟨a, made, same⟩ := map_eq_ok_iff.mp opened
      exact opens b a inside rfl made same

/-- The same for what opens no region. -/
theorem sound_reading_of_ne {α β : Type} {found : Except Malformed β} {after : β → Cursor}
    {make : β → Except Malformed α} {f : α → Found Cursor}
    (closed : ∀ a inside, f a ≠ .nested inside)
    (passes : ∀ b, found = .ok b → PassesElement c (after b))
    (makes : action.interprets = false → ∀ b, ∃ a, make b = .ok a) :
    Sound action c ((reading c found after make).map f) :=
  sound_reading passes makes fun _ a inside _ _ opened => absurd opened (closed a inside)

theorem sound_under {α : Type} {tag : Int} {f : α → Found Cursor}
    {read : UInt8 → Reading Cursor Malformed α}
    (h : ∀ tag, Sound action c ((read tag).map f)) :
    Sound action c (under c tag field fun tag => (read tag).map f) := by
  rw [under]
  split
  · exact h _
  · refine sound_stay ?_
    intro inside opened
    obtain ⟨_, -, failed⟩ := bind_eq_ok_iff.mp opened
    cases failed

/-- At a cursor, an action stays or takes one element off. -/
theorem sound_perform (c : Cursor) (action : Action) : Sound action c (perform c action) := by
  cases action with
  | octets tag field =>
    refine sound_under fun tag =>
      sound_reading_of_ne ?_ (fun _ => passesElement_of_element) fun _ e => ⟨e.content, rfl⟩
    rintro _ _ ⟨⟩
  | any field =>
    refine sound_reading_of_ne ?_ (fun _ => passesElement_of_next) fun _ e => ⟨_, rfl⟩
    rintro _ _ ⟨⟩
  | integer tag field =>
    refine sound_under fun tag => sound_reading_of_ne ?_ (fun _ => passesElement_of_element) ?_
    · rintro _ _ ⟨⟩
    · rintro ⟨⟩
  | nested tag field =>
    refine sound_under fun tag =>
      sound_reading (fun _ => passesElement_of_element) (fun _ e => ⟨e.inside, rfl⟩) ?_
    intro e inside _ h made opened
    cases made
    cases opened
    exact ⟨e.tag, passes_of_next (next_of_element h)⟩
  | peek field =>
    refine sound_stay fun inside opened => ?_
    obtain ⟨_, -, ⟨⟩⟩ := map_eq_ok_iff.mp opened
  | atEnd =>
    refine sound_stay ?_
    rintro _ ⟨⟩
  | finish field =>
    refine sound_stay fun inside opened => ?_
    obtain ⟨_, -, ⟨⟩⟩ := map_eq_ok_iff.mp opened
  | condition =>
    refine sound_reading_of_ne ?_ (fun _ => passesElement_of_choice) ?_
    · rintro _ _ ⟨⟩
    · rintro ⟨⟩
  | fulfillment =>
    refine sound_reading_of_ne ?_ (fun _ => passesElement_of_choice) ?_
    · rintro _ _ ⟨⟩
    · rintro ⟨⟩

end Cursors

end Region

/-! ### Actions on windows of a string -/

namespace Window

open Region

variable {data : Bytes} {w w' : Window} {c d : Cursor} {bs : Bytes}

theorem At.passes (h : At data w c) (h' : At data w' d) (between : Passes c bs d) :
    Passes w bs w' := by
  have like := corresponds_cursor data
  obtain ⟨contents, moved, same⟩ := between
  have offset : w.offset = c.offset := congrArg Window.offset h.eq
  have offset' : w'.offset = d.offset := congrArg Window.offset h'.eq
  refine ⟨?_, ?_, ?_⟩
  · rw [like.contents_eq h, like.contents_eq h', contents]
  · show w'.offset = w.offset + bs.length
    rw [offset, offset']
    exact moved
  · show w'.offset + Region.size w' = w.offset + Region.size w
    rw [offset, offset', like.size_eq h, like.size_eq h']
    exact same

/-- A window of the string `data`. -/
def Within (data : Bytes) (w : Window) : Prop :=
  w.data = data ∧ w.Inside

theorem Within.at_cursor (h : Within data w) : At data w w.cursor :=
  ⟨h.1, h.2, rfl⟩

theorem At.within (h : At data w c) : Within data w :=
  ⟨h.1, h.2.1⟩

theorem Within.stop_eq (h : Within data w) : Region.stop w = w.stop := by
  obtain ⟨-, start, order, finish⟩ := h
  show w.offset + ((w.stop - w.offset).toNat : Int) = w.stop
  omega

theorem Within.offset_le_stop (h : Within data w) : w.offset ≤ w.stop :=
  h.2.2.1

/-- What is to be expected of an action on a window of the string `data`. -/
structure Sound (data : Bytes) (action : Action) (w : Window)
    (r : Der.Reading Window Error (Found Window)) : Prop extends Region.Sound action w r where
  after_within : Within data r.after
  opens_within : ∀ inside, r.result = .ok (.nested inside) → Within data inside
  malformed : ∀ e, r.result = .error e → ∃ why, e = .malformed why

/-- In a window of a string, an action stays or takes one element off, as it does at the cursor at
the start of the window. No octet is missing. -/
theorem sound_perform (h : Within data w) (action : Action) :
    Sound data action w (perform w action) := by
  obtain ⟨result, place⟩ := (corresponds_cursor data).like_perform h.at_cursor action
  obtain ⟨after, stays, opens⟩ := Region.sound_perform w.cursor action
  have stay (same : (perform w.cursor action).after = w.cursor) : (perform w action).after = w :=
    (same ▸ place).eq.trans h.at_cursor.eq.symm
  have opened {inside : Window} (found : (perform w action).result = .ok (.nested inside)) :
      ∃ c, (perform w.cursor action).result = .ok (.nested c) ∧ At data inside c := by
    obtain ⟨_, found', like⟩ := result.exists_ok found
    cases like with
    | nested related => exact ⟨_, found', related⟩
  refine ⟨⟨?_, ?_, ?_⟩, place.within, ?_, ?_⟩
  · obtain same | ⟨tag, content, short, between⟩ := after
    · exact .inl (stay same)
    · exact .inr ⟨tag, content, short, h.at_cursor.passes place between⟩
  · intro e failed plain
    obtain ⟨why, failed', -⟩ := result.exists_error failed
    exact stay (stays why failed' plain)
  · intro inside found
    obtain ⟨c, found', related⟩ := opened found
    obtain ⟨tag, between, ends⟩ := opens c found'
    refine ⟨tag, ?_, ?_⟩
    · rw [(corresponds_cursor data).contents_eq related]
      exact h.at_cursor.passes place between
    · rw [related.within.stop_eq, related.eq, place.eq]
      exact ends
  · intro inside found
    obtain ⟨c, -, related⟩ := opened found
    exact related.within
  · intro e failed
    obtain ⟨why, -, same⟩ := result.exists_error failed
    exact ⟨why, same⟩

namespace Sound

variable {action : Action} {r : Der.Reading Window Error (Found Window)}

theorem le_offset (sound : Sound data action w r) : w.offset ≤ r.after.offset := by
  obtain same | ⟨tag, content, -, between⟩ := sound.after
  · exact Int.le_of_eq (congrArg Window.offset same.symm)
  · have moved : r.after.offset = w.offset + (encodeElement tag content).length :=
      between.offset_eq
    omega

theorem stop_eq (sound : Sound data action w r) (h : Within data w) : r.after.stop = w.stop := by
  obtain same | ⟨tag, content, -, between⟩ := sound.after
  · rw [same]
  · rw [← sound.after_within.stop_eq, ← h.stop_eq]
    exact between.stop_eq

/-- An opened region lies between where its element starts and where reading goes on. -/
theorem opened (sound : Sound data action w r) {inside : Window}
    (found : r.result = .ok (.nested inside)) :
    w.offset ≤ inside.offset ∧ inside.offset ≤ inside.stop ∧ inside.stop = r.after.offset := by
  obtain ⟨tag, between, ends⟩ := sound.opens inside found
  have within := sound.opens_within inside found
  have moved : r.after.offset =
      w.offset + (encodeElement tag (contents inside)).length := between.offset_eq
  have longer := length_lt_length_encodeElement tag (contents inside)
  have length : (inside.size : Int) = inside.stop - inside.offset := by
    have order := within.offset_le_stop
    rw [size]
    omega
  have contents_length : (contents inside).length = inside.size :=
    (congrArg List.length (contents_eq_rest within.2)).trans (size_eq_length within.2).symm
  rw [within.stop_eq] at ends
  have ends : inside.stop = r.after.offset := ends
  refine ⟨?_, within.offset_le_stop, ends⟩
  omega

end Sound

end Window

/-! ### Steps -/

namespace Session

section Run

variable {ρ ε : Type} {c : ρ}

/-- The regions that a result opens, one or none. -/
def opened : Except ε (Found ρ) → List ρ
  | .ok (.nested inside) => [inside]
  | _ => []

theorem opened_eq_nil {result : Except ε (Found ρ)}
    (closed : ∀ inside, result ≠ .ok (.nested inside)) : opened result = [] := by
  rw [opened]
  exact closed

theorem mem_opened {result : Except ε (Found ρ)} :
    c ∈ opened result ↔ result = .ok (.nested c) := by
  constructor
  · intro member
    rw [opened.eq_def] at member
    split at member
    · obtain rfl := List.mem_singleton.mp member
      rfl
    · cases member
  · rintro rfl
    exact List.mem_singleton_self c

variable [Region ρ ε] {s : Session ρ} {number : Nat} {action : Action}

theorem step_of_some (h : s[number]? = some c) :
    s.step number action = (some (Region.perform c action).result,
      s.set number (Region.perform c action).after ++ opened (Region.perform c action).result) := by
  rw [step, h]
  simp only
  split
  · next inside found => rw [found, opened]
  · next closed =>
    rw [opened, List.append_nil]
    exact closed

theorem step_of_none (h : s[number]? = none) : s.step number action = (none, s) := by
  rw [step, h]

/-- The session after a list of steps, whatever comes of each of them. -/
def run (s : Session ρ) (steps : List (Nat × Action)) : Session ρ :=
  steps.foldl (fun s step => (s.step step.1 step.2).2) s

theorem run_cons (steps : List (Nat × Action)) :
    s.run ((number, action) :: steps) = (s.step number action).2.run steps :=
  rfl

theorem run_append (steps more : List (Nat × Action)) :
    s.run (steps ++ more) = (s.run steps).run more :=
  List.foldl_append

end Run

variable {data : Bytes} {s s' s'' : Session Window} {number : Nat} {action : Action} {w : Window}

/-- All regions lie in the string `data`. -/
def Within (data : Bytes) (s : Session Window) : Prop :=
  ∀ w ∈ s, w.Within data

/-- The second session goes on from the first. Each region of the first is still there, ends where
it ended, and did not go back. -/
def Extends (s s' : Session Window) : Prop :=
  ∀ (number : Nat) (w : Window), s[number]? = some w →
    ∃ w' : Window, s'[number]? = some w' ∧ w.offset ≤ w'.offset ∧ w'.stop = w.stop

theorem Extends.refl (s : Session Window) : s.Extends s :=
  fun _ w there => ⟨w, there, Int.le_refl _, rfl⟩

theorem Extends.trans (first : s.Extends s') (second : s'.Extends s'') : s.Extends s'' := by
  intro number w there
  obtain ⟨w', there', le, same⟩ := first number w there
  obtain ⟨w'', there'', le', same'⟩ := second number w' there'
  exact ⟨w'', there'', Int.le_trans le le', same'.trans same⟩

/-- What is to be expected of a step of the session `s`, which is an action on its region `w`. The
session becomes `s'`, and the region becomes `w'`. -/
structure StepSound (s : Session Window) (number : Nat) (action : Action) (w : Window)
    (result : Except Window.Error (Found Window)) (s' : Session Window) (w' : Window) : Prop where
  step_eq : s.step number action = (some result, s')
  moved : s'[number]? = some w'
  others : ∀ other < s.length, other ≠ number → s'[other]? = s[other]?
  le_offset : w.offset ≤ w'.offset
  stop_eq : w'.stop = w.stop
  sound : Region.Sound action w ⟨result, w'⟩
  malformed : ∀ e, result = .error e → ∃ why, e = .malformed why
  closed : (∀ inside, result ≠ .ok (.nested inside)) → s'.length = s.length
  opened : ∀ inside, result = .ok (.nested inside) →
    s'.length = s.length + 1 ∧ s'[s.length]? = some inside ∧
      w.offset ≤ inside.offset ∧ inside.offset ≤ inside.stop ∧ inside.stop = w'.offset

/-- **One step.** An action on a region that is there has a result, and it is sound. -/
theorem exists_stepSound (within : s.Within data) (there : s[number]? = some w)
    (action : Action) : ∃ result s' w', s.StepSound number action w result s' w' := by
  have h := within w (List.mem_of_getElem? there)
  have sound := Window.sound_perform h action
  obtain ⟨lt, -⟩ := List.getElem?_eq_some_iff.mp there
  have length : (s.set number (Region.perform w action).after).length = s.length :=
    List.length_set
  refine ⟨_, _, _, step_of_some there, ?_, ?_, sound.le_offset, sound.stop_eq h, sound.toSound,
    sound.malformed, ?_, ?_⟩
  · rw [List.getElem?_append_left (length ▸ lt), List.getElem?_set_self lt]
  · intro other lt' ne
    rw [List.getElem?_append_left (length ▸ lt'), List.getElem?_set_ne ne.symm]
  · intro closed
    rw [opened_eq_nil closed, List.append_nil, length]
  · intro inside found
    refine ⟨?_, ?_, sound.opened found⟩
    · rw [found, List.length_append, length]
      rfl
    · rw [found, List.getElem?_append_right (Nat.le_of_eq length), length, Nat.sub_self]
      rfl

/-- The regions stay in the string. -/
theorem Within.step (within : s.Within data) (number : Nat) (action : Action) :
    Within data (s.step number action).2 := by
  cases there : s[number]? with
  | none =>
    rw [step_of_none there]
    exact within
  | some w =>
    have sound := Window.sound_perform (within w (List.mem_of_getElem? there)) action
    rw [step_of_some there]
    intro v member
    obtain old | new := List.mem_append.mp member
    · obtain old | rfl := List.mem_or_eq_of_mem_set old
      · exact within v old
      · exact sound.after_within
    · exact sound.opens_within v (mem_opened.mp new)

/-- A step extends the session, whether there is a region for it or not. -/
theorem Extends.of_step (within : s.Within data) (number : Nat) (action : Action) :
    s.Extends (s.step number action).2 := by
  cases there : s[number]? with
  | none =>
    rw [step_of_none there]
    exact .refl s
  | some w =>
    obtain ⟨result, s', w', sound⟩ := exists_stepSound within there action
    rw [sound.step_eq]
    intro other v there'
    by_cases same : other = number
    · subst same
      obtain rfl : w = v := Option.some.inj (there.symm.trans there')
      exact ⟨w', sound.moved, sound.le_offset, sound.stop_eq⟩
    · obtain ⟨lt, -⟩ := List.getElem?_eq_some_iff.mp there'
      exact ⟨v, (sound.others other lt same).trans there', Int.le_refl _, rfl⟩

/-- A list of steps extends the session, and the regions stay in the string. -/
theorem extends_run (within : s.Within data) (steps : List (Nat × Action)) :
    (s.run steps).Within data ∧ s.Extends (s.run steps) := by
  induction steps generalizing s with
  | nil => exact ⟨within, .refl s⟩
  | cons step steps ih =>
    obtain ⟨number, action⟩ := step
    obtain ⟨within', further⟩ := ih (within.step number action)
    rw [run_cons]
    exact ⟨within', (Extends.of_step within number action).trans further⟩

theorem within_ofBytes (bs : Bytes) : Within bs [Window.ofBytes bs] := by
  intro w member
  obtain rfl := List.mem_singleton.mp member
  exact (Window.at_ofBytes bs).within

/-- Of two regions that were opened in one region, the second one starts behind the first. -/
theorem stop_le_offset_of_opened (within : s.Within data) {action' : Action}
    (between : List (Nat × Action)) {first second : Window}
    (opened : (s.step number action).1 = some (.ok (.nested first)))
    (opened' : ((s.run ((number, action) :: between)).step number action').1 =
      some (.ok (.nested second))) : first.stop ≤ second.offset := by
  cases there : s[number]? with
  | none =>
    rw [step_of_none there] at opened
    cases opened
  | some w =>
    obtain ⟨result, s₁, w₁, sound⟩ := exists_stepSound within there action
    rw [sound.step_eq] at opened
    obtain ⟨-, -, -, -, ends⟩ := sound.opened first (Option.some.inj opened)
    -- Whatever is done in between, the region does not go back behind the end of the first one.
    have within₁ : s₁.Within data := by
      have next := within.step number action
      rwa [sound.step_eq] at next
    obtain ⟨within₂, extends₂⟩ := extends_run within₁ between
    obtain ⟨w₂, there₂, le, -⟩ := extends₂ number w₁ sound.moved
    obtain ⟨result', s₃, w₃, sound'⟩ := exists_stepSound within₂ there₂ action'
    rw [run_cons, sound.step_eq, sound'.step_eq] at opened'
    obtain ⟨-, -, starts, -⟩ := sound'.opened second (Option.some.inj opened')
    calc first.stop
      _ = w₁.offset := ends
      _ ≤ w₂.offset := le
      _ ≤ second.offset := starts

/-- **Sessions stay sound.** Whatever steps a session on an octet string takes, all its regions lie
in the string. Every further step that is for a region of it is sound, and regions that are opened
in one region do not overlap. -/
theorem run_sound (bs : Bytes) (steps : List (Nat × Action)) :
    (run [Window.ofBytes bs] steps).Within bs ∧
      (∀ number action w, (run [Window.ofBytes bs] steps)[number]? = some w →
        ∃ result s' w',
          (run [Window.ofBytes bs] steps).StepSound number action w result s' w') ∧
      ∀ number action between action' first second,
        ((run [Window.ofBytes bs] steps).step number action).1 = some (.ok (.nested first)) →
        ((run [Window.ofBytes bs] (steps ++ (number, action) :: between)).step number action').1 =
          some (.ok (.nested second)) →
        first.stop ≤ second.offset := by
  obtain ⟨within, -⟩ := extends_run (within_ofBytes bs) steps
  refine ⟨within, ?_, ?_⟩
  · intro number action w there
    exact exists_stepSound within there action
  · intro number action between action' first second opened opened'
    rw [run_append] at opened'
    exact stop_le_offset_of_opened within between opened opened'

/-- Two elements. The integer in the second one has no digits. -/
def twoElements : Bytes :=
  [0xA0, 3, 2, 1, 5, 0xA1, 2, 2, 0]

/-- Both elements are opened, and lie apart. The integer in the second one fails, but its element is
left behind. -/
theorem run_sound_twoElements :
    ∃ first second behind why s',
      (step [Window.ofBytes twoElements] 0 (.nested 0xA0 "first")).1 = some (.ok (.nested first)) ∧
      (step (run [Window.ofBytes twoElements] [(0, .nested 0xA0 "first")]) 0
        (.nested 0xA1 "second")).1 = some (.ok (.nested second)) ∧
      first.stop ≤ second.offset ∧
      StepSound (run [Window.ofBytes twoElements]
          [(0, .nested 0xA0 "first"), (0, .nested 0xA1 "second")])
        2 (.integer 2 "number") second (.error (.malformed why)) s' behind ∧
      behind.offset = second.stop := by
  obtain ⟨-, -, apart⟩ := run_sound twoElements []
  obtain ⟨-, sound, -⟩ := run_sound twoElements
    [(0, .nested 0xA0 "first"), (0, .nested 0xA1 "second")]
  have disjoint := apart 0 (.nested 0xA0 "first") [] (.nested 0xA1 "second") ⟨twoElements, 2, 5⟩
    ⟨twoElements, 7, 9⟩ rfl rfl
  obtain ⟨result, s', w', failed⟩ := sound 2 (.integer 2 "number") ⟨twoElements, 7, 9⟩ rfl
  have result_eq := congrArg Prod.fst failed.step_eq
  have moved := failed.moved
  have s'_eq := congrArg Prod.snd failed.step_eq
  cases result_eq
  cases s'_eq
  cases moved
  exact ⟨_, _, _, _, _, rfl, rfl, disjoint, failed, rfl⟩

end Session

end Der

end HashConditions
